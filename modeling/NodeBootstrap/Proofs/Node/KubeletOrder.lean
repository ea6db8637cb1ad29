import NodeBootstrap.Node.Kubelet
import NodeBootstrap.Proofs.Ignition.Keeping
import NodeBootstrap.Proofs.Service.Dialogue
import NodeBootstrap.Proofs.Service.Management

/-!
# The kubelet is replaced while it does not run

Behind the check of its inputs, installing the kubelet falls into three parts
(`Kubelet.install_eq`). The first looks the service up and stops it if it exists (`hold`), the
second puts the files in place and makes the start command (`ready`), the third gives the command to
the service, or makes the service with it, and starts it (`register`). The first changes no file and
the second says nothing to the service control program. So a run can be read off how far it comes
(`Kubelet.Run`): files are changed only once the service is known not to exist or to have stopped,
and the service is changed only when all files are in place.
-/

set_option autoImplicit false

namespace NodeBootstrap

/-- The start command of a service of the host, `none` if it does not exist. -/
def Host.command? (h : Host) (name : Text) : Option Text := (h.services.get? name).map (·.command)

namespace ServiceControl

/-- The start command of a service. -/
def command? (control : ServiceControl) (name : Text) : Option Text :=
  match control with
  | .script _ => none
  | .table t => (t.services.get? name).map (·.command)

end ServiceControl

theorem Host.command?_eq (h : Host) (name : Text) : h.command? name = h.control.command? name := by
  unfold Host.command? Host.services ServiceControl.command?
  cases h.control <;> rfl

/-- A verb that neither makes a service nor changes its start command. -/
def KeepsCommands (words : List Text) : Prop :=
  words.head? ≠ some (text "create") ∧ words.head? ≠ some (text "config")

namespace ServiceTable

variable {t : ServiceTable} {verb name service : Text} {entry : ServiceEntry}
  {arguments : List Text}

/-- An entry that is given the command that it has changes no command. -/
theorem command?_update (hentry : t.services.get? name = some entry) (entry' : ServiceEntry)
    (hcommand : entry'.command = entry.command) :
    ((t.update name entry').services.get? service).map (·.command) =
      (t.services.get? service).map (·.command) := by
  by_cases hservice : name = service
  · subst hservice
    have hnew : (t.update name entry').services.get? name = some entry' :=
      OrderedMap.get?_set_self t.services name entry'
    rw [hnew, hentry, Option.map_some, Option.map_some, hcommand]
  · have hold : (t.update name entry').services.get? service = t.services.get? service :=
      OrderedMap.get?_set_ne _ _ hservice
    rw [hold]

theorem command?_bring (hentry : t.services.get? name = some entry) (state : Text) (already : Int) :
    ((t.bring name entry state already).2.services.get? service).map (·.command) =
      (t.services.get? service).map (·.command) := by
  rw [bring]
  split
  next => rfl
  next => exact command?_update hentry { entry with state := state } rfl

theorem command?_act (hentry : t.services.get? name = some entry) (hverb : verb ≠ text "config") :
    ((t.act verb name entry arguments).2.services.get? service).map (·.command) =
      (t.services.get? service).map (·.command) := by
  rw [act]
  split
  next => rfl
  split
  next => split <;> rfl
  split
  next => exact command?_update hentry { entry with description := arguments.headD [] } rfl
  split
  next => exact command?_bring hentry _ _
  split
  next => exact command?_bring hentry _ _
  next => rfl

theorem command?_answer (hcreate : verb ≠ text "create") (hverb : verb ≠ text "config") :
    ((t.answer verb name arguments).2.services.get? service).map (·.command) =
      (t.services.get? service).map (·.command) := by
  rw [answer]
  split
  next => rfl
  next =>
    rw [if_neg hcreate]
    cases hentry : t.services.get? name with
    | none => rfl
    | some entry => exact command?_act hentry hverb

end ServiceTable

namespace ServiceControl

variable {control : ServiceControl} {words : List Text}

theorem command?_run (hwords : KeepsCommands words) (service : Text) :
    (control.run words).2.command? service = control.command? service := by
  cases control with
  | script results => cases results <;> rfl
  | table t =>
    match words, hwords with
    | [], _ => rfl
    | [_], _ => rfl
    | verb :: name :: arguments, hwords =>
      have hcreate : verb ≠ text "create" := fun h => hwords.1 (congrArg some h)
      have hconfig : verb ≠ text "config" := fun h => hwords.2 (congrArg some h)
      refine ServiceTable.run_cases (I := fun t' => t'.services = t.services)
        (D := fun ran => (ran.2.services.get? service).map (·.command) =
          (t.services.get? service).map (·.command)) rfl (fun _ _ _ => rfl) ?_
        (fun _ _ _ => rfl) fun _ t' hservices => by rw [hservices]
      rintro - t' hservices
      rw [ServiceTable.command?_answer hcreate hconfig, hservices]

/-- A dialogue without such verbs makes no service and changes no start command. -/
theorem Answers.command? {last : ServiceControl} {d : Dialogue} (h : control.Answers d last)
    (hd : ∀ e ∈ d, KeepsCommands e.1) (service : Text) :
    last.command? service = control.command? service := by
  induction h with
  | nil => rfl
  | cons _ ih =>
    obtain ⟨hwords, hd⟩ := List.forall_mem_cons.mp hd
    rw [ih hd, command?_run hwords]

end ServiceControl

theorem Host.Said.command? {first h : Host} {d : Dialogue} (hd : first.Said d h)
    (hwords : ∀ e ∈ d, KeepsCommands e.1) (service : Text) :
    h.command? service = first.command? service := by
  rw [Host.command?_eq, Host.command?_eq, hd.answers.command? hwords]

namespace Kubelet

open ServiceManager Ignition

/-- The service, whose name has to be a text, is looked up, and stopped if it exists; gives whether
it does. -/
def hold (n : Node) : NodeStep Bool := do
  n.requireName
  let exists? ← n.services.exists? n.serviceName
  if exists? then n.services.stop n.serviceName
  return exists?

/-- The files are put in place; gives the start command for the flags that come with them. -/
def ready (n : Node) (ignition kubelet : Text) : NodeStep Text := do
  installFiles n ignition kubelet
  NodeStep.ofExcept ((command n (← get).kubeletFlags).mapError .kind)

/-- The service is given its start command, or made with it, and started. -/
def register (n : Node) (exists? : Bool) (startCommand : Text) : NodeStep Unit := do
  if exists? then n.services.setStartCommand n.serviceName startCommand
  else n.services.create n.serviceName startCommand (some displayName) (some description)
  n.services.start n.serviceName
  NodeStep.log .info
    (text "Kubelet service " ++ n.serviceName ++ text " configured with: " ++ startCommand)

/-- What is done with inputs that are files. -/
def replace (n : Node) (ignition kubelet : Text) : NodeStep Unit := do
  let exists? ← hold n
  let startCommand ← ready n ignition kubelet
  register n exists? startCommand

theorem install_eq (n : Node) :
    install n = checkInputs n >>= fun inputs => replace n inputs.1 inputs.2 := by
  unfold install replace hold ready
  refine bind_congr fun inputs => ?_
  obtain ⟨ignition, kubelet⟩ := inputs
  dsimp only
  rw [bind_assoc]
  refine bind_congr fun _ => ?_
  rw [bind_assoc]
  refine bind_congr fun exists? => ?_
  cases exists? with
  | true =>
    simp only [if_true, bind_assoc, pure_bind]
    rfl
  | false =>
    simp only [bind_assoc]
    rfl

/-! ## What the parts keep -/

section Keeping

variable {n : Node} {made written : List Text → Prop} {R : NodeState → Prop}
  {F : FileFault → Prop} {G : Failure → Prop} {P : Text → Prop}

/-- Holding the service keeps what the manager keeps. -/
theorem keeps_hold (h : ∀ s : NodeState, Manages n.services P (fun host => R { s with host }) G)
    (hname : P n.serviceName) (hnamed : ¬ n.Named → G (.kind .unusable)) :
    Keeps R (hold n) (fun _ => True) G := by
  obtain ⟨-, hrequire⟩ | ⟨hnot, hrequire⟩ := n.requireName_cases
  · rw [hold, hrequire]
    refine keeps_then (keeps_ofHost fun s => keeps_exists? (h s) hname) fun exists? => ?_
    cases exists? with
    | false => exact keeps_pure _ trivial
    | true =>
      exact keeps_then (keeps_ofHost fun s => keeps_stop (h s) hname) fun _ =>
        keeps_pure _ trivial
  · rw [hold, hrequire]
    exact keeps_throw _ (hnamed hnot)

/-- So does giving the service its start command and starting it. -/
theorem keeps_register (h : ∀ s : NodeState, Manages n.services P (fun host => R { s with host }) G)
    (hname : P n.serviceName) (hdisplay : P displayName) (hdescription : P description)
    (exists? : Bool) {startCommand : Text} (hcommand : P startCommand) :
    Keeps R (register n exists? startCommand) (fun _ => True) G := by
  have hstart : Keeps R
      (do
        n.services.start n.serviceName
        NodeStep.log .info
          (text "Kubelet service " ++ n.serviceName ++ text " configured with: " ++ startCommand) :
        NodeStep Unit) (fun _ => True) G :=
    keeps_then (keeps_ofHost fun s => keeps_start (h s) hname) fun _ =>
      keeps_nodeLog (fun s level message hs => (h s).log s.host level message hs) _ _
  cases exists? with
  | false =>
    exact keeps_then (keeps_ofHost fun s =>
      keeps_create (h s) hname hcommand hdisplay hdescription) fun _ => hstart
  | true =>
    exact keeps_then (keeps_ofHost fun s => keeps_setStartCommand (h s) hname hcommand)
      fun _ => hstart

/-- The failures of putting the files in place that come of operations on files. -/
structure CoversFiles (G : Failure → Prop) (F : FileFault → Prop) : Prop where
  directory : ∀ path fault, F fault →
    G (Failure.ofFileFault (.directoryCreation path false) fault)
  copy : ∀ source destination fault, F fault →
    G (Failure.ofFileFault (fun cause => .copy (.failed source destination cause)) fault)
  read : ∀ path fault, F fault →
    G (Failure.ofFileFault (fun cause => .argument (.unreadableIgnitionFile path cause)) fault)

theorem coversFiles_any (F : FileFault → Prop) : CoversFiles (fun _ => True) F :=
  ⟨fun _ _ _ => trivial, fun _ _ _ _ => trivial, fun _ _ _ => trivial⟩

theorem keeps_ensureDirectory (h : Endures made written R F) (hG : CoversFiles G F) {path : Text}
    (hpath : ∀ front, front <+: path → FileTree.Taken F front)
    (hplaces : ∀ place, Path.Leads path place → made place) :
    Keeps R (ensureDirectory path) (fun _ => True) G :=
  keeps_operation (fun s => FileTree.keeps_makeDirectories (h s) _ hpath hplaces)
    (hG.directory path)

/-- What putting the files in place is about: the paths that it makes and writes, and those that it
reads. -/
structure Located (made written : List Text → Prop) (F : FileFault → Prop) (n : Node)
    (ignition kubelet : Text) : Prop where
  directory : ∀ front, front <+: n.layout.installDirectory → FileTree.Taken F front
  logDirectory : ∀ front, front <+: n.layout.logDirectory → FileTree.Taken F front
  made : ∀ place, Path.Leads n.layout.installDirectory place ∨
    Path.Leads n.layout.logDirectory place → made place
  program : FileTree.Taken F (n.layout.file programName)
  written : written (Path.reached (n.layout.file programName))
  ignition : FileTree.Taken F ignition
  kubelet : FileTree.Taken F kubelet

/-- Putting the files in place keeps what making directories, copying, and walking through the
payload keep. -/
theorem keeps_installFiles {ignition kubelet : Text} (h : Endures made written R F)
    (hG : CoversFiles G F) (hplaces : Located made written F n ignition kubelet)
    (hwalk : ∀ contents, (∃ s, R s ∧ s.host.files.read ignition = .ok contents) →
      Keeps R (walk n contents defaultRules) (fun _ => True) G) :
    Keeps R (installFiles n ignition kubelet) (fun _ => True) G := by
  refine keeps_then (keeps_ensureDirectory h hG hplaces.directory
    fun place hplace => hplaces.made place (.inl hplace)) fun _ => ?_
  refine keeps_then (keeps_ensureDirectory h hG hplaces.logDirectory
    fun place hplace => hplaces.made place (.inr hplace)) fun _ => ?_
  refine keeps_then (keeps_operation (fun s => FileTree.keeps_copy (h s) hplaces.kubelet
    hplaces.program hplaces.written) (hG.copy _ _)) fun _ => ?_
  refine keeps_bind (keeps_operation (fun s => FileTree.keeps_ask
    (p := fun contents => ∃ s, R s ∧ s.host.files.read ignition = .ok contents) (h s)
      fun t ht => ?_) (hG.read _)) hwalk
  exact (FileTree.yields_read (h s) hplaces.ignition t).known.mono
    (fun contents hread => ⟨_, ht, hread.1⟩) fun _ hfault => hfault

/-- The start command is read off the flags. -/
theorem keeps_ready {ignition kubelet : Text}
    (hfiles : Keeps R (installFiles n ignition kubelet) (fun _ => True) G)
    (hcommand : ∀ s, R s → Yields P G ((command n s.kubeletFlags).mapError .kind)) :
    Keeps R (ready n ignition kubelet) P G :=
  keeps_then hfiles fun _ => keeps_bind keeps_get fun s hs =>
    (keeps_ofExcept (hcommand s hs)).weaken (fun _ h => h.2) fun _ h => h

end Keeping

/-- Nothing is said while the files are put in place. -/
theorem bears_told (n : Node) (first : Host) (d : Dialogue) (made written : List Text → Prop) :
    Bears n (fun _ => True) made written (fun s => first.Told d s.host) fun _ => True where
  files := endures_of_forall_files fun _ _ h => ⟨h.toSaid.kept rfl rfl, h.responses, h.clock⟩
  logs s level message h := by
    obtain ⟨hcalls, hcontrol, hresponses, hclock⟩ := s.host.logged_kept level message
    exact ⟨h.toSaid.kept hcalls hcontrol, hresponses.trans h.responses, hclock.trans h.clock⟩
  flag _ _ _ _ h := h
  declared _ _ _ h := h

/-- Everything may be made and written. -/
theorem located_any (n : Node) (ignition kubelet : Text) :
    Located (fun _ => True) (fun _ => True) (fun _ => True) n ignition kubelet :=
  ⟨fun _ _ => yields_trivial _, fun _ _ => yields_trivial _, fun _ _ => trivial, yields_trivial _,
    trivial, yields_trivial _, yields_trivial _⟩

theorem silent_ready (n : Node) (ignition kubelet : Text) (first : Host) (d : Dialogue) :
    Keeps (fun s => first.Told d s.host) (ready n ignition kubelet) (fun _ => True)
      fun _ => True := by
  have hbears := bears_told n first d (fun _ => True) fun _ => True
  refine keeps_ready (keeps_installFiles hbears.files (coversFiles_any _)
    (located_any n ignition kubelet) fun contents _ => ?_) fun _ _ => yields_trivial _
  exact keeps_walk hbears (covers_any _) (fun _ => trivial) (readable_any _ _)
    (fun _ _ _ _ => trivial) fun _ _ _ _ _ _ _ _ _ _ _ => ⟨trivial, yields_trivial _⟩

/-! ## What is said -/

/-- What is said when the first part comes to its end: the service does not exist, or it is stopped
and the last query reports that it has stopped. -/
inductive Held (n : Node) : Bool → Dialogue → Prop
  | absent (output : Text) :
    Held n false [(lookUpWords n.serviceName, .finished doesNotExist output)]
  | stopped {command : Text} {lookUp stop : ProcessResult} {asked : List ProcessResult}
    (hcommand : lookUp.Prints command) (hstop : stop.Accepted [notActive])
    (hasked : asked.length ≤ n.services.limit) (hstopped : Reaches ServiceState.stopped asked) :
    Held n true ((lookUpWords n.serviceName, lookUp) :: (stopWords n.serviceName, stop) ::
      queries n.serviceName asked)

/-- What is said when the first part fails: nothing to a service without a name, and otherwise no
query reports that the service has stopped. -/
inductive Unheld (n : Node) : Dialogue → Prop
  | unnamed (hname : ¬ n.Named) : Unheld n []
  | lookingUp (lookUp : ProcessResult) : Unheld n [(lookUpWords n.serviceName, lookUp)]
  | stopping {command : Text} {lookUp : ProcessResult} (stop : ProcessResult)
    {asked : List ProcessResult} (hcommand : lookUp.Prints command)
    (hasked : asked.length ≤ n.services.limit)
    (hnone : ∀ result ∈ asked, ¬ result.Reports ServiceState.stopped) :
    Unheld n ((lookUpWords n.serviceName, lookUp) :: (stopWords n.serviceName, stop) ::
      queries n.serviceName asked)

/-- The service has the start command: it was changed, or made and described, and both went
through. -/
inductive Given (n : Node) (command : Text) : Bool → Dialogue → Prop
  | changed (output : Text) :
    Given n command true [(changeWords n.serviceName command, .finished 0 output)]
  | made (output output' : Text) :
    Given n command false [(createWords n.serviceName command displayName, .finished 0 output),
      (descriptionWords n.serviceName description, .finished 0 output')]

/-- What is said when the third part comes to its end: behind the start the last query reports that
the service runs. -/
def Registered (n : Node) (command : Text) (exists? : Bool) (d : Dialogue) : Prop :=
  ∃ given start asked, Given n command exists? given ∧ start.Accepted [alreadyRunning] ∧
    asked.length ≤ n.services.limit ∧ Reaches ServiceState.running asked ∧
      d = given ++ (startWords n.serviceName, start) :: queries n.serviceName asked

/-- What is said when the third part fails. -/
inductive Unregistered (n : Node) (command : Text) : Bool → Dialogue → Prop
  | changing (result : ProcessResult) :
    Unregistered n command true [(changeWords n.serviceName command, result)]
  | making (result : ProcessResult) :
    Unregistered n command false [(createWords n.serviceName command displayName, result)]
  | describing (output : Text) (result : ProcessResult) :
    Unregistered n command false
      [(createWords n.serviceName command displayName, .finished 0 output),
        (descriptionWords n.serviceName description, result)]
  | starting {exists? : Bool} {given : Dialogue} (start : ProcessResult)
    {asked : List ProcessResult} (hgiven : Given n command exists? given)
    (hasked : asked.length ≤ n.services.limit)
    (hnone : ∀ result ∈ asked, ¬ result.Reports ServiceState.running) :
    Unregistered n command exists?
      (given ++ (startWords n.serviceName, start) :: queries n.serviceName asked)

section Dialogues

variable {n : Node} {d : Dialogue}

theorem keepsCommands_queries (name : Text) (results : List ProcessResult) :
    ∀ e ∈ queries name results, KeepsCommands e.1 := by
  intro e he
  obtain ⟨result, -, rfl⟩ := List.mem_map.mp he
  exact (by decide : some (text "query") ≠ some (text "create") ∧
    some (text "query") ≠ some (text "config"))

theorem keepsCommands_lookUp (name : Text) : KeepsCommands (lookUpWords name) :=
  (by decide : some (text "qc") ≠ some (text "create") ∧ some (text "qc") ≠ some (text "config"))

theorem keepsCommands_stop (name : Text) : KeepsCommands (stopWords name) :=
  (by decide :
    some (text "stop") ≠ some (text "create") ∧ some (text "stop") ≠ some (text "config"))

theorem Held.keepsCommands {exists? : Bool} (h : Held n exists? d) :
    ∀ e ∈ d, KeepsCommands e.1 := by
  cases h with
  | absent output => exact List.forall_mem_singleton.mpr (keepsCommands_lookUp _)
  | stopped _ _ _ _ =>
    exact List.forall_mem_cons.mpr ⟨keepsCommands_lookUp _,
      List.forall_mem_cons.mpr ⟨keepsCommands_stop _, keepsCommands_queries _ _⟩⟩

theorem Unheld.keepsCommands (h : Unheld n d) : ∀ e ∈ d, KeepsCommands e.1 := by
  cases h with
  | unnamed _ => exact List.forall_mem_nil _
  | lookingUp lookUp => exact List.forall_mem_singleton.mpr (keepsCommands_lookUp _)
  | stopping _ _ _ _ =>
    exact List.forall_mem_cons.mpr ⟨keepsCommands_lookUp _,
      List.forall_mem_cons.mpr ⟨keepsCommands_stop _, keepsCommands_queries _ _⟩⟩

end Dialogues

theorem tells_hold (n : Node) :
    Tells NodeState.host (hold n) (fun exists? d => Held n exists? d) (Unheld n) := by
  have hm : n.services.connected = true := rfl
  obtain ⟨-, hrequire⟩ | ⟨hnot, hrequire⟩ := n.requireName_cases
  case inr =>
    rw [hold, hrequire]
    exact tells_throw _ (.unnamed hnot)
  rw [hold, hrequire]
  refine tells_bind (tells_ofHost (tells_exists? hm)) ?_ ?_
  · rintro _ ⟨lookUp, rfl⟩
    exact .lookingUp lookUp
  rintro exists? _ ⟨lookUp, rfl, hprints, hnone⟩
  cases exists? with
  | false =>
    obtain ⟨output, rfl⟩ := hnone rfl
    exact tells_pure _ (.absent output)
  | true =>
    obtain ⟨command, hcommand⟩ := hprints rfl
    refine tells_bind (tells_ofHost (tells_stop hm)) ?_ ?_
    · rintro _ ⟨stop, asked, rfl, hasked, hnone⟩
      exact .stopping stop hcommand hasked hnone
    · rintro _ _ ⟨stop, asked, rfl, hstop, hasked, hstopped⟩
      refine tells_pure _ ?_
      rw [List.append_nil]
      exact .stopped hcommand hstop hasked hstopped

theorem tells_register (n : Node) (exists? : Bool) (command : Text) :
    Tells NodeState.host (register n exists? command)
      (fun _ d => Registered n command exists? d) (Unregistered n command exists?) := by
  have hm : n.services.connected = true := rfl
  have hstart : ∀ given, Given n command exists? given →
      Tells NodeState.host
        (do
          n.services.start n.serviceName
          NodeStep.log .info
            (text "Kubelet service " ++ n.serviceName ++ text " configured with: " ++ command) :
          NodeStep Unit)
        (fun _ d => Registered n command exists? (given ++ d))
        fun d => Unregistered n command exists? (given ++ d) := by
    intro given hgiven
    refine tells_bind (tells_ofHost (tells_start hm)) ?_ ?_
    · rintro _ ⟨start, asked, rfl, hasked, hnone⟩
      exact .starting start hgiven hasked hnone
    · rintro _ _ ⟨start, asked, rfl, hstart, hasked, hrunning⟩
      refine (tells_ofHost (tells_log (E := fun _ => False) _ _)).weaken ?_ nofun
      rintro _ _ rfl
      rw [List.append_nil]
      exact ⟨given, start, asked, hgiven, hstart, hasked, hrunning, rfl⟩
  unfold register
  cases exists? with
  | true =>
    refine tells_bind (tells_ofHost (tells_setStartCommand hm command)) ?_ ?_
    · rintro _ ⟨result, rfl⟩
      exact .changing result
    · rintro _ _ ⟨output, rfl⟩
      exact hstart _ (.changed output)
  | false =>
    refine tells_bind (tells_ofHost (tells_create hm command (by decide) (by decide))) ?_ ?_
    · rintro _ (⟨result, rfl⟩ | ⟨output, result, rfl⟩)
      · exact .making result
      · exact .describing output result
    · rintro _ _ ⟨output, output', rfl⟩
      exact hstart _ (.made output output')

/-! ## How far a run comes -/

/-- A node that is as another was, but for what it said and what it logged. -/
abbrev Unchanged (first s : NodeState) : Prop :=
  Walked first [] first.kubeletFlags first.unitFlags s

/-- How far a run with inputs that are files comes, with what it says, what it changes and what it
comes to. -/
inductive Run (n : Node) (ignition kubelet : Text) (s : NodeState) :
    Except Failure Unit × NodeState → Prop
  /-- The service is not known not to run. No file has changed. -/
  | unheld {failure : Failure} {last : NodeState} {d : Dialogue} (hd : Unheld n d)
    (hsaid : s.host.Told d last.host) (hfiles : Unchanged s last)
    (hservices : ∀ service, last.host.command? service = s.host.command? service) :
    Run n ignition kubelet s (.error failure, last)
  /-- The files are not in place, or there is no start command. No service has changed. -/
  | unready {exists? : Bool} {failure : Failure} {held last : NodeState} {d : Dialogue}
    (hd : Held n exists? d) (hheld : s.host.Told d held.host) (hfiles : Unchanged s held)
    (hready : (ready n ignition kubelet).run.run held = (.error failure, last))
    (hplaced : s.host.Told d last.host)
    (hservices : ∀ service, last.host.command? service = s.host.command? service) :
    Run n ignition kubelet s (.error failure, last)
  /-- The service does not have the start command, or it is not known to run. -/
  | unregistered {exists? : Bool} {startCommand : Text} {failure : Failure}
    {held placed last : NodeState} {d e : Dialogue}
    (hd : Held n exists? d) (hheld : s.host.Told d held.host) (hfiles : Unchanged s held)
    (hready : (ready n ignition kubelet).run.run held = (.ok startCommand, placed))
    (hplaced : s.host.Told d placed.host)
    (hcommand : command n placed.kubeletFlags = .ok startCommand)
    (he : Unregistered n startCommand exists? e) (hsaid : placed.host.Told e last.host) :
    Run n ignition kubelet s (.error failure, last)
  /-- The service has the start command and runs. -/
  | registered {exists? : Bool} {startCommand : Text} {held placed last : NodeState}
    {d e : Dialogue} (hd : Held n exists? d) (hheld : s.host.Told d held.host)
    (hfiles : Unchanged s held)
    (hready : (ready n ignition kubelet).run.run held = (.ok startCommand, placed))
    (hplaced : s.host.Told d placed.host)
    (hcommand : command n placed.kubeletFlags = .ok startCommand)
    (he : Registered n startCommand exists? e) (hsaid : placed.host.Told e last.host) :
    Run n ignition kubelet s (.ok (), last)

/-- The inputs are files. -/
structure Inputs (n : Node) (files : FileTree) (ignition kubelet : Text) : Prop where
  ignitionFile : n.ignitionFile = some ignition
  kubeletPath : n.kubeletPath = some kubelet
  ignition : files.isFile ignition = true
  kubelet : files.isFile kubelet = true

variable {n : Node} {ignition kubelet : Text} {s : NodeState}

/-- Checking changes nothing. -/
theorem run_checkInputs (n : Node) (s : NodeState) :
    (checkInputs n).run.run s =
      match n.ignitionFile.filter s.host.files.isFile, n.kubeletPath.filter s.host.files.isFile with
      | none, _ => (.error (.argument (.noIgnitionFile n.ignitionFile)), s)
      | some _, none => (.error (.argument (.noKubelet n.kubeletPath)), s)
      | some ignition, some kubelet => (.ok (ignition, kubelet), s) := by
  unfold checkInputs
  rw [run_get_bind]
  dsimp only
  cases n.ignitionFile.filter s.host.files.isFile with
  | none => rfl
  | some ignition => cases n.kubeletPath.filter s.host.files.isFile <;> rfl

theorem Inputs.run_install (h : Inputs n s.host.files ignition kubelet) :
    (install n).run.run s = (replace n ignition kubelet).run.run s := by
  have hignition : n.ignitionFile.filter s.host.files.isFile = some ignition :=
    Option.filter_eq_some_iff.mpr ⟨h.ignitionFile, h.ignition⟩
  have hkubelet : n.kubeletPath.filter s.host.files.isFile = some kubelet :=
    Option.filter_eq_some_iff.mpr ⟨h.kubeletPath, h.kubelet⟩
  rw [install_eq, run_bind, run_checkInputs, hignition, hkubelet]

/-- Without inputs that are files a run fails, and nothing has changed. -/
theorem run_install_of_not_inputs
    (h : ∀ ignition kubelet, ¬ Inputs n s.host.files ignition kubelet) :
    ∃ fault, (install n).run.run s = (.error (.argument fault), s) := by
  rw [install_eq, run_bind, run_checkInputs]
  cases hignition : n.ignitionFile.filter s.host.files.isFile with
  | none => exact ⟨_, rfl⟩
  | some ignition =>
    cases hkubelet : n.kubeletPath.filter s.host.files.isFile with
    | none => exact ⟨_, rfl⟩
    | some kubelet =>
      obtain ⟨hfile, hisFile⟩ := Option.filter_eq_some_iff.mp hignition
      obtain ⟨hpath, hisFile'⟩ := Option.filter_eq_some_iff.mp hkubelet
      exact absurd ⟨hfile, hpath, hisFile, hisFile'⟩ (h ignition kubelet)

/-- The start command is the one for the flags behind the payload. -/
theorem command_of_ready {held placed : NodeState} {startCommand : Text}
    (h : (ready n ignition kubelet).run.run held = (.ok startCommand, placed)) :
    command n placed.kubeletFlags = .ok startCommand := by
  have hready : Spec (fun _ => True) (ready n ignition kubelet)
      (fun startCommand s => command n s.kubeletFlags = .ok startCommand) fun _ => True := by
    refine spec_bind (spec_any _) fun _ => spec_bind spec_get fun s => ?_
    refine (spec_ofExcept _).weaken (fun _ h => h) ?_ fun _ h => h
    rintro startCommand _ ⟨hcommand, rfl, -⟩
    exact mapError_eq_ok.mp hcommand
  exact hready.ended trivial h

theorem manages_unchanged (n : Node) (first s : NodeState) :
    Manages n.services (fun _ => True) (fun host => Unchanged first { s with host })
      fun _ => True :=
  manages_any (fun _ level message h => h.log level message)
    (fun _ _ h => ⟨h.journal, h.files, h.kubeletFlags, h.unitFlags⟩)
    fun _ _ h => ⟨h.journal, h.files, h.kubeletFlags, h.unitFlags⟩

/-- Holding the service changes nothing but what was said and logged. -/
theorem unchanged_hold (n : Node) (s : NodeState) : Unchanged s ((hold n).run.run s).2 :=
  (keeps_hold (manages_unchanged n s) trivial (fun _ => trivial) s (Walked.refl s)).1

/-- A run with inputs that are files comes to one of the four ends. -/
theorem replace_run (n : Node) (ignition kubelet : Text) (s : NodeState) :
    Run n ignition kubelet s ((replace n ignition kubelet).run.run s) := by
  have hholds := tells_hold n s
  have hunchanged := unchanged_hold n s
  unfold replace
  rw [run_bind]
  generalize (hold n).run.run s = ended at hholds hunchanged ⊢
  obtain ⟨result, held⟩ := ended
  cases result with
  | error failure =>
    obtain ⟨d, hd, hunheld⟩ := hholds
    exact .unheld hunheld hd hunchanged (hd.toSaid.command? hunheld.keepsCommands)
  | ok exists? =>
  obtain ⟨d, hd, hheld⟩ := hholds
  have hsilent := (silent_ready n ignition kubelet s.host d held hd).1
  dsimp only
  rw [run_bind]
  cases hready : (ready n ignition kubelet).run.run held with
  | mk result placed =>
  rw [hready] at hsilent
  cases result with
  | error failure =>
    exact .unready hheld hd hunchanged hready hsilent (hsilent.toSaid.command? hheld.keepsCommands)
  | ok startCommand =>
  have hcommand := command_of_ready hready
  have hregisters := tells_register n exists? startCommand placed
  dsimp only
  generalize (register n exists? startCommand).run.run placed = ended at hregisters ⊢
  obtain ⟨result, last⟩ := ended
  cases result with
  | error failure =>
    obtain ⟨e, he, hunregistered⟩ := hregisters
    exact .unregistered hheld hd hunchanged hready hsilent hcommand hunregistered he
  | ok _ =>
    obtain ⟨e, he, hregistered⟩ := hregisters
    exact .registered hheld hd hunchanged hready hsilent hcommand hregistered he

/-- Installing the kubelet, whatever the service control program answers. Without inputs that are
files the run fails with a failure of its arguments, and nothing at all has changed. With them the
run comes to one of four ends: files change only once the service is known not to exist or to have
stopped; services change only when all files are in place and the start command is the one for the
flags that came with the payload; the service is started only with this command; and the run
succeeds only if the last query reports that the service runs.

What lies between the two dialogues is `ready`: the directories are made, the program is copied, the
payload is read and walked through (`Ignition.walk` with the default rules), and the start command
is `command` for the flags that the walk leaves. So a run that fails in any of these ends as
`Run.unready`. Paths are relative to the working directory, and an absolute one names nothing. -/
theorem install_order (n : Node) (s : NodeState) :
    ((∀ ignition kubelet, ¬ Inputs n s.host.files ignition kubelet) →
      ∃ fault, (install n).run.run s = (.error (.argument fault), s)) ∧
    ∀ ignition kubelet, Inputs n s.host.files ignition kubelet →
      Run n ignition kubelet s ((install n).run.run s) :=
  ⟨run_install_of_not_inputs, fun ignition kubelet h =>
    h.run_install ▸ replace_run n ignition kubelet s⟩

/-! ## Three brief runs -/

/-- A node to be installed below `k` from the payload `i` and the program `b`. -/
def briefNode : Node where
  settings := Settings.defaults
  layout := ⟨text "k"⟩
  ignitionFile := some (text "i")
  kubeletPath := some (text "b")
  cniPath := none
  cniConfig := none

/-- A payload without units and files, and a program. -/
def briefFiles : FileTree :=
  ⟨[([text "i"], .file [0x7b, 0x7d]), ([text "b"], .file [1])], []⟩

def briefHost : Host := { Host.empty with files := briefFiles }

/-- A host whose kubelet runs, with a payload that is no document. -/
def brokenHost : Host :=
  { Host.empty with
    files := ⟨[([text "i"], .file [0x5b]), ([text "b"], .file [1])], []⟩
    control := .table
      { ServiceTable.empty with
        services := [(text "kubelet", ⟨text "c", ServiceState.running, [], []⟩)] } }

/-- The service is made and runs. With a payload that is no document a service that was stopped for
it keeps its start command and is not started. Without the payload nothing changes. -/
theorem install_order_brief :
    (∃ last, (install briefNode).run.run ⟨briefHost, [], []⟩ = (.ok (), last) ∧
      Run briefNode (text "i") (text "b") ⟨briefHost, [], []⟩ (.ok (), last)) ∧
    (∃ failure last, (install briefNode).run.run ⟨brokenHost, [], []⟩ = (.error failure, last) ∧
      Run briefNode (text "i") (text "b") ⟨brokenHost, [], []⟩ (.error failure, last) ∧
      last.host.calls = [lookUpWords (text "kubelet"), stopWords (text "kubelet"),
        queryWords (text "kubelet")].map (program :: ·) ∧
      last.host.command? (text "kubelet") = some (text "c")) ∧
    ∃ fault, (install briefNode).run.run ⟨{ briefHost with files := FileTree.empty }, [], []⟩ =
      (.error (.argument fault), ⟨{ briefHost with files := FileTree.empty }, [], []⟩) := by
  refine ⟨?_, ?_, ?_⟩
  · have hinputs : Inputs briefNode briefFiles (text "i") (text "b") :=
      ⟨rfl, rfl, by decide, by decide⟩
    have hisOk : ((install briefNode).run.run ⟨briefHost, [], []⟩).1.isOk = true := by
      decide +kernel
    obtain ⟨last, hran⟩ := exists_run_of_isOk hisOk
    have hrun := (install_order briefNode ⟨briefHost, [], []⟩).2 _ _ hinputs
    exact ⟨last, hran, hran ▸ hrun⟩
  · have hinputs : Inputs briefNode brokenHost.files (text "i") (text "b") :=
      ⟨rfl, rfl, by decide, by decide⟩
    have hfails : ((install briefNode).run.run ⟨brokenHost, [], []⟩).1.isOk = false := by
      decide +kernel
    have hrun := (install_order briefNode ⟨brokenHost, [], []⟩).2 _ _ hinputs
    have hlast : ((install briefNode).run.run ⟨brokenHost, [], []⟩).2.host.calls =
        [lookUpWords (text "kubelet"), stopWords (text "kubelet"),
          queryWords (text "kubelet")].map (program :: ·) ∧
        ((install briefNode).run.run ⟨brokenHost, [], []⟩).2.host.command? (text "kubelet") =
          some (text "c") := by
      decide +kernel
    generalize (install briefNode).run.run ⟨brokenHost, [], []⟩ = ended at hfails hrun hlast ⊢
    obtain ⟨result, last⟩ := ended
    cases result with
    | ok _ => exact nomatch hfails
    | error failure => exact ⟨failure, last, rfl, hrun, hlast⟩
  · refine (install_order briefNode _).1 ?_
    rintro ignition kubelet ⟨hignition, -, hfile, -⟩
    obtain rfl : text "i" = ignition := Option.some.inj hignition
    exact absurd hfile (by decide)

end Kubelet

end NodeBootstrap
