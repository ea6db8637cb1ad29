import NodeBootstrap.Proofs.Ignition.Kinds
import NodeBootstrap.Proofs.Node.KubeletOrder
import NodeBootstrap.Proofs.Program

/-!
# The exit status of an installation

With settings that can be used and inputs that are files, a run that installs the kubelet ends with
the status 0 or 1, whatever the service control program answers and whatever file operation the host
refuses, as long as the values of the payload are of the kinds that are foreseen and the flags that
it carries over can be part of a command (`Program.initializeKubelet_status`). Of an object where
another value stands, the program asks what it does not have; a NUL in a flag comes to the start
command of the service, and the system does not take that. In both cases the run ends without a
status (`Program.not_initializeKubelet_status`).

A document may be nested as deeply as it likes here. How deep a nesting an interpreter reads before
its stack is used up is left out.
-/

set_option autoImplicit false

namespace NodeBootstrap

open FileTree Ignition

/-! ## Values that can be words -/

/-- Whether a value is a text that can be a word of a command. -/
def Value.isWord (launch : Launch) : Value → Bool
  | .text t => launch.takes t
  | _ => false

/-- Flags that can be part of a command. -/
def Flags.Words (launch : Launch) (flags : Flags) : Prop :=
  ∀ e ∈ flags, launch.takes e.1 = true ∧ e.2.isWord launch = true

/-- A document whose flags that are carried over can be part of a command. -/
def Ignition.CarriesWords (launch : Launch) (document : Json) : Prop :=
  ∀ flags, declaredIn document = .ok flags →
    Flags.Words launch (carriedFlags (OrderedMap.ofList flags))

instance (launch : Launch) : DecidablePred (Ignition.CarriesWords launch) := fun document =>
  inferInstanceAs (Decidable (∀ flags, declaredIn document = .ok flags →
    ∀ e ∈ carriedFlags (OrderedMap.ofList flags),
      launch.takes e.1 = true ∧ e.2.isWord launch = true))

section Words

variable {launch : Launch} {flags entries : Flags} {name : Text} {value : Value}

theorem Value.exists_of_isWord (h : value.isWord launch = true) :
    ∃ t, value = .text t ∧ launch.takes t = true := by
  cases value with
  | text t => exact ⟨t, rfl, h⟩
  | _ => exact nomatch h

theorem Launch.takes_of_usable {path : Text} (h : usable path = .ok ()) :
    launch.takes path = true := launch.takes_of_spellable (usable_eq_ok.mp h)

theorem Launch.takes_literal (word : Text) (h : word.all CodePoint.isSpellable = true) :
    launch.takes word = true := launch.takes_of_spellable (List.all_eq_true.mp h)

theorem Flags.Words.set (h : flags.Words launch) (hname : launch.takes name = true)
    (hvalue : value.isWord launch = true) :
    Flags.Words launch (OrderedMap.set flags name value) := by
  intro e he
  rcases OrderedMap.mem_set he with rfl | he
  · exact ⟨hname, hvalue⟩
  · exact h e he

theorem Flags.Words.merge (h : flags.Words launch) (hentries : entries.Words launch) :
    Flags.Words launch (OrderedMap.merge flags entries) := by
  unfold OrderedMap.merge
  induction entries generalizing flags with
  | nil => exact h
  | cons entry entries ih =>
    obtain ⟨⟨hname, hvalue⟩, hentries⟩ := List.forall_mem_cons.mp hentries
    exact ih (h.set hname hvalue) hentries

end Words

/-! ## Hosts that work -/

/-- A tree with a payload, on a host that works. -/
structure FileTree.Offers (path : Text) (contents : Bytes) (t : FileTree) : Prop where
  calm : t.Calm
  payload : t.status path = .ok (.file contents)

/-- A host that works, with a payload that is not its log file. Commands break off on it only for
their words, and pauses for their lengths. -/
structure Host.Offers (path : Text) (contents : Bytes) (launch : Launch) (clock : Clock)
    (h : Host) : Prop where
  files : h.files.Offers path contents
  log : ∀ file, h.journal.file = some file → Path.reached file ≠ Path.reached path
  control : h.control.Calm
  launch : h.control.launch = launch
  clock : h.clock = clock
  responses : .broken ∉ h.responses

/-- A node on such a host, with flags that can be part of a command. -/
structure NodeState.Offers (path : Text) (contents : Bytes) (launch : Launch) (clock : Clock)
    (s : NodeState) : Prop where
  host : s.host.Offers path contents launch clock
  flags : s.kubeletFlags.Words launch

variable {path : Text} {contents : Bytes} {launch : Launch} {clock : Clock}

theorem tolerates_offers :
    Tolerates (fun _ => True) (· ≠ Path.reached path) (FileTree.Offers path contents)
      FileFault.Ordinary where
  passes t ht := ⟨tolerates_calm.passes t ht.calm, steady_status path _ t _ ht.payload⟩
  makes _ _ _ ht _ _ hat := ⟨ht.calm, status_put_new hat ht.payload⟩
  writes _ _ _ _ ht hwritable hplace :=
    ⟨ht.calm, status_put_ne hwritable (Ne.symm hplace) ht.payload _⟩
  troubles t trouble ht := tolerates_calm.troubles t trouble ht.calm
  refused _ _ := trivial
  sameFile _ _ := trivial

/-- A line is logged to another file than the payload. -/
theorem Host.Offers.logged {h : Host} (hh : h.Offers path contents launch clock)
    (level : LogLevel) (message : Text) :
    (h.logged level message).Offers path contents launch clock := by
  obtain ⟨-, hcontrol, hresponses, hclock⟩ := h.logged_kept level message
  refine ⟨logged_tolerated tolerates_offers hh.log hh.files level message, ?_, ?_, ?_,
    hclock.trans hh.clock, ?_⟩
  · rw [h.logged_file]
    exact hh.log
  · rw [hcontrol]
    exact hh.control
  · rw [hcontrol]
    exact hh.launch
  · rw [hresponses]
    exact hh.responses

/-- On a host that works a command of words that are taken does not break off. -/
theorem manages_offers {m : ServiceManager} (htries : m.tries.asCount? ≠ none)
    (hpause : clock.refusal? m.trySleep = none) (s : NodeState) :
    Manages m (launch.takes · = true)
      (fun host => NodeState.Offers path contents launch clock { s with host })
      Failure.Reported where
  log _ level message h := ⟨h.host.logged level message, h.flags⟩
  pause _ _ h := ⟨{ h.host with }, h.flags⟩
  run _ words h :=
    have ⟨hcalm, hlaunch, _⟩ := h.host.control.run words
    ⟨{ h.host with control := hcalm, launch := hlaunch.trans h.host.launch }, h.flags⟩
  vocabulary := ServiceManager.takes_vocabulary launch
  service _ := rfl
  broken _ words h hwords hbroken :=
    absurd hbroken ((h.host.control.run words).2.2 fun word hword => by
      rw [h.host.launch]
      exact hwords word hword)
  clock _ _ h hrefusal := by
    rw [h.host.clock, hpause] at hrefusal
    exact nomatch hrefusal
  tries hnone := absurd hnone htries

theorem bears_offers {n : Node}
    (hown : ∀ e ∈ ownFlags n, launch.takes e.1 = true ∧ launch.takes e.2 = true) :
    Bears n (fun declared => Flags.Words launch (carriedFlags declared)) (fun _ => True)
      (· ≠ Path.reached path) (NodeState.Offers path contents launch clock)
      FileFault.Ordinary where
  files _ := {
    passes := fun t h => ⟨{ h.host with files := tolerates_offers.passes t h.host.files }, h.flags⟩
    makes := fun t path place h hfound hmade hat =>
      ⟨{ h.host with files := tolerates_offers.makes t path place h.host.files hfound hmade hat },
        h.flags⟩
    writes := fun t path place bytes h hwritable hplace =>
      ⟨{ h.host with
          files := tolerates_offers.writes t path place bytes h.host.files hwritable hplace },
        h.flags⟩
    troubles := fun t trouble h => tolerates_offers.troubles t trouble h.host.files
    refused := fun _ _ => trivial
    sameFile := fun _ _ => trivial }
  logs _ level message h := ⟨h.host.logged level message, h.flags⟩
  flag _ _ _ hflag h := ⟨h.host, h.flags.set (hown _ hflag).1 (hown _ hflag).2⟩
  declared _ _ hdeclared h := ⟨h.host, h.flags.merge hdeclared⟩

/-! ## Installing the kubelet -/

namespace Kubelet

open ServiceManager

variable {n : Node} {ignition kubelet : Text}

theorem coversFiles_ordinary : CoversFiles Failure.Reported FileFault.Ordinary :=
  ⟨fun _ _ h => h.reported fun _ => rfl, fun _ _ _ h => h.reported fun _ => rfl,
    fun _ _ h => h.reported fun _ => rfl⟩

/-- What the commands for the service are made with can be part of them. -/
structure Commanding (launch : Launch) (n : Node) : Prop where
  directory : usable n.layout.installDirectory = .ok ()
  serviceName : n.settings.serviceName.isWord launch = true
  pauseImage : n.settings.pauseImage.isWord launch = true
  certificates : n.settings.certificateDirectory.isWord launch = true
  verbosity : launch.takes n.defaultVerbosity = true

theorem takes_file (husable : usable n.layout.installDirectory = .ok ()) (name : Text)
    (hname : name.all CodePoint.isSpellable = true) : launch.takes (n.layout.file name) = true :=
  Launch.takes_of_usable (usable_join husable (usable_eq_ok.mpr (List.all_eq_true.mp hname)))

/-- A flag of texts that are taken is taken. -/
theorem yields_renderFlag {F : KindFault → Prop} {name value : Text}
    (hname : launch.takes name = true) (hvalue : launch.takes value = true) :
    Yields (launch.takes · = true) F (renderFlag name (.text value)) := by
  have hdashes : launch.takes (text "--") = true := Launch.takes_literal _ (by decide)
  show Yields _ _ (if (value.isEmpty || value.any CodePoint.isBlank) = true then _ else _)
  split
  next =>
    have hopen : launch.takes (text "=\"") = true := Launch.takes_literal _ (by decide)
    have hclose : launch.takes (text "\"") = true := Launch.takes_literal _ (by decide)
    show launch.takes (text "--" ++ name ++ text "=\"" ++ value ++ text "\"") = true
    simp only [Launch.takes_append, hdashes, hname, hopen, hvalue, hclose, Bool.and_self]
  next =>
    have hequals : launch.takes (text "=") = true := Launch.takes_literal _ (by decide)
    show launch.takes (text "--" ++ name ++ text "=" ++ value) = true
    simp only [Launch.takes_append, hdashes, hname, hequals, hvalue, Bool.and_self]

theorem takes_quotedPath {path : Text} (h : launch.takes path = true) :
    launch.takes (quotedPath path) = true := by
  have hquote : launch.takes (text "\"") = true := Launch.takes_literal _ (by decide)
  unfold quotedPath
  split
  next => simp only [Launch.takes_append, hquote, h, Bool.and_self]
  next => exact h

/-- With flags that can be part of a command there is a start command, and it is taken. -/
theorem yields_command (h : Commanding launch n) {flags : Flags} (hflags : flags.Words launch) :
    Yields (launch.takes · = true) (fun _ => False) (command n flags) := by
  obtain ⟨pauseImage, hpause, hpauseTaken⟩ := Value.exists_of_isWord h.pauseImage
  obtain ⟨certificates, hcertificates, hcertificatesTaken⟩ :=
    Value.exists_of_isWord h.certificates
  have hblank : launch.takes (text " ") = true := Launch.takes_literal _ (by decide)
  have hcollected : Yields (launch.takes · = true) (fun _ => False) flags.render := by
    refine yields_bind (yields_mapM ?_) fun words hwords => Launch.takes_join hblank hwords
    rintro ⟨name, value⟩ he
    obtain ⟨hname, hvalue⟩ := hflags _ he
    obtain ⟨t, rfl, ht⟩ := Value.exists_of_isWord hvalue
    exact yields_renderFlag hname ht
  have hlog : launch.takes (Path.join n.layout.logDirectory (text "kubelet.log")) = true :=
    Launch.takes_of_usable (usable_join (usable_join h.directory (usable_eq_ok.mpr (by decide)))
      (usable_eq_ok.mpr (by decide)))
  have hend : ∀ words collected : List Text, (∀ word ∈ words, launch.takes word = true) →
      (∀ word ∈ collected, launch.takes word = true) →
        Yields (launch.takes · = true) (fun _ => False)
          (pure (Text.join (text " ") (words ++ collected)) : Except KindFault Text) :=
    fun _ _ hwords hcollected => Launch.takes_join hblank (List.forall_mem_append.mpr
      ⟨hwords, hcollected⟩)
  refine yields_bind (yields_mapM (p := (launch.takes · = true)) ?_) fun words hwords => ?_
  · -- a fixed word, or a flag with a path, with a setting or with a literal
    have hflag : ∀ name value : Text, name.all CodePoint.isSpellable = true →
        launch.takes value = true → Yields (launch.takes · = true) (fun _ => False)
          (renderFlag name (.text value)) :=
      fun name _ hname hvalue => yields_renderFlag (Launch.takes_literal name hname) hvalue
    rw [hpause, hcertificates]
    simp only [List.forall_mem_cons]
    exact ⟨takes_quotedPath (takes_file h.directory _ (by decide)),
      hflag _ _ (by decide) (takes_file h.directory _ (by decide)),
      hflag _ _ (by decide) (takes_file h.directory _ (by decide)),
      hflag _ _ (by decide) (takes_file h.directory _ (by decide)),
      hflag _ _ (by decide) hpauseTaken, hflag _ _ (by decide) hcertificatesTaken,
      Launch.takes_literal _ (by decide), Launch.takes_literal _ (by decide),
      hflag _ _ (by decide) hlog,
      hflag _ _ (by decide) (Launch.takes_literal _ (by decide)),
      hflag _ _ (by decide) (Launch.takes_literal _ (by decide)), List.forall_mem_nil _⟩
  · dsimp only
    split
    next => exact hend words [] hwords (List.forall_mem_nil _)
    next =>
      exact yields_bind hcollected fun _ hrendered =>
        hend words _ hwords (List.forall_mem_singleton.mpr hrendered)

/-- The names of the files that an installation writes. -/
def writtenNames : List Text := programName :: payloadNames

/-- The payload is none of the files that are written. -/
def Apart (n : Node) (ignition : Text) : Prop :=
  ∀ name ∈ writtenNames, Path.reached (n.layout.file name) ≠ Path.reached ignition

theorem located_offers (husable : usable n.layout.installDirectory = .ok ())
    (hapart : Apart n ignition) (hignition : usable ignition = .ok ())
    (hkubelet : usable kubelet = .ok ()) :
    Located (fun _ => True) (· ≠ Path.reached ignition) FileFault.Ordinary n ignition kubelet := by
  have hlog : usable n.layout.logDirectory = .ok () :=
    usable_join husable (usable_eq_ok.mpr (by decide))
  have hprogram : usable (n.layout.file programName) = .ok () :=
    usable_join husable (usable_eq_ok.mpr (by decide))
  exact ⟨fun front hfront => taken_of_usable (usable_front husable hfront),
    fun front hfront => taken_of_usable (usable_front hlog hfront), fun _ _ => trivial,
    taken_of_usable hprogram, hapart _ List.mem_cons_self,
    taken_of_usable hignition, taken_of_usable hkubelet⟩

/-- The inputs are those that are given, or that they are no files is reported. -/
theorem keeps_checkInputs (hignition : n.ignitionFile = some ignition) :
    Keeps (NodeState.Offers path contents launch clock) (checkInputs n)
      (fun inputs => inputs.1 = ignition ∧ usable inputs.2 = .ok ()) Failure.Reported := by
  intro s hs
  rw [run_checkInputs, hignition]
  cases hfile : (some ignition).filter s.host.files.isFile with
  | none => exact ⟨hs, rfl⟩
  | some found =>
    obtain ⟨hfound, -⟩ := Option.filter_eq_some_iff.mp hfile
    cases hprogram : n.kubeletPath.filter s.host.files.isFile with
    | none => exact ⟨hs, rfl⟩
    | some kubelet =>
      obtain ⟨-, hkubelet⟩ := Option.filter_eq_some_iff.mp hprogram
      obtain ⟨bytes, hstatus⟩ := isFile_iff.mp hkubelet
      exact ⟨hs, (Option.some.inj hfound).symm, (status_eq_ok.mp hstatus).1⟩

theorem Commanding.named (h : Commanding launch n) : n.Named :=
  have ⟨name, hname, _⟩ := Value.exists_of_isWord h.serviceName
  ⟨name, hname⟩

theorem Commanding.takes_serviceName (h : Commanding launch n) :
    launch.takes n.serviceName = true := by
  obtain ⟨name, hname, htakes⟩ := Value.exists_of_isWord h.serviceName
  rw [Node.serviceName, hname]
  exact htakes

theorem Commanding.takes_ownFlags (h : Commanding launch n) :
    ∀ e ∈ ownFlags n, launch.takes e.1 = true ∧ launch.takes e.2 = true :=
  List.forall_mem_cons.mpr ⟨⟨Launch.takes_literal verbosityFlag (by decide), h.verbosity⟩,
    List.forall_mem_singleton.mpr ⟨Launch.takes_literal CloudConfig.flagName (by decide),
      takes_file h.directory CloudConfig.fileName (by decide)⟩⟩

theorem keeps_install (hsettings : Commanding launch n) (htries : n.services.tries.asCount? ≠ none)
    (hpause : clock.refusal? n.services.trySleep = none)
    (hignition : n.ignitionFile = some path) (hpath : usable path = .ok ()) (hapart : Apart n path)
    (hfits : ∀ document, load contents = .ok document → Fits defaultRules document)
    (hcarried : ∀ document, load contents = .ok document → CarriesWords launch document) :
    Keeps (NodeState.Offers path contents launch clock) (install n) (fun _ => True)
      Failure.Reported := by
  have hmanages : ∀ s : NodeState, Manages n.services (launch.takes · = true)
      (fun host => NodeState.Offers path contents launch clock { s with host })
      Failure.Reported := manages_offers htries hpause
  have hbears := @bears_offers path contents launch clock n hsettings.takes_ownFlags
  have hname := hsettings.takes_serviceName
  rw [install_eq]
  refine keeps_bind (keeps_checkInputs hignition) ?_
  rintro ⟨_, kubelet⟩ ⟨rfl, hkubelet⟩
  refine keeps_then (keeps_hold hmanages hname fun hnot => absurd hsettings.named hnot)
    fun exists? => ?_
  refine keeps_bind (keeps_ready ?_ ?_) fun startCommand hcommand =>
    keeps_register hmanages hname (Launch.takes_literal displayName (by decide))
      (Launch.takes_literal description (by decide)) _ hcommand
  · refine keeps_installFiles hbears.files coversFiles_ordinary
      (located_offers hsettings.directory hapart hpath hkubelet) ?_
    rintro found ⟨s, hs, hread⟩
    cases (read_eq_ok.mpr hs.host.files.payload).symm.trans hread
    exact keeps_walk_reported hbears
      (fun document flags hload hflags => hcarried document hload flags hflags)
      hsettings.directory (fun name hname => hapart name (List.mem_cons_of_mem _ hname)) hfits
  · intro s hs
    exact yields_mapError
      ((yields_command hsettings hs.flags).mono (fun _ h => h) fun _ h => h.elim)

end Kubelet

/-! ## A run of the program -/

/-- Settings that an installation below a directory can use on a host. How often the kubelet is
asked only counts where it is waited for. What the time limits are worth shows in the answers of the
host. -/
structure Settings.Usable (settings : Settings) (launch : Launch) (clock : Clock)
    (directory : Text) (waits : Bool) : Prop where
  taken : usable directory = .ok ()
  directory : settings.installDirectory = .text directory
  serviceName : settings.serviceName.isWord launch = true
  pauseImage : settings.pauseImage.isWord launch = true
  certificates : settings.certificateDirectory.isWord launch = true
  verbosity : launch.takes settings.defaultVerbosity.display = true
  tries : settings.serviceTries.asCount? ≠ none
  pause : clock.refusal? settings.serviceTrySleep = none
  healthTries : waits = true → settings.healthTries.asCount? ≠ none
  healthPause : waits = true → clock.refusal? settings.healthTrySleep = none

theorem keeps_hostLog {F : Failure → Prop} (level : LogLevel) (message : Text) :
    Keeps (Host.Offers path contents launch clock) (Host.log level message) (fun _ => True) F :=
  keeps_modify fun _ hh => hh.logged level message

namespace Health

theorem keeps_request {F : Failure → Prop} (endpoint timeout : Value) :
    Keeps (Host.Offers path contents launch clock) (Host.request endpoint timeout) (· ≠ .broken)
      F := by
  refine keeps_bind keeps_get fun h hh => ?_
  refine keeps_then (keeps_set { hh with
    responses := fun hbroken => hh.responses (List.mem_of_mem_tail hbroken) }) fun _ => ?_
  refine keeps_pure _ ?_
  have hresponses := hh.responses
  cases hanswers : h.responses with
  | nil => exact nofun
  | cons response responses =>
    rw [hanswers] at hresponses
    exact fun hbroken => hresponses (hbroken ▸ List.mem_cons_self)

theorem keeps_sleep {F : Failure → Prop} {trySleep : Value}
    (hpause : clock.refusal? trySleep = none) :
    Keeps (Host.Offers path contents launch clock) (Host.sleep trySleep) (fun _ => True) F := by
  refine keeps_bind keeps_get fun h hh => ?_
  rw [hh.clock, hpause]
  exact keeps_set { hh with }

/-- What is kept on a host is kept while the kubelet is asked. -/
theorem keeps_pollFrom {F : Failure → Prop} {trySleep : Value}
    (hpause : clock.refusal? trySleep = none) (endpoint timeout : Value) (tries : Nat) :
    Keeps (Host.Offers path contents launch clock) (pollFrom endpoint trySleep timeout tries)
      (fun _ => True) F := by
  induction tries with
  | zero => exact keeps_pure _ trivial
  | succ tries ih =>
    have hagain : Keeps (Host.Offers path contents launch clock)
        (do
          if 0 < tries then Host.sleep trySleep
          pollFrom endpoint trySleep timeout tries) (fun _ => True) F :=
      keeps_when (keeps_sleep hpause) fun _ => ih
    refine keeps_bind (keeps_request endpoint timeout) fun response hresponse => ?_
    cases response with
    | broken => exact absurd rfl hresponse
    | unreachable kind => exact keeps_then (keeps_hostLog _ _) fun _ => hagain
    | status code =>
      dsimp only
      split
      next => exact keeps_then (keeps_hostLog _ _) fun _ => keeps_pure _ trivial
      next => exact keeps_then (keeps_hostLog _ _) fun _ => hagain

theorem keeps_poll {F : Failure → Prop} {tries trySleep : Value}
    (htries : tries.asCount? ≠ none) (hpause : clock.refusal? trySleep = none)
    (endpoint timeout : Value) :
    Keeps (Host.Offers path contents launch clock) (poll endpoint tries trySleep timeout)
      (fun _ => True) F := by
  unfold poll
  split
  next hnone => exact absurd hnone htries
  next count _ =>
    refine keeps_then (keeps_pollFrom hpause _ _ _) fun healthy => ?_
    split
    next => exact keeps_pure _ trivial
    next => exact keeps_then (keeps_hostLog _ _) fun _ => keeps_pure _ trivial

end Health

namespace Program

open CommandLine

/-- The log file below an install directory. -/
def logFile (directory : Text) : Text :=
  Path.normal (Path.join (InstallLayout.logDirectory ⟨directory⟩) logFileName)

/-- The payload is none of the files that an installation below a directory writes. -/
def Apart (directory ignition : Text) : Prop :=
  ∀ file ∈ logFile directory :: Kubelet.writtenNames.map (Path.join directory),
    Path.reached file ≠ Path.reached ignition

variable {directory : Text} {settings : Settings}

theorem keeps_createLogFile (husable : usable directory = .ok ()) (hapart : Apart directory path) :
    Keeps (FileTree.Offers path contents) (createLogFile (InstallLayout.logDirectory ⟨directory⟩))
      (· = logFile directory) FileFault.Ordinary := by
  have hlog : usable (InstallLayout.logDirectory ⟨directory⟩) = .ok () :=
    usable_join husable (usable_eq_ok.mpr (by decide))
  have hfile : usable (Path.join (InstallLayout.logDirectory ⟨directory⟩) logFileName) = .ok () :=
    usable_join hlog (usable_eq_ok.mpr (by decide))
  refine keeps_bind keeps_get fun t _ => ?_
  refine keeps_when (keeps_makeDirectories tolerates_offers false
    (fun front hfront => taken_of_usable (usable_front hlog hfront)) fun _ _ => trivial) fun _ => ?_
  refine keeps_then (keeps_liftM (taken_of_usable hfile)) fun _ => ?_
  refine keeps_then (keeps_append tolerates_offers (taken_of_usable (usable_normal hfile))
    (hapart _ List.mem_cons_self) []) fun _ => keeps_pure _ rfl

/-- The log is opened, or a warning says that it is not. -/
theorem keeps_openLog (husable : usable directory = .ok ()) (hapart : Apart directory path)
    (debug create : Bool) :
    Keeps (Host.Offers path contents launch clock) (openLog ⟨directory⟩ debug create)
      (fun _ => True) fun _ => False := by
  refine keeps_then (keeps_modify fun h hh => { hh with }) fun _ => ?_
  refine keeps_bind keeps_get fun h hh => ?_
  split
  next => exact keeps_hostLog _ _
  next =>
    have hcreate : Keeps (FileTree.Offers path contents) _ _ _ :=
      keeps_createLogFile husable hapart
    have hcreate := hcreate h.files hh.files
    generalize (createLogFile (InstallLayout.logDirectory ⟨directory⟩)).run.run h.files = ended
      at hcreate ⊢
    obtain ⟨result, files⟩ := ended
    obtain ⟨hfiles, hresult⟩ := hcreate
    dsimp only
    refine keeps_then (keeps_set { hh with files := hfiles }) fun _ => ?_
    cases result with
    | ok file =>
      refine keeps_modify fun h hh => { hh with log := fun file' heq => ?_ }
      cases heq
      exact hapart _ (hresult ▸ List.mem_cons_self)
    | error fault =>
      cases fault with
      | nul => exact hresult.elim
      | unencodable => exact hresult.elim
      | refused | sameFile => exact keeps_hostLog _ _

variable {ignition kubelet : Text} {nodeIp : Option Text} {libraries : Libraries}

/-- An address for which the test comes to an answer, and which can be a word. -/
def IsAddress (libraries : Libraries) (launch : Launch) (address : Text) : Prop :=
  (∃ valid, libraries.testAddress address = .ok valid) ∧ launch.takes address = true

/-- The flags that a run begins with can be part of a command, or the address that is given is
none. -/
theorem yields_firstFlags
    (hnodeIp : ∀ address, nodeIp = some address → IsAddress libraries launch address) :
    Yields (Flags.Words launch) Failure.Reported
      (Node.firstFlagsBy libraries.testAddress nodeIp) := by
  unfold Node.firstFlagsBy
  split
  next => exact nofun
  next => exact nofun
  next address _ =>
    obtain ⟨⟨valid, htest⟩, htakes⟩ := hnodeIp address rfl
    rw [htest]
    dsimp only [ok_bind]
    split
    next =>
      exact List.forall_mem_singleton.mpr
        ⟨Launch.takes_literal Node.nodeIpFlag (by decide), htakes⟩
    next => exact rfl

/-- The node of an installation. -/
def installNode (settings : Settings) (directory ignition kubelet : Text) : Node :=
  ⟨settings, ⟨directory⟩, some ignition, some kubelet, none, none⟩

theorem keeps_act
    (hnodeIp : ∀ address, nodeIp = some address → IsAddress libraries launch address)
    (hinstall : Keeps (NodeState.Offers path contents launch clock)
      (Kubelet.install (installNode settings directory ignition kubelet)) (fun _ => True)
        Failure.Reported) :
    Keeps (Host.Offers path contents launch clock)
      (act libraries settings ⟨directory⟩ (.initializeKubelet ignition kubelet nodeIp))
      (fun _ => True) Failure.Reported := by
  have hnode : Yields
      (fun node => node.1 = installNode settings directory ignition kubelet ∧
        node.2.Words launch)
      Failure.Reported
      (nodeOf libraries settings ⟨directory⟩ (.initializeKubelet ignition kubelet nodeIp)) :=
    yields_bind (yields_firstFlags hnodeIp) fun flags hflags => ⟨rfl, hflags⟩
  refine keeps_bind (keeps_liftM hnode) ?_
  rintro ⟨_, flags⟩ ⟨rfl, hflags⟩
  refine keeps_bind keeps_get fun h hh => ?_
  have hend := hinstall ⟨h, flags, []⟩ ⟨hh, hflags⟩
  dsimp only [onNode]
  generalize (Kubelet.install (installNode settings directory ignition kubelet)).run.run
    ⟨h, flags, []⟩ = ended at hend ⊢
  obtain ⟨result, last⟩ := ended
  exact keeps_then (keeps_set hend.1.host) fun _ => keeps_liftM hend.2

variable {i : Invocation}

/-- A status that the log goes with. -/
def IsStatus (status : Nat) : Prop := status = 0 ∨ status = 1

/-- With the log open, a run whose failures are reported ends with a status. -/
theorem keeps_finish
    (hperform : Keeps (Host.Offers path contents launch clock)
      (perform libraries i settings ⟨directory⟩) (fun _ => True) Failure.Reported) :
    Keeps (Host.Offers path contents launch clock) (finish libraries i settings ⟨directory⟩)
      IsStatus fun _ => False := by
  refine keeps_tryCatch (keeps_then hperform fun healthy => ?_) fun failure hfailure => ?_
  · cases healthy with
    | true => exact keeps_then (keeps_hostLog _ _) fun _ => keeps_pure _ (.inl rfl)
    | false => exact keeps_pure _ (.inr rfl)
  · have hlog : Keeps (Host.Offers path contents launch clock)
        (report (i.action.name ++ text " failed: ") failure) (fun _ => True) fun _ => False := by
      unfold report
      split
      next => exact keeps_hostLog _ _
      next hnot => exact absurd hfailure hnot
    exact keeps_then hlog fun _ => keeps_pure _ (.inr rfl)

theorem keeps_perform (hsettings : settings.Usable launch clock directory i.waitForKubelet)
    (haction : i.action = .initializeKubelet path kubelet nodeIp)
    (hnodeIp : ∀ address, nodeIp = some address → IsAddress libraries launch address)
    (hpath : usable path = .ok ()) (hapart : Apart directory path)
    (hfits : ∀ document, load contents = .ok document → Fits defaultRules document)
    (hcarried : ∀ document, load contents = .ok document → CarriesWords launch document) :
    Keeps (Host.Offers path contents launch clock) (perform libraries i settings ⟨directory⟩)
      (fun _ => True) Failure.Reported := by
  have hcommanding : Kubelet.Commanding launch (installNode settings directory path kubelet) :=
    ⟨hsettings.taken, hsettings.serviceName, hsettings.pauseImage, hsettings.certificates,
      hsettings.verbosity⟩
  have hinstall : Keeps (NodeState.Offers path contents launch clock)
      (Kubelet.install (installNode settings directory path kubelet)) (fun _ => True)
        Failure.Reported :=
    Kubelet.keeps_install hcommanding hsettings.tries hsettings.pause rfl hpath
      (fun name hname => hapart _ (List.mem_cons_of_mem _ (List.mem_map_of_mem hname))) hfits
      hcarried
  unfold perform
  rw [haction]
  refine keeps_then (keeps_act hnodeIp hinstall) fun _ => ?_
  split
  next hwait =>
    exact Health.keeps_poll (hsettings.healthTries hwait) (hsettings.healthPause hwait) _ _
  next => exact keeps_pure _ trivial

theorem run_status {h : Host} (hstate : h.Offers path contents launch clock)
    (hload : settingsOf libraries i h.files = .ok settings)
    (hsettings : settings.Usable launch clock directory i.waitForKubelet)
    (haction : i.action = .initializeKubelet path kubelet nodeIp)
    (hnodeIp : ∀ address, nodeIp = some address → IsAddress libraries launch address)
    (hapart : Apart directory path)
    (hfits : ∀ document, load contents = .ok document → Fits defaultRules document)
    (hcarried : ∀ document, load contents = .ok document → CarriesWords launch document) :
    ∃ status, ((runBy libraries i).run.run h).1 = .ok status ∧ IsStatus status := by
  have hpath := (status_eq_ok.mp hstate.files.payload).1
  have hlayout : Node.layoutOf settings.installDirectory = .ok ⟨directory⟩ := by
    rw [hsettings.directory]
    rfl
  have hend : Yields IsStatus (fun _ => False) ((runBy libraries i).run.run h).1 := by
    rw [runBy_eq, run_get_bind, hload]
    dsimp only
    rw [hlayout]
    exact (keeps_then (keeps_openLog hsettings.taken hapart i.debug (installs i.action))
      (fun _ => keeps_finish
        (keeps_perform hsettings haction hnodeIp hpath hapart hfits hcarried)) h hstate).2
  generalize ((runBy libraries i).run.run h).1 = result at hend
  cases result with
  | ok status => exact ⟨status, rfl, hend⟩
  | error failure => exact hend.elim

/-- Installing the kubelet from a payload whose values are of the kinds that are foreseen, whatever
else is in it. A walk through it comes to its end or to a failure that is reported. With settings
and inputs that can be used, and with flags to carry over that can be part of a command, a run of
the program ends with the status 0 or 1, whatever a host that works answers and refuses, and
whichever libraries read the settings and test the address of the node. The payload may be nested to
any depth: that an interpreter gives up on one that is nested too deeply is left out. Paths are
relative to the working directory, and an absolute one names nothing. -/
theorem initializeKubelet_status (contents : Bytes)
    (hfits : ∀ document, load contents = .ok document → Fits defaultRules document) :
    (∀ (n : Node) (s : NodeState), usable n.layout.installDirectory = .ok () →
      s.host.files.Calm →
        Yields (fun _ => True) Failure.Reported ((walk n contents defaultRules).run.run s).1) ∧
    ∀ (libraries : Libraries) (i : Invocation) (h : Host) (settings : Settings) (launch : Launch)
      (clock : Clock) (directory ignition kubelet : Text) (nodeIp : Option Text),
      settingsOf libraries i h.files = .ok settings →
      settings.Usable launch clock directory i.waitForKubelet →
      i.action = .initializeKubelet ignition kubelet nodeIp →
      (∀ address, nodeIp = some address → IsAddress libraries launch address) →
      h.Offers ignition contents launch clock → Apart directory ignition →
      (∀ document, load contents = .ok document → CarriesWords launch document) →
        ∃ status, ((runBy libraries i).run.run h).1 = .ok status ∧ IsStatus status :=
  ⟨fun _ _ htaken hcalm => walk_reported htaken hcalm hfits,
    fun _ _ _ _ _ _ _ _ _ _ hload hsettings haction hnodeIp hstate hapart hcarried =>
      run_status hstate hload hsettings haction hnodeIp hapart hfits hcarried⟩

/-! ## Brief runs -/

/-- An installation below `k` from the payload `i` and the program `b`. -/
def briefInstallation : Invocation where
  settingsFile := none
  installDirectory := some (text "k")
  debug := false
  action := .initializeKubelet (text "i") (text "b") none
  waitForKubelet := false

def briefSettings : Settings := Settings.defaults.set (text "install_dir") (.text (text "k"))

/-- A host with a payload, where words are written as bytes. -/
def hostOffering (payload : Bytes) : Host :=
  { Host.empty with
    files := ⟨[([text "i"], .file payload), ([text "b"], .file [1])], []⟩
    control := .table { ServiceTable.empty with launch := .bytes }
    clock := .usual }

theorem settingsOf_hostOffering (payload : Bytes) :
    settingsOf .own briefInstallation (hostOffering payload).files = .ok briefSettings := rfl

theorem offers_hostOffering (payload : Bytes) :
    (hostOffering payload).Offers (text "i") payload .bytes .usual where
  files := ⟨fun _ => nofun, rfl⟩
  log := nofun
  control := List.not_mem_nil
  launch := rfl
  clock := rfl
  responses := List.not_mem_nil

theorem usable_brief (waits : Bool) : briefSettings.Usable .bytes .usual (text "k") waits where
  taken := usable_eq_ok.mpr (by decide)
  directory := rfl
  serviceName := by decide
  pauseImage := by decide
  certificates := by decide
  verbosity := by decide
  tries := nofun
  pause := rfl
  healthTries := fun _ => nofun
  healthPause := fun _ => rfl

theorem apart_brief : Apart (text "k") (text "i") := by
  unfold Apart
  decide

/-- A payload with values of other kinds that count as left out, and a path that is no text. -/
def oddPayload : String :=
  "\x7b\"systemd\":\x7b\"units\":[\x7b\"name\":\"kubelet.service\",\"contents\":0\x7d]\x7d," ++
  "\"storage\":\x7b\"files\":[\x7b\"path\":1\x7d," ++
  "\x7b\"path\":\"/etc/kubernetes/kubelet.conf\",\"contents\":[]\x7d]\x7d\x7d"

theorem fits_oddPayload : ∀ document, load (Utf8.ofLiteral oddPayload) = .ok document →
    Fits defaultRules document ∧ CarriesWords .bytes document := by
  have hbytes : Utf8.ofLiteral oddPayload = _ :=
    Utf8.ofLiteral_append
      (Utf8.ofLiteral_append (Utf8.ofLiteral_ofList _) (Utf8.ofLiteral_ofList _))
      (Utf8.ofLiteral_ofList _)
  rw [hbytes]
  decide +kernel

theorem initializeKubelet_status_brief :
    Yields (fun _ => True) Failure.Reported
        ((walk Kubelet.briefNode (Utf8.ofLiteral oddPayload) defaultRules).run.run
          ⟨hostOffering (Utf8.ofLiteral oddPayload), [], []⟩).1 ∧
      ∃ status, ((run briefInstallation).run.run (hostOffering (Utf8.ofLiteral oddPayload))).1 =
        .ok status ∧ IsStatus status := by
  have hdocument := fits_oddPayload
  generalize Utf8.ofLiteral oddPayload = payload at hdocument ⊢
  have hcalm : (hostOffering payload).files.Calm := (offers_hostOffering payload).files.calm
  obtain ⟨hwalk, hrun⟩ :=
    initializeKubelet_status payload fun document hload => (hdocument document hload).1
  exact ⟨hwalk Kubelet.briefNode _ (usable_brief true).taken hcalm,
    hrun .own _ _ _ _ _ _ _ _ _ (settingsOf_hostOffering payload) (usable_brief _) rfl nofun
      (offers_hostOffering payload) apart_brief fun document hload => (hdocument document hload).2⟩

/-- A payload whose storage is a list. -/
def listPayload : Bytes := Utf8.ofLiteral "\x7b\"storage\":[1]\x7d"

/-- A payload with a NUL in a flag that is carried over. -/
def nulPayload : Bytes :=
  Utf8.ofLiteral "\x7b\"systemd\":\x7b\"units\":[\x7b\"name\":\"kubelet.service\"," ++
    Utf8.ofLiteral "\"contents\":\"ExecStart=k --v=a\\u0000b\"\x7d]\x7d\x7d"

/-- The kinds of the values matter: where the storage is a list, a walk fails with what nobody
reports, and a run ends without a status. So do the flags that are carried over: where one holds a
NUL, the values may be of the kinds that are foreseen, and yet a run ends without a status. -/
theorem not_initializeKubelet_status :
    (¬ ∀ (n : Node) (s : NodeState) (contents : Bytes),
      usable n.layout.installDirectory = .ok () → s.host.files.Calm →
        Yields (fun _ => True) Failure.Reported ((walk n contents defaultRules).run.run s).1) ∧
    (¬ ∀ (libraries : Libraries) (i : Invocation) (h : Host) (settings : Settings)
      (launch : Launch) (clock : Clock) (directory ignition kubelet : Text) (nodeIp : Option Text)
      (contents : Bytes),
      settingsOf libraries i h.files = .ok settings →
      settings.Usable launch clock directory i.waitForKubelet →
      i.action = .initializeKubelet ignition kubelet nodeIp →
      (∀ address, nodeIp = some address → IsAddress libraries launch address) →
      h.Offers ignition contents launch clock → Apart directory ignition →
      (∀ document, load contents = .ok document → CarriesWords launch document) →
        ∃ status, ((runBy libraries i).run.run h).1 = .ok status ∧ IsStatus status) ∧
    ¬ ∀ (libraries : Libraries) (i : Invocation) (h : Host) (settings : Settings)
      (launch : Launch) (clock : Clock) (directory ignition kubelet : Text) (nodeIp : Option Text)
      (contents : Bytes),
      settingsOf libraries i h.files = .ok settings →
      settings.Usable launch clock directory i.waitForKubelet →
      i.action = .initializeKubelet ignition kubelet nodeIp →
      (∀ address, nodeIp = some address → IsAddress libraries launch address) →
      h.Offers ignition contents launch clock → Apart directory ignition →
      (∀ document, load contents = .ok document → Fits defaultRules document) →
        ∃ status, ((runBy libraries i).run.run h).1 = .ok status ∧ IsStatus status := by
  refine ⟨?_, ?_, ?_⟩
  · intro h
    refine absurd (h Kubelet.briefNode ⟨hostOffering listPayload, [], []⟩ listPayload
      (usable_brief true).taken fun _ => nofun) ?_
    decide +kernel
  · intro h
    have hcarried : ∀ document, load listPayload = .ok document →
        CarriesWords .bytes document := by
      decide +kernel
    obtain ⟨status, hstatus, -⟩ := h .own briefInstallation (hostOffering listPayload) briefSettings
      _ _ _ _ _ _ _ (settingsOf_hostOffering listPayload) (usable_brief _) rfl nofun
      (offers_hostOffering listPayload) apart_brief hcarried
    have hfails :
        ((runBy .own briefInstallation).run.run (hostOffering listPayload)).1.isOk = false := by
      decide +kernel
    rw [hstatus] at hfails
    exact nomatch hfails
  · intro h
    have hfits : ∀ document, load nulPayload = .ok document → Fits defaultRules document := by
      decide +kernel
    obtain ⟨status, hstatus, -⟩ := h .own briefInstallation (hostOffering nulPayload) briefSettings
      _ _ _ _ _ _ _ (settingsOf_hostOffering nulPayload) (usable_brief _) rfl nofun
      (offers_hostOffering nulPayload) apart_brief hfits
    have hfails :
        ((runBy .own briefInstallation).run.run (hostOffering nulPayload)).1.isOk = false := by
      decide +kernel
    rw [hstatus] at hfails
    exact nomatch hfails

end Program

end NodeBootstrap
