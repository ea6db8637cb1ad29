import NodeBootstrap.Proofs.Node.CniFlags
import NodeBootstrap.Proofs.Node.CniInstall
import NodeBootstrap.Proofs.Service.Disturbance

/-!
# Configuring again and again

A run that configures the network plugins may be broken off anywhere: an operation on files or a run
of the service control program fails, a write leaves something in its file. The next run begins with
what is left. Three things stay the same whatever happens (`Cni.Begun` and the two start commands of
`Cni.Kept`): what the first tree was checked for, what can be at a place of the tree, and that
setting the flags comes to one command. So the first run that goes through undisturbed ends where
one that was never preceded by a failure would have (`Cni.configured_history`).
-/

set_option autoImplicit false

namespace NodeBootstrap

namespace Cni

open FileTree

/-- A run on a fresh node: whether it went through, and the host that it leaves. -/
def configured (n : Node) (flags : Flags) (h : Host) (d : Disturbance) :
    Except Failure Unit × Host :=
  let (result, s) := (configure n).run.run ⟨h.disturbed d, flags, []⟩
  (result, s.host)

/-- The host after runs that something happened to, one after the other. -/
def history (n : Node) (flags : Flags) (first : Host) (ds : List Disturbance) : Host :=
  ds.foldl (fun h d => (configured n flags h d).2) first

/-- A tree that is as it was, or one that installs were begun in after the first was checked. -/
def Begun (i : Install) (first t : FileTree) : Prop :=
  (∀ place, t.at? place = first.at? place) ∨ (i.Checked first ∧ i.Partly first t)

/-- The start command is the first or the one with the flags. -/
def Kept (l : InstallLayout) (command : Text) (entry : ServiceEntry) : Prop :=
  entry.command = command ∨ entry.command = updatedCommand l command

variable {n : Node} {i : Install} {first t : FileTree} {l : InstallLayout} {command : Text}
  {entry : ServiceEntry} {quiet : Prop} {P : FileTree → Prop} {C : ServiceControl → Prop}

/-! ## What stays the same -/

theorem begun_of_partly (hchecked : i.Checked first) (h : i.Partly first t) : Begun i first t :=
  .inr ⟨hchecked, h⟩

theorem steady_begun (i : Install) (first : FileTree) : Steady (Begun i first) := by
  intro t troubles ht
  rcases ht with hsame | ⟨hchecked, hpartly⟩
  · exact .inl hsame
  · exact .inr ⟨hchecked, Install.steady_partly i first t troubles hpartly⟩

/-- What a run finds in order has been so in the first tree. -/
theorem Begun.checked (h : Begun i first t) (hchecked : i.Checked t) : i.Checked first := by
  rcases h with hsame | ⟨hfirst, -⟩
  · have hstatus := status_congr hsame
    obtain ⟨contents, hconfig⟩ := hchecked.config
    exact ⟨hstatus _ ▸ hchecked.installDirectory, hstatus _ ▸ hchecked.plugins,
      contents, hstatus _ ▸ hconfig⟩
  · exact hfirst

theorem Begun.partly (h : Begun i first t) : i.Partly first t := by
  rcases h with hsame | ⟨-, hpartly⟩
  · intro place
    exact .untouched (hsame place)
  · exact hpartly

/-- Setting the flags in what is read of a command that is kept comes to one command. -/
theorem Kept.updatedCommand (h : Kept l command entry) (hl : Quotable l.installDirectory) :
    updatedCommand l (Text.stripped entry.command) = updatedCommand l command := by
  rw [updatedCommand_stripped]
  rcases h with heq | heq
  · rw [heq]
  · rw [heq, updatedCommand_eq, bareCommand_updatedCommand hl, Text.stripped_stripped,
      ← updatedCommand_eq]

/-- A command that is kept is on one line. -/
theorem Kept.newline_not_mem (h : Kept l command entry)
    (hcommand : ServiceOutput.newline ∉ command)
    (hdirectory : ServiceOutput.newline ∉ l.installDirectory) :
    ServiceOutput.newline ∉ entry.command := by
  rcases h with heq | heq
  · rw [heq]
    exact hcommand
  · rw [heq]
    intro hmem
    rcases mem_updatedCommand hmem with hmem | hmem | hplain | hmem
    · exact hcommand hmem
    · exact hdirectory hmem
    · exact absurd hplain (by decide)
    · exact absurd hmem (by decide)

/-! ## One run -/

theorem spec_updateFlags {E : NodeState → Prop} (command : Text) :
    Spec (NodeState.On P C) (updateFlags n command)
      (fun new s => new = updatedCommand n.layout command ∧ s.On P C) E := by
  refine spec_bind (Q := fun _ => NodeState.On P C) (spec_modify _ fun _ hs => hs) fun _ => ?_
  exact spec_pure _ fun _ hs => ⟨rfl, hs⟩

/-- What a run that is given sources outside the directory of the plugins, a directory that can be
quoted, and a service with a command on one line, relies on. -/
structure Given (n : Node) (i : Install) (first : FileTree) (command : Text) : Prop where
  install : install? n = some i
  apart : i.Apart
  sound : first.Sound
  quotable : Quotable i.layout.installDirectory
  line : ServiceOutput.newline ∉ i.layout.installDirectory
  command : ServiceOutput.newline ∉ command

/-- The files of an install, from a tree in which installs were begun, and what comes next. -/
theorem spec_installFiles {next : NodeStep Unit} {Q : Unit → NodeState → Prop}
    (h : Given n i first command)
    (hnext : Spec (NodeState.On (fun t => Begun i first t ∧ i.Installed first t) C) next Q
      (NodeState.On (Begun i first) C)) :
    Spec (NodeState.On (Begun i first) C)
      (do
        checkInputs n
        ensureDirectories n
        copyFiles n
        next) Q (NodeState.On (Begun i first) C) := by
  refine spec_bind (Install.spec_checkInputs (steady_begun i first) h.install) fun _ => ?_
  intro s hs
  have hchecked : i.Checked first := hs.files.2.checked hs.files.1
  have hbegun : ∀ s : NodeState, s.On (i.Partly first) C → s.On (Begun i first) C :=
    NodeState.On.files_mono fun _ ht => begun_of_partly hchecked ht
  refine spec_bind ((Install.spec_ensureDirectories h.install hchecked).failing hbegun)
    (fun _ => ?_) s ⟨hs.file, hs.files.2.partly, hs.control⟩
  have hcopy := (Install.spec_copyFiles h.install h.apart h.sound hchecked).failing hbegun
  refine spec_bind hcopy fun _ => hnext.since (NodeState.On.files_mono ?_)
  intro t ht
  exact ⟨begun_of_partly hchecked ht.1, ht.2⟩

/-- A service with a command that is kept is given the command with the flags and started. -/
theorem spec_restart (m : ServiceManager) (name message : Text) :
    Spec (NodeState.On P (·.Serves quiet name (Kept l command)))
      (do
        m.stop name
        m.setStartCommand name (updatedCommand l command)
        m.start name
        NodeStep.log .info message)
      (fun _ => NodeState.On P (·.Serves quiet name fun entry =>
        entry.command = updatedCommand l command ∧ (quiet → entry.state = ServiceState.running)))
      (NodeState.On P (·.Serves quiet name (Kept l command))) := by
  refine spec_bind (spec_ofHost (ServiceManager.spec_stop fun _ h => h)) fun _ => ?_
  have hset : Spec (NodeState.On P (·.Serves quiet name (Kept l command)))
      (m.setStartCommand name (updatedCommand l command) : NodeStep Unit)
      (fun _ => NodeState.On P (·.Serves quiet name fun entry =>
        entry.command = updatedCommand l command))
      (NodeState.On P (·.Serves quiet name (Kept l command))) := by
    refine (spec_ofHost (ServiceManager.spec_setStartCommand _)).ending fun _ => ?_
    refine NodeState.On.control_mono fun _ hserves => hserves.mono ?_
    rintro entry ⟨before, -, rfl⟩
    rfl
  have hstart : Spec
      (NodeState.On P (·.Serves quiet name fun entry => entry.command = updatedCommand l command))
      (m.start name : NodeStep Unit)
      (fun _ => NodeState.On P (·.Serves quiet name fun entry =>
        entry.command = updatedCommand l command ∧ (quiet → entry.state = ServiceState.running)))
      (NodeState.On P (·.Serves quiet name (Kept l command))) := by
    refine (spec_ofHost (ServiceManager.spec_start fun _ h => h)).failing ?_
    exact NodeState.On.control_mono fun _ hserves => hserves.mono fun _ h => .inr h
  refine (spec_bind hset fun _ => spec_bind hstart fun _ => spec_nodeLog _ _).since ?_
  exact NodeState.On.control_mono fun _ hserves => hserves.mono fun _ h => h.1

/-- The files are installed, the command is set and the service is started; or something of that has
been begun. -/
theorem spec_configure (h : Given n i first command)
    (hname : ServiceOutput.Unlabelled n.serviceName) :
    Spec (NodeState.On (Begun i first) (·.Serves quiet n.serviceName (Kept i.layout command)))
      (configure n)
      (fun _ => NodeState.On (fun t => Begun i first t ∧ i.Installed first t)
        (·.Serves quiet n.serviceName fun entry =>
          entry.command = updatedCommand i.layout command ∧
            (quiet → entry.state = ServiceState.running)))
      (NodeState.On (Begun i first)
        (·.Serves quiet n.serviceName (Kept i.layout command))) := by
  obtain ⟨hlayout, -, -⟩ := Install.of_install? h.install
  obtain ⟨-, hrequire⟩ | ⟨-, hrequire⟩ := n.requireName_cases
  case inr =>
    rw [configure, hrequire]
    exact spec_throw _ fun _ hs => hs
  rw [configure, hrequire]
  refine spec_bind (spec_ofHost (ServiceManager.spec_startCommand? hname fun entry hkept =>
    hkept.newline_not_mem h.command h.line)) fun found => ?_
  cases found with
  | none =>
    refine spec_throw _ (NodeState.On.control_mono fun _ hserves => hserves.mono ?_)
    intro _ h
    exact h.1
  | some found =>
    intro s hs
    have hnew : updatedCommand n.layout found = updatedCommand i.layout command := by
      obtain ⟨t, -, ht⟩ := hs.control
      obtain ⟨entry, -, hkept, hfound⟩ := ht.entry
      rw [hlayout, hfound found rfl]
      exact hkept.updatedCommand h.quotable
    refine spec_installFiles h ?_ s ⟨hs.file, hs.files, hs.control.mono fun _ h => h.1⟩
    refine spec_bind (spec_updateFlags found) fun new => ?_
    rintro s ⟨rfl, hs⟩
    rw [hnew]
    refine (spec_restart n.services n.serviceName _).failing ?_ s hs
    exact NodeState.On.files_mono fun t ht => ht.1

/-! ## Histories -/

variable {h : Host} {d : Disturbance}

/-- What one run ends in, from what the runs before it leave. -/
theorem configured_ends (flags : Flags) (hgiven : Given n i first command)
    (hname : ServiceOutput.Unlabelled n.serviceName) (hd : d.Reported)
    (hhost : h.On (Begun i first) (·.Holds n.serviceName (Kept i.layout command))) :
    Ends
      (fun _ => Host.On (fun t => Begun i first t ∧ i.Installed first t)
        (·.Serves (d = .nothing) n.serviceName fun entry =>
          entry.command = updatedCommand i.layout command ∧
            (d = .nothing → entry.state = ServiceState.running)))
      (Host.On (Begun i first) (·.Serves (d = .nothing) n.serviceName (Kept i.layout command)))
      (configured n flags h d) := by
  have hend := spec_configure hgiven hname ⟨h.disturbed d, flags, []⟩
    (hhost.disturbed hd (steady_begun i first))
  rw [configured]
  generalize (configure n).run.run ⟨h.disturbed d, flags, []⟩ = ended at hend ⊢
  obtain ⟨result, s⟩ := ended
  cases result with
  | ok _ => exact hend
  | error failure => exact hend

/-- What one run leaves is what the next can begin with. -/
theorem on_configured (flags : Flags) (hgiven : Given n i first command)
    (hname : ServiceOutput.Unlabelled n.serviceName) (hd : d.Reported)
    (hhost : h.On (Begun i first) (·.Holds n.serviceName (Kept i.layout command))) :
    (configured n flags h d).2.On (Begun i first)
      (·.Holds n.serviceName (Kept i.layout command)) := by
  have hend := configured_ends flags hgiven hname hd hhost
  generalize configured n flags h d = ended at hend ⊢
  obtain ⟨result, h'⟩ := ended
  cases result with
  | ok _ =>
    refine ⟨hend.file, hend.files.1, (hend.control.mono fun entry hentry => ?_).holds⟩
    exact .inr hentry.1
  | error failure => exact ⟨hend.file, hend.files, hend.control.holds⟩

/-- So is what any number of runs leave. -/
theorem on_history (flags : Flags) (hgiven : Given n i first command)
    (hname : ServiceOutput.Unlabelled n.serviceName) {ds : List Disturbance}
    (hds : ∀ d ∈ ds, d.Reported)
    (hhost : h.On (Begun i first) (·.Holds n.serviceName (Kept i.layout command))) :
    (history n flags h ds).On (Begun i first)
      (·.Holds n.serviceName (Kept i.layout command)) := by
  induction ds generalizing h with
  | nil => exact hhost
  | cons d ds ih =>
    obtain ⟨hd, hds⟩ := List.forall_mem_cons.mp hds
    exact ih hds (on_configured flags hgiven hname hd hhost)

/-- Whatever happened to the runs before, a run that goes through undisturbed leaves the service
running with the flags set in its first command, and the files that a single run that goes through
leaves of the first tree. The runs log to no file, so all that they write is what they install.
Paths are relative to the working directory, and an absolute one names nothing. -/
theorem configured_history (n : Node) (i : Install) (flags : Flags) (first last : Host)
    (t : ServiceTable) (entry : ServiceEntry) (ds : List Disturbance)
    (hgiven : Given n i first.files entry.command)
    (hname : ServiceOutput.Unlabelled n.serviceName) (hfile : first.journal.file = none)
    (hcontrol : first.control = .table t) (hentry : t.services.get? n.serviceName = some entry)
    (hds : ∀ d ∈ ds, d.Reported)
    (hlast : configured n flags (history n flags first ds) .nothing = (.ok (), last)) :
    last.Runs n.serviceName (updatedCommand n.layout (Text.stripped entry.command)) ∧
      i.Installed first.files last.files ∧
        ∀ (d : Disturbance) (single : Host), d.Reported →
          configured n flags first d = (.ok (), single) →
            ∀ place, last.files.at? place = single.files.at? place := by
  have hfirst : first.On (Begun i first.files)
      (·.Holds n.serviceName (Kept i.layout entry.command)) :=
    ⟨hfile, .inl fun _ => rfl, t, entry, hcontrol, hentry, .inl rfl⟩
  have hend := configured_ends flags hgiven hname Disturbance.reported_nothing
    (on_history flags hgiven hname hds hfirst)
  rw [hlast] at hend
  obtain ⟨-, ⟨-, hinstalled⟩, hserves⟩ := hend
  refine ⟨?_, hinstalled, fun d single hd hsingle => ?_⟩
  · obtain ⟨t', htable, ht'⟩ := hserves
    obtain ⟨entry', hentry', hcommand, hstate⟩ := ht'.entry
    refine ⟨entry', ?_, ?_, hstate rfl⟩
    · rw [Host.services, htable]
      exact hentry'
    · rw [hcommand, updatedCommand_stripped, (Install.of_install? hgiven.install).1]
  · have hone := configured_ends flags hgiven hname hd hfirst
    rw [hsingle] at hone
    exact hinstalled.unique hone.files.2

/-! ## A brief history -/

/-- A node with a service of some name, to be configured below `k` from `p` and `c`. -/
def briefNode (name : Text) : Node where
  settings := Settings.defaults.set (text "kubelet_service_name") (.text name)
  layout := ⟨text "k"⟩
  ignitionFile := none
  kubeletPath := none
  cniPath := some (text "p")
  cniConfig := some (text "c")

def briefInstall : Install := ⟨⟨text "k"⟩, text "p", text "c"⟩

def briefEntry : ServiceEntry := ⟨text "kubelet.exe --v=3", ServiceState.running, [], []⟩

def briefTable (name : Text) : ServiceTable :=
  { ServiceTable.empty with services := [(name, briefEntry)] }

/-- One plugin in `p`, and its config. -/
def briefFiles : FileTree :=
  ⟨[([text "k"], .directory), ([text "p"], .directory), ([text "p", text "a"], .file [1]),
    ([text "c"], .file [2])], []⟩

def briefHost (name : Text) : Host :=
  { Host.empty with files := briefFiles, control := .table (briefTable name) }

/-- First a copy leaves something else in the plugin, then the service is not started. -/
def briefDisturbances : List Disturbance :=
  [⟨[], [], List.replicate 7 none ++ [some ⟨.refused .noEntry (text "k/cni/a"), some [0]⟩]⟩,
    ⟨[(text "start", 5, [])], [], []⟩]

theorem given_brief (name : Text) :
    Given (briefNode name) briefInstall (briefHost name).files briefEntry.command where
  install := rfl
  apart := by decide
  sound := (by decide : briefFiles.Sound)
  quotable := by decide
  line := by decide
  command := by decide

theorem reported_brief : ∀ d ∈ briefDisturbances, d.Reported := by
  intro d hd
  rcases List.mem_cons.mp hd with rfl | hd
  · exact Disturbance.reported_refusals _
  · obtain rfl := List.mem_singleton.mp hd
    exact Disturbance.reported_fault (by decide)

/-- What two runs that fail leave. -/
def briefHistory : Host :=
  history (briefNode (text "kubelet")) [] (briefHost (text "kubelet")) briefDisturbances

theorem configured_history_brief :
    ∃ last, configured (briefNode (text "kubelet")) [] briefHistory .nothing = (.ok (), last) ∧
      last.Runs (text "kubelet") (updatedCommand ⟨text "k"⟩ (text "kubelet.exe --v=3")) ∧
        briefInstall.Installed briefFiles last.files := by
  have hran : (configured (briefNode (text "kubelet")) [] briefHistory .nothing).1.isOk = true := by
    decide +kernel
  have hlast := eq_mk_of_isOk hran
  have hends := configured_history (briefNode (text "kubelet")) briefInstall []
    (briefHost (text "kubelet")) _ (briefTable (text "kubelet")) briefEntry
    briefDisturbances (given_brief _) (ServiceOutput.unlabelled_of_line (by decide)) rfl rfl rfl
    reported_brief hlast
  exact ⟨_, hlast, hends.1, hends.2.1⟩

/-- A name that goes on with a line that reads like a start command. -/
def labelledName : Text := text "kubelet\nBINARY_PATH_NAME : other"

/-- What the name reads like is taken for the command. -/
theorem command_labelled :
    ((configured (briefNode labelledName) [] (briefHost labelledName) .nothing).2.services.get?
      (briefNode labelledName).serviceName).map (·.command) =
        some (updatedCommand ⟨text "k"⟩ (text "other")) := by
  decide +kernel

/-- The name of the service cannot be any name. -/
theorem not_configured_history_labelled :
    ¬ ∀ (n : Node) (i : Install) (flags : Flags) (first last : Host) (t : ServiceTable)
        (entry : ServiceEntry) (ds : List Disturbance), Given n i first.files entry.command →
        first.journal.file = none → first.control = .table t →
        t.services.get? n.serviceName = some entry → (∀ d ∈ ds, d.Reported) →
        configured n flags (history n flags first ds) .nothing = (.ok (), last) →
          last.Runs n.serviceName (updatedCommand n.layout (Text.stripped entry.command)) := by
  intro h
  have hran : (configured (briefNode labelledName) [] (briefHost labelledName)
      .nothing).1.isOk = true := by decide +kernel
  obtain ⟨entry, hentry, hcommand, -⟩ := h (briefNode labelledName) briefInstall []
    (briefHost labelledName)
    (configured (briefNode labelledName) [] (briefHost labelledName) .nothing).2
    (briefTable labelledName) briefEntry [] (given_brief labelledName) rfl rfl rfl nofun
    (eq_mk_of_isOk hran)
  have hother := command_labelled
  rw [hentry, Option.map_some, hcommand] at hother
  exact absurd hother (by decide +kernel)

end Cni

end NodeBootstrap
