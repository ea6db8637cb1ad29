import NodeBootstrap.Proofs.Node.CniConvergence
import NodeBootstrap.Proofs.Node.CniPlacing
import NodeBootstrap.Proofs.Service.Dialogue

/-!
# The service is touched last

Where the service has a name, configuring the network plugins falls into two parts
(`Cni.configure_eq`). The first looks the service up, checks what is given, makes the directories
and copies the files (`Cni.prepare`); the second sets the flags, stops the service, changes it and
starts it (`Cni.restart`). A failure of a check or of a copy is one of the first part, in which the
look-up is the only run of the service control program and nothing but files is changed; by the kind
of a failure it is known how far the run has come. And where the first part comes to its end, the
plugins and their config are in place.
-/

set_option autoImplicit false

namespace NodeBootstrap

/-- The control behind a run that changes nothing of the services: what was to happen to the run is
past. -/
def ServiceControl.passed : ServiceControl → ServiceControl
  | .script results => .script results.tail
  | .table t => .table { t with troubles := t.troubles.tail }

namespace ServiceManager

variable {m : ServiceManager} {name : Text}

/-- A look-up changes nothing of the services. -/
theorem run_lookUp (control : ServiceControl) (name : Text) :
    (control.run (lookUpWords name)).2 = control.passed := by
  cases control with
  | script results => cases results <;> rfl
  | table t =>
    have hanswer : ∀ t : ServiceTable, (t.answer (text "qc") name [configRoom]).2 = t := by
      intro t
      rw [ServiceTable.answer]
      split
      next => rfl
      next =>
        rw [if_neg (by decide)]
        cases t.services.get? name <;> rfl
    refine congrArg ServiceControl.table ?_
    show (t.run (text "qc") name [configRoom]).2 = _
    rw [ServiceTable.run]
    split
    next =>
      rw [ServiceTable.perform]
      obtain ⟨services, faults, pending, pendingLeft, troubles, launch⟩ := t
      cases troubles with
      | nil => exact hanswer _
      | cons trouble troubles =>
        cases trouble with
        | none => exact hanswer _
        | some result => rfl
    next => rfl

/-- Whatever comes of it, the program is run once. -/
theorem spec_ran (hm : m.connected = true) (words : List Text) (allowed : List Int) (h : Host) :
    Spec (fun h' => h' = h) (m.run words allowed) (fun _ h' => h' = h.ran program words)
      fun h' => h' = h.ran program words := by
  unfold ServiceManager.run
  rw [hm]
  have hcontrol : Spec (fun h' => h' = h) (Host.runControl program words)
      (fun _ h' => h' = h.ran program words) fun h' => h' = h.ran program words := by
    rintro _ rfl
    rfl
  refine spec_bind hcontrol fun result => ?_
  cases result with
  | finished code output =>
    dsimp only
    split
    next => exact spec_throw _ fun _ h => h
    next => exact spec_pure _ fun _ h => h
  | _ => exact spec_throw _ fun _ h => h

theorem spec_lookedUp (hm : m.connected = true) (h : Host) :
    Spec (fun h' => h' = h) (m.startCommand? name)
      (fun _ h' => h' = h.ran program (lookUpWords name))
      fun h' => h' = h.ran program (lookUpWords name) := by
  refine spec_bind (spec_ran hm _ _ h) fun answer => ?_
  obtain ⟨code, output⟩ := answer
  dsimp only
  split
  next => exact spec_pure _ fun _ h => h
  next =>
    split
    next => exact spec_pure _ fun _ h => h
    next => exact spec_throw _ fun _ h => h

end ServiceManager

namespace Cni

open ServiceManager

/-- A failure of a check. -/
def isPrecondition : Failure → Bool
  | .noService _ | .installDirectory _ | .cniPath _ | .cniConfig _ => true
  | _ => false

/-- A failure to make a directory or to copy a file. -/
def isPreparation : Failure → Bool
  | .directoryCreation .. | .copy _ => true
  | _ => false

/-- What comes before a service with a name is touched: gives its start command. -/
def prepare (n : Node) : NodeStep Text := do
  match ← n.services.startCommand? n.serviceName with
  | none => throw (.noService n.serviceName)
  | some command =>
    checkInputs n
    ensureDirectories n
    copyFiles n
    return command

/-- The service is given a new start command and started. -/
def restart (n : Node) (command : Text) : NodeStep Unit := do
  let newCommand ← updateFlags n command
  n.services.stop n.serviceName
  n.services.setStartCommand n.serviceName newCommand
  n.services.start n.serviceName
  NodeStep.log .info (text "Kubelet service " ++ n.serviceName ++ text " reconfigured for CNI")

/-- A node on which the service was looked up since another, and nothing but files has changed. -/
structure LookedUp (n : Node) (first s : NodeState) : Prop where
  calls : s.host.calls = first.host.calls ++ [program :: lookUpWords n.serviceName]
  control : s.host.control = first.host.control.passed
  kubeletFlags : s.kubeletFlags = first.kubeletFlags
  unitFlags : s.unitFlags = first.unitFlags

/-- A node on which nothing but the look-up of the service was done since another: the files are as
they were. -/
structure Examined (n : Node) (first s : NodeState) : Prop extends LookedUp n first s where
  nodes : s.host.files.nodes = first.host.files.nodes

/-- The service is looked up and what is given is checked. -/
def examine (n : Node) : NodeStep Text := do
  match ← n.services.startCommand? n.serviceName with
  | none => throw (.noService n.serviceName)
  | some command =>
    checkInputs n
    return command

variable {n : Node} {first s : NodeState}

/-- Before a directory is made or a file is copied, all checks are done. -/
theorem prepare_eq (n : Node) :
    prepare n = (do
      let command ← examine n
      ensureDirectories n
      copyFiles n
      return command) := by
  unfold prepare examine
  rw [bind_assoc]
  refine bind_congr fun found => ?_
  cases found with
  | none => rfl
  | some command =>
    rw [bind_assoc]
    refine bind_congr fun _ => ?_
    rw [pure_bind]

theorem configure_eq (n : Node) :
    configure n = n.requireName >>= fun _ => prepare n >>= restart n := by
  unfold configure prepare
  refine bind_congr fun _ => ?_
  rw [bind_assoc]
  refine bind_congr fun found => ?_
  cases found with
  | none => rfl
  | some command =>
    rw [bind_assoc]
    refine bind_congr fun _ => ?_
    rw [bind_assoc]
    refine bind_congr fun _ => ?_
    rw [bind_assoc]
    exact bind_congr fun _ => (pure_bind command (restart n)).symm

/-! ## Failures -/

/-- Operations on files change nothing else. -/
theorem endures_lookedUp (made written : List Text → Prop) :
    Endures made written (LookedUp n first) fun _ => True :=
  endures_of_forall_files fun _ _ h => ⟨h.calls, h.control, h.kubeletFlags, h.unitFlags⟩

theorem outlivesLogs_lookedUp : OutlivesLogs (LookedUp n first) := by
  intro s level message h
  obtain ⟨hcalls, hcontrol, -⟩ := s.host.logged_kept level message
  exact ⟨hcalls.trans h.calls, hcontrol.trans h.control, h.kubeletFlags, h.unitFlags⟩

section Steps

variable {made written : List Text → Prop} {R : NodeState → Prop}

theorem keeps_requirePath (h : Endures made written R fun _ => True) (area : PathFault → Failure)
    (path : Option Text) : Keeps R (requirePath area path) (fun _ => True) fun _ => True := by
  cases path with
  | none => exact keeps_throw _ trivial
  | some path =>
    refine keeps_then (keeps_operation (fun s => FileTree.keeps_ask (h s)
      fun _ _ => yields_trivial _) fun _ _ => trivial) fun _ => keeps_pure _ trivial

theorem keeps_checkInputs (h : Endures made written R fun _ => True) :
    Keeps R (checkInputs n) (fun _ => True) fun _ => True := by
  refine keeps_then (keeps_requirePath h _ _) fun directory => keeps_bind keeps_get fun _ _ => ?_
  refine keeps_unless trivial (keeps_then (keeps_requirePath h _ _) fun plugins => ?_)
  refine keeps_bind keeps_get fun _ _ => keeps_unless trivial ?_
  refine keeps_then (keeps_requirePath h _ _) fun config => keeps_bind keeps_get fun _ _ => ?_
  split
  next => exact keeps_throw _ trivial
  next => exact keeps_pure _ trivial

/-- A failure of anything but a check. -/
def PastChecks (failure : Failure) : Prop := isPrecondition failure = false

theorem pastChecks_ofFileFault {rename : FileFault → Failure} (h : ∀ fault, PastChecks (rename fault))
    (fault : FileFault) : PastChecks (Failure.ofFileFault rename fault) := by
  cases fault with
  | nul => rfl
  | unencodable fault => rfl
  | _ => exact h _

theorem keeps_ensureDirectories (h : Endures (fun _ => True) written R fun _ => True)
    (hlogs : OutlivesLogs R) :
    Keeps R (ensureDirectories n) (fun _ => True) PastChecks := by
  refine keeps_bind keeps_get fun _ _ => ?_
  split
  next => exact keeps_pure _ trivial
  next =>
    refine keeps_then (keeps_nodeLog hlogs _ _) fun _ =>
      keeps_operation (fun s => FileTree.keeps_makeDirectories (h s) _
        (fun _ _ => yields_trivial _) fun _ _ => trivial) fun _ _ => ?_
    exact pastChecks_ofFileFault (fun _ => by rfl) _

theorem keeps_copyInto (h : Endures made (fun _ => True) R fun _ => True)
    (directory source : Text) :
    Keeps R (copyInto directory source) (fun _ => True) PastChecks := by
  refine keeps_then (keeps_operation (fun s => FileTree.keeps_copy (h s) (yields_trivial _)
    (yields_trivial _) trivial) fun _ _ => ?_) fun _ => keeps_pure _ trivial
  exact pastChecks_ofFileFault (fun _ => by rfl) _

theorem keeps_pluginFiles (h : Endures made written R fun _ => True) :
    Keeps R (pluginFiles n) (fun _ => True) PastChecks := by
  refine keeps_then (keeps_operation (fun s => FileTree.keeps_ask (h s)
    fun _ _ => yields_trivial _) fun _ _ => ?_) fun names => ?_
  · exact pastChecks_ofFileFault (fun _ => by rfl) _
  split
  next =>
    split
    next => exact keeps_pure _ trivial
    next => exact keeps_throw _ rfl
  next => exact keeps_bind keeps_get fun _ _ => keeps_pure _ trivial

theorem keeps_copyFiles (h : Endures made (fun _ => True) R fun _ => True) (hlogs : OutlivesLogs R) :
    Keeps R (copyFiles n) (fun _ => True) PastChecks := by
  refine keeps_then (keeps_pluginFiles h) fun files => keeps_unless rfl ?_
  refine keeps_then (keeps_forIn fun source _ => ?_) fun _ => ?_
  · exact keeps_then (keeps_copyInto h _ _) fun _ => keeps_pure _ trivial
  refine keeps_then (keeps_nodeLog hlogs _ _) fun _ => ?_
  split
  next => exact keeps_throw _ rfl
  next => exact keeps_then (keeps_copyInto h _ _) fun _ => keeps_nodeLog hlogs _ _

end Steps

/-- A failure of the service alone. -/
def PastPreparation (failure : Failure) : Prop :=
  isPrecondition failure = false ∧ isPreparation failure = false

theorem pastPreparation_of_refusal {clock : Clock} {length : Value} {failure : Failure}
    (h : clock.refusal? length = some failure) : PastPreparation failure := by
  obtain rfl | rfl := Clock.eq_of_refusal h <;> exact ⟨rfl, rfl⟩

theorem manages_anything (m : ServiceManager) :
    Manages m (fun _ => True) (fun _ => True) PastPreparation where
  log _ _ _ h := h
  pause _ _ h := h
  run _ _ h := h
  vocabulary _ _ := trivial
  service _ := ⟨rfl, rfl⟩
  broken _ _ _ _ _ := ⟨rfl, rfl⟩
  clock _ _ _ := pastPreparation_of_refusal
  tries _ := ⟨rfl, rfl⟩

/-- Touching the service fails in ways of its own. -/
theorem keeps_restart (command : Text) :
    Keeps (fun _ => True) (restart n command) (fun _ => True) PastPreparation := by
  have hmanages := manages_anything n.services
  have hflags : Keeps (fun _ => True) (updateFlags n command) (fun _ => True) PastPreparation :=
    keeps_then (keeps_modify fun _ h => h) fun _ => keeps_pure _ trivial
  refine keeps_then hflags fun newCommand => ?_
  refine keeps_then (keeps_ofHost fun _ => keeps_stop hmanages trivial) fun _ => ?_
  refine keeps_then (keeps_ofHost fun _ => keeps_setStartCommand hmanages trivial trivial)
    fun _ => ?_
  refine keeps_then (keeps_ofHost fun _ => keeps_start hmanages trivial) fun _ => ?_
  exact keeps_ofHost fun _ => keeps_log hmanages _ _

/-- As long as nothing but checks is done, the tree holds what it held. -/
theorem endures_examined : Endures (fun _ => False) (fun _ => False) (Examined n first)
    fun _ => True := fun s =>
  { passes := fun t h =>
      ⟨(endures_lookedUp (fun _ => True) (fun _ => True) s).passes t h.toLookedUp, h.nodes⟩
    makes := fun _ _ _ _ _ hmade _ => hmade.elim
    writes := fun _ _ _ _ _ _ hwritten => hwritten.elim
    troubles := fun _ _ _ _ => trivial
    refused := fun _ _ => trivial
    sameFile := fun _ _ => trivial }

/-! ## Configuring -/

/-- A node on which the service was looked up. -/
theorem spec_lookUp (n : Node) (s : NodeState) :
    Spec (fun s' => s' = s) (n.services.startCommand? n.serviceName : NodeStep (Option Text))
      (fun _ s' => s' = { s with host := s.host.ran program (lookUpWords n.serviceName) })
      fun s' => s' = { s with host := s.host.ran program (lookUpWords n.serviceName) } := by
  refine spec_ofHost_ends ?_
  rintro s rfl
  refine (spec_lookedUp (m := n.services) rfl s.host s.host rfl).mono ?_ ?_
  · rintro _ _ rfl
    rfl
  · rintro _ rfl
    rfl

theorem examined_ran (n : Node) (s : NodeState) :
    Examined n s { s with host := s.host.ran program (lookUpWords n.serviceName) } :=
  ⟨⟨rfl, run_lookUp s.host.control n.serviceName, rfl, rfl⟩, rfl⟩

/-- Looking up and checking change no file, whatever comes of them. -/
theorem spec_examine (n : Node) (s : NodeState) :
    Spec (fun s' => s' = s) (examine n) (fun _ => Examined n s) (Examined n s) := by
  have hlookUp : Spec (fun s' => s' = s)
      (n.services.startCommand? n.serviceName : NodeStep (Option Text))
      (fun _ => Examined n s) (Examined n s) := by
    refine (spec_lookUp n s).weaken (fun _ h => h) ?_ ?_
    · rintro _ _ rfl
      exact examined_ran n s
    · rintro _ rfl
      exact examined_ran n s
  refine spec_bind hlookUp fun found => ?_
  cases found with
  | none => exact spec_throw _ fun _ h => h
  | some command =>
    refine spec_bind ((keeps_checkInputs endures_examined).spec.ending fun _ _ h => h.2) fun _ => ?_
    exact spec_pure _ fun _ h => h

/-- Where the first part of a run comes to its end, the files are in place. -/
theorem spec_prepare (n : Node) (s : NodeState) (hsound : s.host.files.Sound) :
    Spec (fun s' => s' = s) (prepare n)
      (fun _ => Logging s (InPlace n s.host.LogsAt s.host.files)) fun _ => True := by
  have hgrown : Tolerates (fun _ => True) s.host.LogsAt
      (Grown s.host.LogsAt s.host.files) fun _ => True := tolerates_grown
  have hendures : Endures _ _ (Logging s _) _ := endures_logging hgrown
  have hlogs : OutlivesLogs (Logging s _) := outlivesLogs_logging hgrown fun _ h => h
  refine spec_bind ((spec_lookUp n s).failing fun _ _ => trivial) fun found => ?_
  rintro _ rfl
  cases found with
  | none => exact trivial
  | some command =>
    have hbegin : Logging s (Grown s.host.LogsAt s.host.files)
        { s with host := s.host.ran program (lookUpWords n.serviceName) } := ⟨rfl, .refl hsound⟩
    refine spec_bind ((keeps_checkInputs hendures).spec.failing fun _ _ => trivial)
      (fun _ => ?_) _ hbegin
    refine Spec.knowing fun _ => ?_
    refine spec_bind ((keeps_ensureDirectories hendures hlogs).spec.failing fun _ _ => trivial)
      fun _ => Spec.knowing fun _ => ?_
    exact spec_bind (spec_copyFiles fun _ h => h) fun _ => spec_pure _ fun _ h => h

/-- What the first part of a run changes: files at most, and none if it fails in a check. -/
theorem prepare_ends (n : Node) (s : NodeState) :
    LookedUp n s ((prepare n).run.run s).2 ∧
      ∀ failure, ((prepare n).run.run s).1 = .error failure → isPrecondition failure = true →
        ((prepare n).run.run s).2.host.files.nodes = s.host.files.nodes := by
  have hrest : ∀ command, Keeps (LookedUp n s)
      (do
        ensureDirectories n
        copyFiles n
        return command : NodeStep Text) (fun _ => True) PastChecks := fun command =>
    keeps_then (keeps_ensureDirectories (endures_lookedUp _ (fun _ => True)) outlivesLogs_lookedUp)
      fun _ => keeps_then (keeps_copyFiles (endures_lookedUp (fun _ => True) _) outlivesLogs_lookedUp)
        fun _ => keeps_pure command trivial
  have hexamined := spec_examine n s s rfl
  rw [prepare_eq, run_bind]
  generalize (examine n).run.run s = ended at hexamined ⊢
  obtain ⟨result, s₁⟩ := ended
  cases result with
  | error failure => exact ⟨hexamined.toLookedUp, fun _ _ _ => hexamined.nodes⟩
  | ok command =>
    obtain ⟨hlookedUp, hresult⟩ := hrest command s₁ hexamined.toLookedUp
    refine ⟨hlookedUp, fun failure hfailed hprecondition => ?_⟩
    dsimp only at hfailed
    rw [hfailed] at hresult
    exact absurd (hresult.symm.trans hprecondition) Bool.false_ne_true

/-- Configuring touches the service last. A run that fails in a check has looked the service up and
changed nothing; one that fails to make a directory or to copy a file has changed nothing but files;
and whatever else is run is run behind the first part, which makes no run but the look-up and has
the files in place when it comes to its end. A service whose name is no text is not even looked up.
Paths are relative to the working directory, and an absolute one names nothing. -/
theorem configure_precedence (n : Node) (s : NodeState) (hsound : s.host.files.Sound) :
    (∀ failure last, (configure n).run.run s = (.error failure, last) →
      (isPrecondition failure = true →
        LookedUp n s last ∧ last.host.files.nodes = s.host.files.nodes) ∧
      (isPreparation failure = true → LookedUp n s last)) ∧
    configure n = (n.requireName >>= fun _ => prepare n >>= restart n) ∧
    (¬ n.Named → (configure n).run.run s = (.error (.kind .unusable), s)) ∧
    ((prepare n).run.run s).2.host.calls =
      s.host.calls ++ [program :: lookUpWords n.serviceName] ∧
    ∀ command ready, (prepare n).run.run s = (.ok command, ready) →
      InPlace n s.host.LogsAt s.host.files ready.host.files := by
  refine ⟨fun failure last hrun => ?_, configure_eq n, fun hnot => ?_,
    (prepare_ends n s).1.calls, ?_⟩
  · have hprepare := prepare_ends n s
    rw [configure_eq] at hrun
    obtain ⟨-, hrequire⟩ | ⟨-, hrequire⟩ := n.requireName_cases
    case inr =>
      rw [hrequire] at hrun
      cases hrun
      exact ⟨nofun, nofun⟩
    rw [hrequire, run_bind] at hrun
    generalize (prepare n).run.run s = ended at hprepare hrun
    obtain ⟨result, ready⟩ := ended
    cases result with
    | error failure' =>
      cases hrun
      exact ⟨fun hfailure => ⟨hprepare.1, hprepare.2 failure rfl hfailure⟩, fun _ => hprepare.1⟩
    | ok command =>
      obtain ⟨-, hprecondition, hpreparation⟩ := (keeps_restart command).ran trivial hrun
      exact ⟨fun h => absurd (hprecondition.symm.trans h) Bool.false_ne_true,
        fun h => absurd (hpreparation.symm.trans h) Bool.false_ne_true⟩
  · obtain ⟨hnamed, -⟩ | ⟨-, hrequire⟩ := n.requireName_cases
    · exact absurd hnamed hnot
    · rw [configure_eq, hrequire]
      rfl
  · intro command ready hready
    exact ((spec_prepare n s hsound).ended rfl hready).2

/-! ## Two brief runs -/

/-- The first part comes to its end and leaves the plugin and the config in place. Without the
config the run fails, and nothing has changed. -/
theorem configure_precedence_brief :
    briefFiles.Sound ∧
    (∃ command ready, (prepare (briefNode (text "kubelet"))).run.run
        ⟨briefHost (text "kubelet"), [], []⟩ = (.ok command, ready) ∧
      ready.host.files.status (text "k/cni/a") = .ok (.file [1])) ∧
    ∃ failure last, (configure { briefNode (text "kubelet") with cniConfig := none }).run.run
        ⟨briefHost (text "kubelet"), [], []⟩ = (.error failure, last) ∧
      isPrecondition failure = true ∧ last.host.files.nodes = briefFiles.nodes := by
  have hsound : briefFiles.Sound := by decide
  refine ⟨hsound, ?_, ?_⟩
  · have hran : ((prepare (briefNode (text "kubelet"))).run.run
        ⟨briefHost (text "kubelet"), [], []⟩).1.isOk = true := by decide +kernel
    cases hrun : (prepare (briefNode (text "kubelet"))).run.run
        ⟨briefHost (text "kubelet"), [], []⟩ with
    | mk result ready =>
      rw [hrun] at hran
      cases result with
      | error failure => exact absurd hran Bool.false_ne_true
      | ok command =>
        obtain ⟨-, -, -, -, hplace⟩ := configure_precedence (briefNode (text "kubelet"))
          ⟨briefHost (text "kubelet"), [], []⟩ hsound
        refine ⟨command, ready, rfl, ?_⟩
        refine (hplace command ready hrun).plugins (text "p") (text "a") [1] rfl (by decide)
          (eq_ok_of_toOption (by decide)) ?_ ?_
        · rintro ⟨file, hfile, -⟩
          exact nomatch hfile
        · rintro ⟨file, hfile, -⟩
          exact nomatch hfile
  · have hran : (match ((configure { briefNode (text "kubelet") with cniConfig := none }).run.run
        ⟨briefHost (text "kubelet"), [], []⟩).1 with
      | .ok _ => false
      | .error failure => isPrecondition failure) = true := by decide +kernel
    cases hrun : (configure { briefNode (text "kubelet") with cniConfig := none }).run.run
        ⟨briefHost (text "kubelet"), [], []⟩ with
    | mk result last =>
      rw [hrun] at hran
      cases result with
      | ok _ => exact absurd hran Bool.false_ne_true
      | error failure =>
        obtain ⟨hfails, -⟩ := configure_precedence
          { briefNode (text "kubelet") with cniConfig := none }
          ⟨briefHost (text "kubelet"), [], []⟩ hsound
        exact ⟨failure, last, rfl, hran, ((hfails failure last hrun).1 hran).2⟩

end Cni

end NodeBootstrap
