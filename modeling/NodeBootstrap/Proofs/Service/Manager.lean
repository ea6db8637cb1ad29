import NodeBootstrap.Proofs.OrderedMap
import NodeBootstrap.Proofs.Service.Management
import NodeBootstrap.Proofs.Service.Output

/-!
# What the service manager does to a service

A service of a table is followed through the operations of the manager. A table `Serves` when it has
the service, in an entry as it is to be, and every run that it does not act on fails. What acts on
the service is a verb alone, so an operation that fails before it leaves the service as it was.
-/

set_option autoImplicit false

namespace NodeBootstrap

/-- A run that did not come to an end with the code zero. -/
def ProcessResult.Fails : ProcessResult → Prop
  | .finished code _ => code ≠ 0
  | _ => True

/-- A table with a service in an entry with `S`, where runs that it does not act on fail. When it is
to be `quiet`, it acts on every run. -/
structure ServiceTable.Serves (quiet : Prop) (name : Text) (S : ServiceEntry → Prop)
    (t : ServiceTable) : Prop where
  troubles : ∀ result, some result ∈ t.troubles → result.Fails
  faults : ∀ verb code output, t.faults.get? verb = some (code, output) → code ≠ 0
  acts : quiet → t.troubles = [] ∧ t.faults = []
  entry : ∃ entry, t.services.get? name = some entry ∧ S entry

/-- A control by a table that serves. -/
def ServiceControl.Serves (quiet : Prop) (name : Text) (S : ServiceEntry → Prop)
    (control : ServiceControl) : Prop :=
  ∃ t, control = .table t ∧ t.Serves quiet name S

/-- What a verb comes to: from entries with `S`, a code that is allowed, an output and an entry with
`A`. -/
def ServiceTable.Acts (verb name : Text) (arguments : List Text) (allowed : List Int)
    (S : ServiceEntry → Prop) (A : Int → Text → ServiceEntry → Prop) : Prop :=
  ∀ (t : ServiceTable) (entry : ServiceEntry), t.services.get? name = some entry → S entry →
    ∃ code output t' entry', t.act verb name entry arguments = (.finished code output, t') ∧
      (code = 0 ∨ code ∈ allowed) ∧ t'.troubles = t.troubles ∧ t'.faults = t.faults ∧
        t'.services.get? name = some entry' ∧ A code (Text.stripped output) entry'

variable {quiet : Prop} {name verb : Text} {S : ServiceEntry → Prop}
  {A : Int → Text → ServiceEntry → Prop} {arguments : List Text} {allowed : List Int}

/-- A run acts on the service, or it fails and the service is as it was. Where the table acts on
every run, only a word that is not taken makes one fail. -/
def ProcessResult.Comes (quiet : Prop) (name : Text) (S : ServiceEntry → Prop)
    (A : Int → Text → ServiceEntry → Prop) (allowed : List Int) (result : ProcessResult)
    (control : ServiceControl) : Prop :=
  (∃ code output, result = .finished code output ∧ (code = 0 ∨ code ∈ allowed) ∧
    control.Serves quiet name (A code (Text.stripped output))) ∨
  (result.Fails ∧ (quiet → result = .broken) ∧ control.Serves quiet name S)

namespace ServiceTable

theorem Serves.answer {t : ServiceTable} (h : t.Serves quiet name S) (hverb : verb ≠ text "create")
    (hacts : Acts verb name arguments allowed S A) :
    (t.answer verb name arguments).1.Comes quiet name S A allowed
      (.table (t.answer verb name arguments).2) := by
  obtain ⟨entry, hentry, hS⟩ := h.entry
  cases hfault : t.faults.get? verb with
  | some fault =>
    obtain ⟨code, output⟩ := fault
    rw [ServiceTable.answer, hfault]
    refine .inr ⟨h.faults verb code output hfault, fun hquiet => ?_, t, rfl, h⟩
    rw [(h.acts hquiet).2] at hfault
    exact nomatch hfault
  | none =>
    obtain ⟨code, output, t', entry', hact, hallowed, htroubles, hfaults, hentry', hA⟩ :=
      hacts t entry hentry hS
    rw [ServiceTable.answer, hfault]
    dsimp only
    rw [if_neg hverb, hentry]
    dsimp only
    rw [hact]
    refine .inl ⟨code, output, rfl, hallowed, t', rfl, ?_, ?_, ?_, entry', hentry', hA⟩
    · rw [htroubles]
      exact h.troubles
    · rw [hfaults]
      exact h.faults
    · rw [htroubles, hfaults]
      exact h.acts

/-- Behind what a run comes to for another reason the table is as it was. -/
theorem Serves.rest {t : ServiceTable} {trouble : Option ProcessResult}
    {troubles : List (Option ProcessResult)} (h : t.Serves quiet name S)
    (htroubles : t.troubles = trouble :: troubles) :
    { t with troubles := troubles }.Serves quiet name S where
  troubles result hmem := h.troubles result (htroubles ▸ List.mem_cons_of_mem _ hmem)
  faults := h.faults
  acts hquiet := nomatch htroubles.symm.trans (h.acts hquiet).1
  entry := h.entry

end ServiceTable

theorem ServiceControl.Serves.mono {control : ServiceControl} {S' : ServiceEntry → Prop}
    (h : control.Serves quiet name S) (hS : ∀ entry, S entry → S' entry) :
    control.Serves quiet name S' := by
  obtain ⟨t, rfl, ht⟩ := h
  obtain ⟨entry, hentry, hentryS⟩ := ht.entry
  exact ⟨t, rfl, ht.troubles, ht.faults, ht.acts, entry, hentry, hS entry hentryS⟩

/-- What a run of the program comes to. -/
theorem ServiceControl.Serves.run {control : ServiceControl} (h : control.Serves quiet name S)
    (hverb : verb ≠ text "create") (hacts : ServiceTable.Acts verb name arguments allowed S A) :
    (control.run (verb :: name :: arguments)).1.Comes quiet name S A allowed
      (control.run (verb :: name :: arguments)).2 := by
  obtain ⟨t, rfl, ht⟩ := h
  refine ServiceTable.run_cases
    (D := fun ran => ran.1.Comes quiet name S A allowed (.table ran.2)) ht (fun _ _ => ht.rest)
    (fun _ t' ht' => ht'.answer hverb hacts) (fun result troubles htroubles => ?_)
    fun _ t' ht' => ?_
  · refine .inr ⟨ht.troubles result (htroubles ▸ List.mem_cons_self), fun hquiet => ?_, _, rfl,
      ht.rest htroubles⟩
    exact nomatch htroubles.symm.trans (ht.acts hquiet).1
  · exact .inr ⟨trivial, fun _ => rfl, t', rfl, ht'⟩

namespace ServiceManager

variable {P E : FileTree → Prop} {m : ServiceManager}

/-- Running the program acts on the service or fails, or comes to a code that is allowed. -/
theorem spec_run (hverb : verb ≠ text "create")
    (hacts : ServiceTable.Acts verb name arguments allowed S A) :
    Spec (Host.On P (·.Serves quiet name S)) (m.run (verb :: name :: arguments) allowed)
      (fun answer => Host.On P (·.Serves quiet name fun entry => A answer.1 answer.2 entry ∨
        (¬ quiet ∧ answer.1 ≠ 0 ∧ answer.1 ∈ allowed ∧ S entry)))
      (Host.On P (·.Serves quiet name S)) := by
  unfold ServiceManager.run
  split
  next => exact spec_throw _ fun _ h => h
  refine spec_bind (spec_runControl fun control h => h.run hverb hacts) ?_
  intro result
  rintro host ⟨hfile, hfiles, hcomes⟩
  rcases hcomes with ⟨code, output, rfl, hallowed, hserves⟩ | ⟨hfails, hbroken, hserves⟩
  · have hcode : ¬ (code ≠ 0 ∧ code ∉ allowed) := by
      rintro ⟨hzero, hnot⟩
      exact hallowed.elim hzero hnot
    dsimp only
    rw [if_neg hcode]
    exact ⟨hfile, hfiles, hserves.mono fun _ h => .inl h⟩
  · cases result with
    | finished code output =>
      dsimp only
      split
      next => exact ⟨hfile, hfiles, hserves⟩
      next hcode =>
        have hmem : code ∈ allowed := Decidable.of_not_not fun hnot => hcode ⟨hfails, hnot⟩
        have hquiet : ¬ quiet := fun hquiet => nomatch hbroken hquiet
        exact ⟨hfile, hfiles, hserves.mono fun _ h => .inr ⟨hquiet, hfails, hmem, h⟩⟩
    | timedOut => exact ⟨hfile, hfiles, hserves⟩
    | noProgram => exact ⟨hfile, hfiles, hserves⟩
    | broken => exact ⟨hfile, hfiles, hserves⟩

/-! ## What the verbs do -/

theorem acts_qc (allowed : List Int) (S : ServiceEntry → Prop) :
    ServiceTable.Acts (text "qc") name arguments allowed S fun code output entry =>
      code = 0 ∧ output = Text.stripped (ServiceTable.configText name entry.command) ∧ S entry := by
  intro t entry hentry hS
  exact ⟨0, _, t, entry, rfl, .inl rfl, rfl, rfl, hentry, rfl, rfl, hS⟩

theorem acts_query (allowed : List Int) (S : ServiceEntry → Prop) :
    ServiceTable.Acts (text "query") name arguments allowed S fun _ _ entry => S entry := by
  intro t entry hentry hS
  have hact : t.act (text "query") name entry arguments =
      if 0 < t.pendingLeft then
        (.finished 0 (ServiceTable.stateText name (ServiceState.onTheWay entry.state)),
          { t with pendingLeft := t.pendingLeft - 1 })
      else (.finished 0 (ServiceTable.stateText name entry.state), t) := rfl
  rw [hact]
  split
  next => exact ⟨0, _, _, entry, rfl, .inl rfl, rfl, rfl, hentry, hS⟩
  next => exact ⟨0, _, t, entry, rfl, .inl rfl, rfl, rfl, hentry, hS⟩

theorem acts_config (command : Text) (allowed : List Int) (S : ServiceEntry → Prop) :
    ServiceTable.Acts (text "config") name [text "binPath=", command] allowed S
      fun _ _ entry => ∃ before, S before ∧ entry = { before with command := command } := by
  intro t entry hentry hS
  refine ⟨0, _, _, { entry with command := command }, rfl, .inl rfl, rfl, rfl, ?_, entry, hS, rfl⟩
  exact OrderedMap.get?_set_self t.services name _

/-- A verb that brings the service to a state, or finds it there. -/
theorem acts_bring {state : Text} {already : Int} (S : ServiceEntry → Prop)
    (hact : ∀ (t : ServiceTable) (entry : ServiceEntry),
      t.act verb name entry arguments = t.bring name entry state already) :
    ServiceTable.Acts verb name arguments [already] S
      fun _ _ entry => ∃ before, S before ∧ entry = { before with state := state } := by
  intro t entry hentry hS
  rw [hact, ServiceTable.bring]
  split
  next hstate =>
    exact ⟨already, _, t, entry, rfl, .inr (List.mem_singleton.mpr rfl), rfl, rfl, hentry, entry,
      hS, by rw [← hstate]⟩
  next =>
    exact ⟨0, _, _, { entry with state := state }, rfl, .inl rfl, rfl, rfl,
      OrderedMap.get?_set_self t.services name _, entry, hS, rfl⟩

/-! ## The operations -/

/-- A service that is looked up stays as it is, and what is found is its start command. -/
theorem spec_startCommand? (hname : ServiceOutput.Unlabelled name)
    (hS : ∀ entry, S entry → ServiceOutput.newline ∉ entry.command) :
    Spec (Host.On P (·.Serves quiet name S)) (m.startCommand? name)
      (fun found => Host.On P (·.Serves quiet name fun entry =>
        S entry ∧ ∀ command, found = some command → command = Text.stripped entry.command))
      (Host.On P (·.Serves quiet name S)) := by
  refine spec_bind (spec_run (by decide) (acts_qc _ S)) ?_
  intro answer
  obtain ⟨code, output⟩ := answer
  rintro host ⟨hfile, hfiles, hserves⟩
  have hnone : host.On P (·.Serves quiet name S) :=
    ⟨hfile, hfiles, hserves.mono fun _ h => h.elim (·.2.2) (·.2.2.2)⟩
  dsimp only
  split
  next => exact ⟨hfile, hfiles, hnone.control.mono fun _ h => ⟨h, nofun⟩⟩
  next hcode =>
    split
    next command hcommand =>
      refine ⟨hfile, hfiles, hserves.mono ?_⟩
      rintro entry (⟨-, houtput, hentry⟩ | ⟨-, -, hmem, -⟩)
      · refine ⟨hentry, ?_⟩
        rintro _ ⟨⟩
        dsimp only at houtput
        rw [houtput, ServiceOutput.startCommand?_configText hname (hS entry hentry)] at hcommand
        exact (Option.some.inj hcommand).symm
      · exact absurd (List.mem_singleton.mp hmem) hcode
    next => exact hnone

/-- Another start command is given, or nothing is changed. -/
theorem spec_setStartCommand (command : Text) :
    Spec (Host.On P (·.Serves quiet name S)) (m.setStartCommand name command)
      (fun _ => Host.On P (·.Serves quiet name fun entry =>
        ∃ before, S before ∧ entry = { before with command := command }))
      (Host.On P (·.Serves quiet name S)) := by
  refine spec_bind (spec_log _ _) fun _ => ?_
  refine spec_bind (spec_run (by decide) (acts_config command _ S)) ?_
  intro answer
  refine spec_pure _ fun host hhost => ⟨hhost.file, hhost.files, hhost.control.mono ?_⟩
  rintro entry (h | ⟨-, -, hmem, -⟩)
  · exact h
  · exact absurd hmem List.not_mem_nil

theorem spec_queryState :
    Spec (Host.On P (·.Serves quiet name S)) (m.queryState name)
      (fun _ => Host.On P (·.Serves quiet name S)) (Host.On P (·.Serves quiet name S)) := by
  refine spec_bind (spec_run (by decide) (acts_query _ S)) ?_
  intro answer
  obtain ⟨code, output⟩ := answer
  rintro host ⟨hfile, hfiles, hserves⟩
  have hend : host.On P (·.Serves quiet name S) :=
    ⟨hfile, hfiles, hserves.mono fun _ h => h.elim id (·.2.2.2)⟩
  dsimp only
  cases ServiceOutput.state? output with
  | some state => exact hend
  | none => exact hend

/-- Waiting for a state changes nothing. -/
theorem spec_waitFor (state : Text) (tries : Int) (left : Nat) :
    Spec (Host.On P (·.Serves quiet name S)) (m.waitFor name state tries left)
      (fun _ => Host.On P (·.Serves quiet name S)) (Host.On P (·.Serves quiet name S)) := by
  induction left with
  | zero => exact spec_throw _ fun _ h => h
  | succ left ih =>
    refine spec_bind spec_queryState ?_
    intro current
    split
    next => exact spec_pure _ fun _ h => h
    next =>
      refine spec_bind (spec_log _ _) fun _ => ?_
      exact spec_bind (spec_sleep _) fun _ => ih

theorem spec_waitForState (state : Text) :
    Spec (Host.On P (·.Serves quiet name S)) (m.waitForState name state)
      (fun _ => Host.On P (·.Serves quiet name S)) (Host.On P (·.Serves quiet name S)) := by
  unfold waitForState
  split
  next => exact spec_throw _ fun _ h => h
  next => exact spec_waitFor state _ _

/-- A service is brought to a state by a verb and waited for; if anything fails, it may have been
brought there or not. -/
theorem spec_bring {state : Text} {already : Int} (level : LogLevel) (message : Text)
    (hverb : verb ≠ text "create")
    (hact : ∀ (t : ServiceTable) (entry : ServiceEntry),
      t.act verb name entry [] = t.bring name entry state already)
    (hS : ∀ entry, S entry → S { entry with state := state }) :
    Spec (Host.On P (·.Serves quiet name S))
      (do
        Host.log level message
        let _ ← m.run [verb, name] [already]
        m.waitForState name state)
      (fun _ => Host.On P (·.Serves quiet name fun entry =>
        S entry ∧ (quiet → entry.state = state)))
      (Host.On P (·.Serves quiet name S)) := by
  refine spec_bind (spec_log _ _) fun _ => ?_
  refine spec_bind (spec_run hverb (acts_bring S hact)) ?_
  intro answer
  refine (spec_waitForState state).weaken ?_ (fun _ _ h => h) ?_
  · intro host hhost
    refine ⟨hhost.file, hhost.files, hhost.control.mono ?_⟩
    rintro entry (⟨before, hbefore, rfl⟩ | ⟨hquiet, -, -, hentry⟩)
    · exact ⟨hS before hbefore, fun _ => rfl⟩
    · exact ⟨hentry, fun h => absurd h hquiet⟩
  · intro host hhost
    exact ⟨hhost.file, hhost.files, hhost.control.mono fun _ h => h.1⟩

/-- A service that is started runs, and has its start command. -/
theorem spec_start (hS : ∀ entry, S entry → S { entry with state := ServiceState.running }) :
    Spec (Host.On P (·.Serves quiet name S)) (m.start name)
      (fun _ => Host.On P (·.Serves quiet name fun entry =>
        S entry ∧ (quiet → entry.state = ServiceState.running)))
      (Host.On P (·.Serves quiet name S)) :=
  spec_bring .info _ (by decide) (fun _ _ => rfl) hS

theorem spec_stop (hS : ∀ entry, S entry → S { entry with state := ServiceState.stopped }) :
    Spec (Host.On P (·.Serves quiet name S)) (m.stop name)
      (fun _ => Host.On P (·.Serves quiet name fun entry =>
        S entry ∧ (quiet → entry.state = ServiceState.stopped)))
      (Host.On P (·.Serves quiet name S)) :=
  spec_bring .info _ (by decide) (fun _ _ => rfl) hS

end ServiceManager

end NodeBootstrap
