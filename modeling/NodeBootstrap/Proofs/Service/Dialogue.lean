import NodeBootstrap.Proofs.Step
import NodeBootstrap.Service.Manager

/-!
# What is said to the service control program

A step runs the service control program a number of times; the words of the runs and what they came
to are its dialogue. `Tells view step Q E` says that whatever the program answers, the step ends
with a value and a dialogue in `Q`, or fails with a dialogue in `E`. Of the dialogue the words are
those that the host has recorded, and the answers those of the control that the host had before.

Steps that only read and write files or log are silent: their dialogue is empty.
-/

set_option autoImplicit false

namespace NodeBootstrap

/-- Runs of the program, each by its words and what it came to. -/
abbrev Dialogue := List (List Text × ProcessResult)

/-- The answers in a dialogue are those of a control, which is another behind it. -/
inductive ServiceControl.Answers : ServiceControl → Dialogue → ServiceControl → Prop
  | nil (control : ServiceControl) : Answers control [] control
  | cons {control last : ServiceControl} {words : List Text} {d : Dialogue}
    (rest : Answers (control.run words).2 d last) :
    Answers control ((words, (control.run words).1) :: d) last

/-- A host on which a dialogue has come since another. -/
structure Host.Said (first : Host) (d : Dialogue) (h : Host) : Prop where
  calls : h.calls = first.calls ++ d.map fun e => ServiceManager.program :: e.1
  answers : first.control.Answers d h.control

/-- A host on which a dialogue has come since another, and no endpoint was asked. The clock is that
of before. -/
structure Host.Told (first : Host) (d : Dialogue) (h : Host) : Prop extends first.Said d h where
  responses : h.responses = first.responses
  clock : h.clock = first.clock

theorem ServiceControl.Answers.append {first middle last : ServiceControl} {d e : Dialogue}
    (h : first.Answers d middle) (h' : middle.Answers e last) : first.Answers (d ++ e) last := by
  induction h with
  | nil => exact h'
  | cons _ ih => exact .cons (ih h')

theorem Host.Told.refl (h : Host) : h.Told [] h :=
  ⟨⟨(List.append_nil _).symm, .nil _⟩, rfl, rfl⟩

theorem Host.Said.trans {first middle last : Host} {d e : Dialogue} (h : first.Said d middle)
    (h' : middle.Said e last) : first.Said (d ++ e) last := by
  refine ⟨?_, h.answers.append h'.answers⟩
  rw [h'.calls, h.calls, List.map_append, List.append_assoc]

theorem Host.Told.trans {first middle last : Host} {d e : Dialogue} (h : first.Told d middle)
    (h' : middle.Told e last) : first.Told (d ++ e) last :=
  ⟨h.toSaid.trans h'.toSaid, h'.responses.trans h.responses, h'.clock.trans h.clock⟩

theorem Host.Said.kept {first h h' : Host} {d : Dialogue} (hd : first.Said d h)
    (hcalls : h'.calls = h.calls) (hcontrol : h'.control = h.control) : first.Said d h' :=
  ⟨hcalls.trans hd.calls, hcontrol ▸ hd.answers⟩

/-- A log line is no part of a dialogue, and no answer. -/
theorem Host.logged_kept (h : Host) (level : LogLevel) (message : Text) :
    (h.logged level message).calls = h.calls ∧ (h.logged level message).control = h.control ∧
      (h.logged level message).responses = h.responses ∧
        (h.logged level message).clock = h.clock := by
  unfold Host.logged
  split <;> exact ⟨rfl, rfl, rfl, rfl⟩

/-- Nor is it a pause or a request. -/
theorem Host.logged_record (h : Host) (level : LogLevel) (message : Text) :
    (h.logged level message).sleeps = h.sleeps ∧
      (h.logged level message).requests = h.requests ∧
        (h.logged level message).deeds = h.deeds := by
  unfold Host.logged
  split <;> exact ⟨rfl, rfl, rfl⟩

theorem Host.run_log (level : LogLevel) (message : Text) (h : Host) :
    (Host.log level message).run.run h = (.ok ⟨⟩, h.logged level message) := rfl

/-- A pause whose length the clock takes is made. -/
theorem Host.run_sleep {h : Host} {length : Value} (hclock : h.clock.refusal? length = none) :
    (Host.sleep length).run.run h = (.ok ⟨⟩, h.paused length) := by
  rw [Host.sleep, run_get_bind, hclock]
  rfl

/-- One whose length the clock refuses is not. -/
theorem Host.run_sleep_refused {h : Host} {length : Value} {failure : Failure}
    (hclock : h.clock.refusal? length = some failure) :
    (Host.sleep length).run.run h = (.error failure, h) := by
  rw [Host.sleep, run_get_bind, hclock]
  rfl

/-! ## Dialogues of steps -/

/-- A step has a dialogue in `Q` with its value, or fails with one in `E`; `view` is the host in the
state. -/
def Tells {σ α : Type} (view : σ → Host) (step : ExceptT Failure (StateM σ) α)
    (Q : α → Dialogue → Prop) (E : Dialogue → Prop) : Prop :=
  ∀ s, Ends (fun a s' => ∃ d, (view s).Told d (view s') ∧ Q a d)
    (fun s' => ∃ d, (view s).Told d (view s') ∧ E d) (step.run.run s)

/-- A step that does not run the program. -/
def Silent {σ α : Type} (view : σ → Host) (step : ExceptT Failure (StateM σ) α) : Prop :=
  ∀ (first : Host) (d : Dialogue), Spec (fun s => first.Told d (view s)) step
    (fun _ s => first.Told d (view s)) fun s => first.Told d (view s)

section Rules

variable {σ α β : Type} {view : σ → Host} {step : ExceptT Failure (StateM σ) α}
  {Q : α → Dialogue → Prop} {R : β → Dialogue → Prop} {E F : Dialogue → Prop}

theorem Tells.weaken {Q' : α → Dialogue → Prop} (h : Tells view step Q F)
    (hQ : ∀ a d, Q a d → Q' a d) (hE : ∀ d, F d → E d) : Tells view step Q' E := fun s =>
  (h s).mono (fun a _ ⟨d, hd, ha⟩ => ⟨d, hd, hQ a d ha⟩) fun _ ⟨d, hd, he⟩ => ⟨d, hd, hE d he⟩

/-- Behind a dialogue a step goes on with its own. -/
theorem Tells.spec (h : Tells view step Q E) (first : Host) (d : Dialogue) :
    Spec (fun s => first.Told d (view s)) step
      (fun a s => ∃ e, first.Told (d ++ e) (view s) ∧ Q a e)
      fun s => ∃ e, first.Told (d ++ e) (view s) ∧ E e := fun s hs =>
  (h s).mono (fun _ _ ⟨e, he, ha⟩ => ⟨e, hs.trans he, ha⟩) fun _ ⟨e, he, hE⟩ => ⟨e, hs.trans he, hE⟩

/-- The dialogue of a step is followed by that of the next. -/
theorem tells_bind {f : α → ExceptT Failure (StateM σ) β} (hstep : Tells view step Q F)
    (hE : ∀ d, F d → E d)
    (hf : ∀ a d, Q a d → Tells view (f a) (fun b e => R b (d ++ e)) fun e => E (d ++ e)) :
    Tells view (step >>= f) R E := by
  intro s
  have hend := hstep s
  rw [run_bind]
  generalize step.run.run s = result at hend ⊢
  obtain ⟨result, s'⟩ := result
  cases result with
  | ok a =>
    obtain ⟨d, hd, ha⟩ := hend
    exact (hf a d ha s').mono (fun b _ ⟨e, he, hb⟩ => ⟨d ++ e, hd.trans he, hb⟩)
      fun _ ⟨e, he, hb⟩ => ⟨d ++ e, hd.trans he, hb⟩
  | error failure =>
    obtain ⟨d, hd, ha⟩ := hend
    exact ⟨d, hd, hE d ha⟩

theorem tells_pure (a : α) (h : Q a []) : Tells view (pure a) Q E :=
  fun _ => ⟨[], .refl _, h⟩

theorem tells_throw (failure : Failure) (h : E []) : Tells view (throw failure) Q E :=
  fun _ => ⟨[], .refl _, h⟩

theorem Silent.tells (h : Silent view step) :
    Tells view step (fun _ d => d = []) fun d => d = [] := fun s =>
  (h (view s) [] s (.refl _)).mono (fun _ _ hs => ⟨[], hs, rfl⟩) fun _ hs => ⟨[], hs, rfl⟩

/-- What follows a silent step tells all there is to tell. -/
theorem tells_after {f : α → ExceptT Failure (StateM σ) β} (hstep : Silent view step) (hE : E [])
    (hf : ∀ a, Tells view (f a) R E) : Tells view (step >>= f) R E := by
  refine tells_bind hstep.tells ?_ ?_
  · rintro _ rfl
    exact hE
  · rintro a _ rfl
    exact hf a

theorem silent_bind {f : α → ExceptT Failure (StateM σ) β} (hstep : Silent view step)
    (hf : ∀ a, Silent view (f a)) : Silent view (step >>= f) := fun first d =>
  spec_bind (hstep first d) fun a => hf a first d

theorem silent_pure (a : α) : Silent view (pure a) := fun _ _ => spec_pure _ fun _ hs => hs

theorem silent_throw (failure : Failure) : Silent view (throw failure : ExceptT _ _ α) :=
  fun _ _ => spec_throw _ fun _ hs => hs

theorem silent_get : Silent view (get : ExceptT Failure (StateM σ) σ) := fun _ _ =>
  spec_get.ending fun _ _ hs => hs.2

theorem silent_modify {f : σ → σ} (h : ∀ s, (view (f s)).calls = (view s).calls ∧
    (view (f s)).control = (view s).control ∧ (view (f s)).responses = (view s).responses ∧
      (view (f s)).clock = (view s).clock) :
    Silent view (modify f : ExceptT Failure (StateM σ) PUnit) := fun first d =>
  spec_modify _ fun s hs => by
    obtain ⟨hcalls, hcontrol, hresponses, hclock⟩ := h s
    exact ⟨hs.toSaid.kept hcalls hcontrol, hresponses.trans hs.responses, hclock.trans hs.clock⟩

/-- Refusing to go on is silent. -/
theorem silent_unless {c : Prop} [Decidable c] {failure : Failure}
    {next : PUnit → ExceptT Failure (StateM σ) α} (hnext : Silent view (next ⟨⟩)) :
    Silent view (if c then (throw failure >>= next) else next ⟨⟩) := by
  split
  next => exact silent_bind (silent_throw failure) fun _ => hnext
  next => exact hnext

theorem silent_forIn {items : List β}
    {body : β → PUnit → ExceptT Failure (StateM σ) (ForInStep PUnit)}
    (hbody : ∀ item, Silent view (body item ⟨⟩)) : Silent view (forIn items PUnit.unit body) := by
  induction items with
  | nil => exact silent_pure _
  | cons item items ih =>
    rw [List.forIn_cons]
    refine silent_bind (hbody item) fun next => ?_
    cases next with
    | done => exact silent_pure _
    | yield => exact ih

end Rules

section Host

variable {α : Type} {Q : α → Dialogue → Prop} {E : Dialogue → Prop}

/-- A step on the host tells on the node what it tells on the host. -/
theorem tells_ofHost {step : HostStep α} (h : Tells id step Q E) :
    Tells NodeState.host (NodeStep.ofHost step) Q E := fun s =>
  spec_ofHost_ends (P := fun s' => s' = s) (fun _ hs => hs ▸ h s.host) s rfl

theorem silent_ofHost {step : HostStep α} (h : Silent id step) :
    Silent NodeState.host (NodeStep.ofHost step) := fun first d =>
  spec_ofHost_ends fun s hs => h first d s.host hs

theorem silent_log (level : LogLevel) (message : Text) : Silent id (Host.log level message) :=
  silent_modify fun h => h.logged_kept level message

/-- Logging never fails. -/
theorem tells_log (level : LogLevel) (message : Text) :
    Tells id (Host.log level message) (fun _ d => d = []) E := fun h =>
  ⟨[], (silent_log level message h [] h (.refl h) : h.Told [] (h.logged level message)), rfl⟩

theorem tells_afterLog {β : Type} {R : β → Dialogue → Prop} (level : LogLevel) (message : Text)
    {f : PUnit → HostStep β} (hf : Tells id (f ⟨⟩) R E) :
    Tells id (Host.log level message >>= f) R E := by
  refine tells_bind (F := fun _ => False) (tells_log level message) nofun ?_
  rintro _ _ rfl
  exact hf

theorem silent_sleep (length : Value) : Silent id (Host.sleep length) := by
  intro first d
  refine spec_bind spec_get fun h => ?_
  rintro _ ⟨rfl, hs⟩
  cases h.clock.refusal? length with
  | none => exact ⟨hs.toSaid.kept rfl rfl, hs.responses, hs.clock⟩
  | some failure => exact hs

theorem silent_onFiles (area : FileFault → Failure) (step : FileStep α) :
    Silent id (Host.onFiles area step) := fun first d =>
  spec_onFiles_ends fun host hs => by
    have hkept : ∀ files, first.Told d { host with files } := fun _ =>
      ⟨hs.toSaid.kept rfl rfl, hs.responses, hs.clock⟩
    generalize step.run.run host.files = result
    obtain ⟨result, files⟩ := result
    cases result with
    | ok a => exact hkept files
    | error fault => exact hkept files

theorem tells_runControl (words : List Text) :
    Tells id (Host.runControl ServiceManager.program words)
      (fun result d => d = [(words, result)]) E := fun h =>
  ⟨[(words, (h.control.run words).1)], ⟨⟨rfl, .cons (.nil _)⟩, rfl, rfl⟩, rfl⟩

end Host

/-! ## Asking a number of times -/

/-- There is one number that is the first with a property. -/
theorem first_unique {p : Nat → Prop} {i k : Nat} (hi : p i) (hbefore : ∀ j < i, ¬ p j) (hk : p k)
    (hbefore' : ∀ j < k, ¬ p j) : i = k := by
  apply Nat.le_antisymm
  · exact Nat.not_lt.mp fun hlt => hbefore k hlt hk
  · exact Nat.not_lt.mp fun hlt => hbefore' i hlt hi

/-- How often a setting lets something be tried; one that does not count allows nothing. -/
def Value.limit (tries : Value) : Nat := tries.asCount?.elim 0 Int.toNat

/-! ## What answers say -/

namespace ProcessResult

/-- The run came to its end with the code zero or one that is allowed. -/
def Accepted (allowed : List Int) (result : ProcessResult) : Prop :=
  ∃ code output, result = .finished code output ∧ (code = 0 ∨ code ∈ allowed)

/-- A query that reports a state. -/
def Reports (state : Text) (result : ProcessResult) : Prop :=
  ∃ output, result = .finished 0 output ∧ ServiceOutput.state? (Text.stripped output) = some state

/-- A look-up that reports a start command. -/
def Prints (command : Text) (result : ProcessResult) : Prop :=
  ∃ output, result = .finished 0 output ∧
    ServiceOutput.startCommand? (Text.stripped output) = some command

variable {state state' : Text} {result : ProcessResult}

/-- No more than one state is reported. -/
theorem Reports.unique (h : result.Reports state) (h' : result.Reports state') :
    state = state' := by
  obtain ⟨output, rfl, hstate⟩ := h
  obtain ⟨_, heq, hstate'⟩ := h'
  cases heq
  exact Option.some.inj (hstate.symm.trans hstate')

end ProcessResult

/-- Queries that go on until a state is reported: the last reports it and those before others. -/
inductive Reaches (state : Text) : List ProcessResult → Prop
  | last {result : ProcessResult} (h : result.Reports state) : Reaches state [result]
  | next {result : ProcessResult} {others : List ProcessResult} {current : Text}
    (h : result.Reports current) (hne : current ≠ state) (hothers : Reaches state others) :
    Reaches state (result :: others)

theorem Reaches.split {state : Text} {results : List ProcessResult} (h : Reaches state results) :
    ∃ before last, results = before ++ [last] ∧ last.Reports state ∧
      ∀ result ∈ before, ¬ result.Reports state := by
  induction h with
  | last h => exact ⟨[], _, rfl, h, nofun⟩
  | @next result others current h hne _ ih =>
    obtain ⟨before, last, rfl, hlast, hbefore⟩ := ih
    refine ⟨result :: before, last, rfl, hlast, List.forall_mem_cons.mpr ⟨?_, hbefore⟩⟩
    exact fun h' => hne (h.unique h')

theorem Reaches.length_pos {state : Text} {results : List ProcessResult}
    (h : Reaches state results) : 1 ≤ results.length := by
  cases h <;> exact Nat.le_add_left ..

theorem Reaches.accepted {state : Text} {results : List ProcessResult} (h : Reaches state results) :
    ∀ result ∈ results, ∃ output, result = .finished 0 output := by
  induction h with
  | last h => exact List.forall_mem_singleton.mpr (h.imp fun _ => And.left)
  | next h _ _ ih => exact List.forall_mem_cons.mpr ⟨h.imp fun _ => And.left, ih⟩

/-! ## The operations of the manager -/

namespace ServiceManager

variable {m : ServiceManager} {name : Text}

/-- How often a state is asked for at most. -/
def limit (m : ServiceManager) : Nat := m.tries.limit

def lookUpWords (name : Text) : List Text := [text "qc", name, configRoom]

def queryWords (name : Text) : List Text := [text "query", name]

def stopWords (name : Text) : List Text := [text "stop", name]

def startWords (name : Text) : List Text := [text "start", name]

def changeWords (name command : Text) : List Text := [text "config", name, text "binPath=", command]

def createWords (name command shown : Text) : List Text :=
  [text "create", name, text "binPath=", command, text "start=", text "auto", text "DisplayName=",
    shown]

def descriptionWords (name description : Text) : List Text :=
  [text "description", name, description]

/-- Queries with their answers. -/
def queries (name : Text) (results : List ProcessResult) : Dialogue :=
  results.map fun result => (queryWords name, result)

theorem tells_run (hm : m.connected = true) (words : List Text) (allowed : List Int) :
    Tells id (m.run words allowed)
      (fun answer d => ∃ output, d = [(words, .finished answer.1 output)] ∧
        answer.2 = Text.stripped output ∧ (answer.1 = 0 ∨ answer.1 ∈ allowed))
      fun d => ∃ result, d = [(words, result)] ∧ ¬ result.Accepted allowed := by
  unfold ServiceManager.run
  rw [hm]
  refine tells_bind (F := fun _ => False) (tells_runControl words) nofun fun result d hd => ?_
  cases hd
  have hfails : ∀ failure, ¬ result.Accepted allowed →
      Tells id (throw failure : HostStep (Int × Text))
        (fun answer e => ∃ output, [(words, result)] ++ e = [(words, .finished answer.1 output)] ∧
          answer.2 = Text.stripped output ∧ (answer.1 = 0 ∨ answer.1 ∈ allowed))
        fun e => ∃ result', [(words, result)] ++ e = [(words, result')] ∧
          ¬ result'.Accepted allowed :=
    fun failure hnot => tells_throw failure ⟨result, rfl, hnot⟩
  cases result with
  | finished code output =>
    dsimp only
    split
    next hcode =>
      refine hfails _ ?_
      rintro ⟨_, _, heq, hallowed⟩
      cases heq
      exact hallowed.elim hcode.1 hcode.2
    next hcode =>
      refine tells_pure _ ⟨output, rfl, rfl, ?_⟩
      exact Decidable.or_iff_not_imp_left.mpr fun hzero =>
        Decidable.of_not_not fun hnot => hcode ⟨hzero, hnot⟩
  | timedOut => exact hfails _ nofun
  | noProgram => exact hfails _ nofun
  | broken => exact hfails _ nofun

/-- A service is looked up by one run, and the command is the one that the run reports; if there is
none, the run reports that there is no such service. -/
theorem tells_startCommand? (hm : m.connected = true) :
    Tells id (m.startCommand? name)
      (fun found d => ∃ result, d = [(lookUpWords name, result)] ∧
        (∀ command, found = some command → result.Prints command) ∧
          (found = none → ∃ output, result = .finished doesNotExist output))
      fun d => ∃ result, d = [(lookUpWords name, result)] := by
  refine tells_bind (tells_run hm _ _) (fun d ⟨result, hd, _⟩ => ⟨result, hd⟩) ?_
  rintro ⟨code, output⟩ _ ⟨printed, rfl, houtput, hallowed⟩
  dsimp only
  split
  next hcode => exact tells_pure _ ⟨_, rfl, nofun, fun _ => ⟨printed, by rw [← hcode]⟩⟩
  next hcode =>
    have hzero : code = 0 := hallowed.resolve_right fun hmem => hcode (List.mem_singleton.mp hmem)
    split
    next command hcommand =>
      refine tells_pure _ ⟨_, rfl, ?_, nofun⟩
      rintro _ ⟨⟩
      exact ⟨printed, by rw [hzero], houtput ▸ hcommand⟩
    next => exact tells_throw _ ⟨_, rfl⟩

/-- Whether a service exists is what the run reports. -/
theorem tells_exists? (hm : m.connected = true) :
    Tells id (m.exists? name)
      (fun found d => ∃ result, d = [(lookUpWords name, result)] ∧
        (found = true → ∃ command, result.Prints command) ∧
          (found = false → ∃ output, result = .finished doesNotExist output))
      fun d => ∃ result, d = [(lookUpWords name, result)] := by
  refine tells_bind (tells_startCommand? hm) (fun _ h => h) ?_
  rintro found _ ⟨result, rfl, hprints, hnone⟩
  refine tells_pure _ ⟨result, rfl, ?_, ?_⟩
  · intro hsome
    obtain ⟨command, hcommand⟩ := Option.isSome_iff_exists.mp hsome
    exact ⟨command, hprints command hcommand⟩
  · intro hnot
    exact hnone (Option.not_isSome_iff_eq_none.mp (Bool.eq_false_iff.mp hnot))

theorem tells_setStartCommand (hm : m.connected = true) (command : Text) :
    Tells id (m.setStartCommand name command)
      (fun _ d => ∃ output, d = [(changeWords name command, .finished 0 output)])
      fun d => ∃ result, d = [(changeWords name command, result)] := by
  refine tells_afterLog _ _ ?_
  refine tells_bind (tells_run hm _ _) (fun d ⟨result, hd, _⟩ => ⟨result, hd⟩) ?_
  rintro ⟨code, output⟩ _ ⟨printed, rfl, -, hallowed⟩
  have hzero : code = 0 := hallowed.resolve_right List.not_mem_nil
  exact tells_pure _ ⟨printed, by rw [hzero]; rfl⟩

/-- A service is made by one run and described by another. -/
theorem tells_create (hm : m.connected = true) (command : Text) {shown description : Text}
    (hshown : shown ≠ []) (hdescription : description ≠ []) :
    Tells id (m.create name command (some shown) (some description))
      (fun _ d => ∃ output output', d = [(createWords name command shown, .finished 0 output),
        (descriptionWords name description, .finished 0 output')])
      fun d => (∃ result, d = [(createWords name command shown, result)]) ∨
        ∃ output result, d = [(createWords name command shown, .finished 0 output),
          (descriptionWords name description, result)] := by
  obtain ⟨first, shown, rfl⟩ := List.exists_cons_of_ne_nil hshown
  obtain ⟨first', description, rfl⟩ := List.exists_cons_of_ne_nil hdescription
  refine tells_afterLog _ _ ?_
  refine tells_bind (tells_run hm _ _) (fun d ⟨result, hd, _⟩ => .inl ⟨result, hd⟩) ?_
  rintro ⟨code, output⟩ _ ⟨printed, rfl, -, hallowed⟩
  obtain rfl : code = 0 := hallowed.resolve_right List.not_mem_nil
  refine tells_bind (tells_run hm _ _) ?_ ?_
  · rintro _ ⟨result, rfl, -⟩
    exact .inr ⟨printed, result, rfl⟩
  · rintro ⟨code, output⟩ _ ⟨printed', rfl, -, hallowed⟩
    obtain rfl : code = 0 := hallowed.resolve_right List.not_mem_nil
    exact tells_pure _ ⟨printed, printed', rfl⟩

theorem tells_queryState (hm : m.connected = true) :
    Tells id (m.queryState name)
      (fun state d => ∃ result, d = queries name [result] ∧ result.Reports state)
      fun d => ∃ result, d = queries name [result] ∧ ∀ state, ¬ result.Reports state := by
  refine tells_bind (tells_run hm _ _) ?_ ?_
  · rintro d ⟨result, rfl, hnot⟩
    refine ⟨result, rfl, ?_⟩
    rintro state ⟨output, rfl, -⟩
    exact hnot ⟨0, output, rfl, .inl rfl⟩
  · rintro ⟨code, output⟩ _ ⟨printed, rfl, houtput, hallowed⟩
    have hzero : code = 0 := hallowed.resolve_right List.not_mem_nil
    subst hzero
    dsimp only at houtput ⊢
    split
    next state hstate => exact tells_pure _ ⟨_, rfl, printed, rfl, houtput ▸ hstate⟩
    next hstate =>
      refine tells_throw _ ⟨_, rfl, ?_⟩
      rintro state ⟨_, heq, hreported⟩
      cases heq
      rw [← houtput, hstate] at hreported
      cases hreported

/-- Waiting asks for the state until it is reported, and fails with queries that do not report
it. -/
theorem tells_waitFor (hm : m.connected = true) (state : Text) (tries : Int) (left : Nat) :
    Tells id (m.waitFor name state tries left)
      (fun _ d => ∃ results, d = queries name results ∧ results.length ≤ left ∧
        Reaches state results)
      fun d => ∃ results, d = queries name results ∧ results.length ≤ left ∧
        ∀ result ∈ results, ¬ result.Reports state := by
  induction left with
  | zero => exact tells_throw _ ⟨[], rfl, Nat.le_refl _, nofun⟩
  | succ left ih =>
    refine tells_bind (tells_queryState hm) ?_ ?_
    · rintro d ⟨result, rfl, hnone⟩
      exact ⟨[result], rfl, Nat.le_add_left .., List.forall_mem_singleton.mpr (hnone state)⟩
    · rintro current _ ⟨result, rfl, hcurrent⟩
      split
      next hsame =>
        exact tells_pure _ ⟨[result], rfl, Nat.le_add_left .., .last (hsame ▸ hcurrent)⟩
      next hne =>
        have hother : ¬ result.Reports state := fun h => hne (hcurrent.unique h)
        refine tells_afterLog _ _ (tells_after (silent_sleep _) ?_ fun _ => ih.weaken ?_ ?_)
        · exact ⟨[result], rfl, Nat.le_add_left .., List.forall_mem_singleton.mpr hother⟩
        · rintro _ _ ⟨results, rfl, hlength, hreaches⟩
          exact ⟨result :: results, rfl, Nat.succ_le_succ hlength, .next hcurrent hne hreaches⟩
        · rintro _ ⟨results, rfl, hlength, hnone⟩
          exact ⟨result :: results, rfl, Nat.succ_le_succ hlength,
            List.forall_mem_cons.mpr ⟨hother, hnone⟩⟩

theorem tells_waitForState (hm : m.connected = true) (state : Text) :
    Tells id (m.waitForState name state)
      (fun _ d => ∃ results, d = queries name results ∧ results.length ≤ m.limit ∧
        Reaches state results)
      fun d => ∃ results, d = queries name results ∧ results.length ≤ m.limit ∧
        ∀ result ∈ results, ¬ result.Reports state := by
  unfold waitForState limit Value.limit
  cases m.tries.asCount? with
  | none => exact tells_throw _ ⟨[], rfl, Nat.le_refl _, nofun⟩
  | some tries => exact tells_waitFor hm state tries _

/-- A service is brought to a state by one run, and asked for the state behind it. -/
theorem tells_bring (hm : m.connected = true) (level : LogLevel) (message verb state : Text)
    (already : Int) :
    Tells id
      (do
        Host.log level message
        let _ ← m.run [verb, name] [already]
        m.waitForState name state)
      (fun _ d => ∃ result results, d = ([verb, name], result) :: queries name results ∧
        result.Accepted [already] ∧ results.length ≤ m.limit ∧ Reaches state results)
      fun d => ∃ result results, d = ([verb, name], result) :: queries name results ∧
        results.length ≤ m.limit ∧ ∀ result ∈ results, ¬ result.Reports state := by
  refine tells_afterLog _ _ (tells_bind (tells_run hm _ _) ?_ ?_)
  · rintro d ⟨result, rfl, -⟩
    exact ⟨result, [], rfl, Nat.zero_le _, nofun⟩
  · rintro ⟨code, output⟩ _ ⟨printed, rfl, -, hallowed⟩
    refine (tells_waitForState hm state).weaken ?_ ?_
    · rintro _ _ ⟨results, rfl, hlength, hreaches⟩
      exact ⟨_, results, rfl, ⟨code, printed, rfl, hallowed⟩, hlength, hreaches⟩
    · rintro _ ⟨results, rfl, hlength, hnone⟩
      exact ⟨_, results, rfl, hlength, hnone⟩

theorem tells_stop (hm : m.connected = true) :
    Tells id (m.stop name)
      (fun _ d => ∃ result results, d = (stopWords name, result) :: queries name results ∧
        result.Accepted [notActive] ∧ results.length ≤ m.limit ∧
          Reaches ServiceState.stopped results)
      fun d => ∃ result results, d = (stopWords name, result) :: queries name results ∧
        results.length ≤ m.limit ∧ ∀ result ∈ results, ¬ result.Reports ServiceState.stopped :=
  tells_bring hm .info _ _ _ _

theorem tells_start (hm : m.connected = true) :
    Tells id (m.start name)
      (fun _ d => ∃ result results, d = (startWords name, result) :: queries name results ∧
        result.Accepted [alreadyRunning] ∧ results.length ≤ m.limit ∧
          Reaches ServiceState.running results)
      fun d => ∃ result results, d = (startWords name, result) :: queries name results ∧
        results.length ≤ m.limit ∧ ∀ result ∈ results, ¬ result.Reports ServiceState.running :=
  tells_bring hm .info _ _ _ _

end ServiceManager

end NodeBootstrap
