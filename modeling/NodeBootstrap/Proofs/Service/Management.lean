import NodeBootstrap.Proofs.Keeps
import NodeBootstrap.Proofs.Path
import NodeBootstrap.Service.Manager

/-!
# What the service manager leaves alone

The operations of the manager run the service control program, make pauses and log, and nothing
else; what these three keep, every operation keeps (`Manages`), whether it succeeds or fails. The
failures are those of the area, but for a run of the program that breaks off, a pause that the clock
refuses and a number of tries that is no number.

A host that works breaks no run off (`ServiceControl.Calm`), so a command breaks off only for a word
that is not taken. The words of a command are the manager's own (`ServiceManager.vocabulary`), which
are taken everywhere, and those that an operation is given.
-/

set_option autoImplicit false

namespace NodeBootstrap

/-! ## Words -/

namespace Launch

variable {launch : Launch} {word : Text}

/-- What can stand in a name can stand in a word, however it gets to the program. -/
theorem takes_of_spellable (launch : Launch) (h : ∀ c ∈ word, c.isSpellable = true) :
    launch.takes word = true := by
  refine List.all_eq_true.mpr fun c hc => ?_
  have hspellable := h c hc
  cases launch with
  | standIn => rfl
  | bytes => exact hspellable
  | wide => exact (Bool.and_eq_true_iff.mp hspellable).1

theorem takes_append (first second : Text) :
    launch.takes (first ++ second) = (launch.takes first && launch.takes second) :=
  List.all_append

theorem takes_join {separator : Text} (hseparator : launch.takes separator = true)
    {parts : List Text} (hparts : ∀ part ∈ parts, launch.takes part = true) :
    launch.takes (Text.join separator parts) = true := by
  refine List.all_eq_true.mpr fun c hc => ?_
  rcases Text.exists_of_mem_join hc with hc | ⟨part, hpart, hc⟩
  · exact List.all_eq_true.mp hseparator c hc
  · exact List.all_eq_true.mp (hparts part hpart) c hc

end Launch

/-! ## Runs that do not break off -/

/-- No run of the service control program breaks off for a reason that nobody handles. -/
def ServiceControl.Calm : ServiceControl → Prop
  | .script results => .broken ∉ results
  | .table t => some .broken ∉ t.troubles

/-- What the table answers does not break off, and it changes nothing of what is not a service. -/
structure ServiceTable.Answered (t : ServiceTable) (answer : ProcessResult × ServiceTable) :
    Prop where
  result : answer.1 ≠ .broken
  troubles : answer.2.troubles = t.troubles
  faults : answer.2.faults = t.faults
  launch : answer.2.launch = t.launch

theorem ServiceTable.answered (t : ServiceTable) (verb name : Text) (arguments : List Text) :
    t.Answered (t.answer verb name arguments) := by
  have hbring : ∀ entry state already, t.Answered (t.bring name entry state already) := by
    intro entry state already
    unfold bring
    split <;> exact ⟨nofun, rfl, rfl, rfl⟩
  have hact : ∀ entry, t.Answered (t.act verb name entry arguments) := by
    intro entry
    unfold act
    repeat' split
    all_goals first | exact hbring _ _ _ | exact ⟨nofun, rfl, rfl, rfl⟩
  unfold answer
  split
  next => exact ⟨nofun, rfl, rfl, rfl⟩
  next =>
    split
    next =>
      unfold create
      split <;> exact ⟨nofun, rfl, rfl, rfl⟩
    next =>
      split
      next => exact ⟨nofun, rfl, rfl, rfl⟩
      next entry _ => exact hact entry

/-- What a run on a table comes to: what the table answers, something for another reason, or nothing
where a word is not taken. Each command takes one from what is still to come, so what is known of
the table is to hold behind it too. -/
theorem ServiceTable.run_cases {t : ServiceTable} {verb name : Text} {arguments : List Text}
    {I : ServiceTable → Prop} {D : ProcessResult × ServiceTable → Prop} (ht : I t)
    (hrest : ∀ trouble troubles, t.troubles = trouble :: troubles → I { t with troubles })
    (hanswer : t.takes (verb :: name :: arguments) = true → ∀ t', I t' →
      D (t'.answer verb name arguments))
    (hother : ∀ result troubles, t.troubles = some result :: troubles →
      D (result, { t with troubles }))
    (hrefused : t.takes (verb :: name :: arguments) = false → ∀ t', I t' → D (.broken, t')) :
    D (t.run verb name arguments) := by
  rw [ServiceTable.run]
  split
  next htakes =>
    rw [perform]
    split
    next => exact hanswer htakes t ht
    next troubles htroubles => exact hanswer htakes _ (hrest none troubles htroubles)
    next result troubles htroubles => exact hother result troubles htroubles
  next htakes =>
    refine hrefused (Bool.eq_false_iff.mpr htakes) _ ?_
    cases htroubles : t.troubles with
    | nil => exact (show { t with troubles := [] } = t by rw [← htroubles]) ▸ ht
    | cons trouble troubles => exact hrest trouble troubles htroubles

/-- On a host that works a command breaks off only for a word that is not taken. -/
theorem ServiceControl.Calm.run {control : ServiceControl} (h : control.Calm) (words : List Text) :
    (control.run words).2.Calm ∧ (control.run words).2.launch = control.launch ∧
      ((∀ word ∈ words, control.launch.takes word = true) → (control.run words).1 ≠ .broken) := by
  cases control with
  | script results =>
    cases results with
    | nil => exact ⟨List.not_mem_nil, rfl, fun _ => nofun⟩
    | cons result results =>
      exact ⟨fun hmem => h (List.mem_cons_of_mem _ hmem), rfl,
        fun _ heq => h (heq ▸ List.mem_cons_self)⟩
  | table t =>
    match words with
    | [] => exact ⟨h, rfl, fun _ => nofun⟩
    | [_] => exact ⟨h, rfl, fun _ => nofun⟩
    | verb :: name :: arguments =>
      have hcalm : some .broken ∉ t.troubles := h
      have hkept : ∀ trouble troubles, t.troubles = trouble :: troubles →
          some .broken ∉ troubles := fun _ _ hcons hmem =>
        hcalm (hcons ▸ List.mem_cons_of_mem _ hmem)
      refine ServiceTable.run_cases
        (I := fun t' => some .broken ∉ t'.troubles ∧ t'.launch = t.launch)
        (D := fun ran => some .broken ∉ ran.2.troubles ∧ ran.2.launch = t.launch ∧
          ((∀ word ∈ verb :: name :: arguments, t.launch.takes word = true) → ran.1 ≠ .broken))
        ⟨hcalm, rfl⟩ (fun trouble troubles hcons => ⟨hkept trouble troubles hcons, rfl⟩) ?_ ?_ ?_
      · rintro - t' ⟨ht', hlaunch⟩
        have hanswered := t'.answered verb name arguments
        exact ⟨hanswered.troubles ▸ ht', hanswered.launch.trans hlaunch,
          fun _ => hanswered.result⟩
      · exact fun result troubles hcons =>
          ⟨hkept _ _ hcons, rfl, fun _ heq => hcalm (hcons ▸ heq ▸ List.mem_cons_self)⟩
      · exact fun hrefused t' ht' => ⟨ht'.1, ht'.2, fun htaken =>
          absurd (List.all_eq_true.mpr htaken) (Bool.eq_false_iff.mp hrefused)⟩

/-! ## Operations -/

/-- What comes of a length that a clock refuses. -/
theorem Clock.eq_of_refusal {clock : Clock} {length : Value} {failure : Failure}
    (h : clock.refusal? length = some failure) :
    failure = .environment ∨ failure = .kind .unusable := by
  unfold refusal? at h
  repeat' split at h
  all_goals cases h
  all_goals first | exact .inl rfl | exact .inr rfl

/-- The words of commands that are the same for all services. -/
def ServiceManager.vocabulary : List Text :=
  [text "qc", configRoom, text "config", text "binPath=", text "create", text "start=",
    text "auto", text "DisplayName=", text "description", text "query", text "start", text "stop"]

theorem ServiceManager.takes_vocabulary (launch : Launch) :
    ∀ word ∈ vocabulary, launch.takes word = true := by
  have hspellable : ∀ word ∈ vocabulary, ∀ c ∈ word, c.isSpellable = true := by decide
  exact fun word hword => launch.takes_of_spellable (hspellable word hword)

/-- What is kept by all that a manager does to a host when the words of its commands are with `P`,
and the failures that come of it. -/
structure Manages (m : ServiceManager) (P : Text → Prop) (R : Host → Prop) (F : Failure → Prop) :
    Prop where
  log : ∀ (h : Host) (level : LogLevel) (message : Text), R h → R (h.logged level message)
  pause : ∀ (h : Host) (length : Value), R h → R (h.paused length)
  run : ∀ (h : Host) (words : List Text), R h → R (h.ran ServiceManager.program words)
  vocabulary : ∀ word ∈ ServiceManager.vocabulary, P word
  service : ∀ fault, F (.service fault)
  broken : ∀ (h : Host) (words : List Text), R h → (∀ word ∈ words, P word) →
    (h.control.run words).1 = .broken → F .environment
  clock : ∀ (h : Host) (failure : Failure), R h → h.clock.refusal? m.trySleep = some failure →
    F failure
  tries : m.tries.asCount? = none → F (.kind .unusable)

/-- Where any words may be said and any failures come of it. -/
theorem manages_any {m : ServiceManager} {R : Host → Prop}
    (hlog : ∀ (h : Host) (level : LogLevel) (message : Text), R h → R (h.logged level message))
    (hpause : ∀ (h : Host) (length : Value), R h → R (h.paused length))
    (hrun : ∀ (h : Host) (words : List Text), R h → R (h.ran ServiceManager.program words)) :
    Manages m (fun _ => True) R fun _ => True where
  log := hlog
  pause := hpause
  run := hrun
  vocabulary _ _ := trivial
  service _ := trivial
  broken _ _ _ _ _ := trivial
  clock _ _ _ _ := trivial
  tries _ := trivial

namespace ServiceManager

variable {P : Text → Prop} {R : Host → Prop} {F : Failure → Prop} {m : ServiceManager}
  {name : Text}

theorem keeps_log (h : Manages m P R F) (level : LogLevel) (message : Text) :
    Keeps R (Host.log level message) (fun _ => True) F :=
  keeps_modify fun host => h.log host level message

/-- A pause is made or refused by the clock. -/
theorem keeps_sleep (h : Manages m P R F) :
    Keeps R (Host.sleep m.trySleep) (fun _ => True) F := by
  refine keeps_bind keeps_get fun host hhost => ?_
  split
  next failure hrefusal => exact keeps_throw _ (h.clock host failure hhost hrefusal)
  next => exact keeps_set (h.pause host _ hhost)

theorem keeps_runControl (h : Manages m P R F) {words : List Text}
    (hwords : ∀ word ∈ words, P word) :
    Keeps R (Host.runControl program words) (fun result => result = .broken → F .environment) F :=
  fun host hhost => ⟨h.run host words hhost, h.broken host words hhost hwords⟩

/-- The words of a command are the manager's own and those that it is given. -/
theorem keeps_run (h : Manages m P R F) {words given : List Text}
    (hgiven : ∀ word ∈ given, P word) (hwords : words ⊆ vocabulary ++ given)
    (allowed : List Int) : Keeps R (m.run words allowed) (fun _ => True) F := by
  have hspoken : ∀ word ∈ words, P word := fun word hword =>
    (List.mem_append.mp (hwords hword)).elim (h.vocabulary word) (hgiven word)
  refine keeps_unless (h.service _)
    (keeps_bind (keeps_runControl h hspoken) fun result hresult => ?_)
  cases result with
  | finished code output => exact keeps_unless (h.service _) (keeps_pure _ trivial)
  | timedOut => exact keeps_throw _ (h.service _)
  | noProgram => exact keeps_throw _ (h.service _)
  | broken => exact keeps_throw _ (hresult rfl)

section Operations

variable (h : Manages m P R F) (hname : P name)

include h hname

/-- A command of the manager's own words and the name of the service. -/
theorem keeps_runName {words : List Text} (hwords : words ⊆ vocabulary ++ [name])
    (allowed : List Int) : Keeps R (m.run words allowed) (fun _ => True) F :=
  keeps_run h (List.forall_mem_singleton.mpr hname) hwords allowed

theorem keeps_startCommand? : Keeps R (m.startCommand? name) (fun _ => True) F := by
  refine keeps_then (keeps_runName h hname (by simp [vocabulary]) _) fun answer => ?_
  obtain ⟨code, output⟩ := answer
  dsimp only
  split
  next => exact keeps_pure _ trivial
  next =>
    split
    next => exact keeps_pure _ trivial
    next => exact keeps_throw _ (h.service _)

theorem keeps_exists? : Keeps R (m.exists? name) (fun _ => True) F :=
  keeps_then (keeps_startCommand? h hname) fun _ => keeps_pure _ trivial

theorem keeps_setStartCommand {command : Text} (hcommand : P command) :
    Keeps R (m.setStartCommand name command) (fun _ => True) F := by
  have hgiven : ∀ word ∈ [name, command], P word :=
    List.forall_mem_cons.mpr ⟨hname, List.forall_mem_singleton.mpr hcommand⟩
  exact keeps_then (keeps_log h _ _) fun _ =>
    keeps_then (keeps_run h hgiven (by simp [vocabulary]) _) fun _ => keeps_pure _ trivial

theorem keeps_create {command shown description : Text} (hcommand : P command) (hshown : P shown)
    (hdescription : P description) :
    Keeps R (m.create name command (some shown) (some description)) (fun _ => True) F := by
  have hgiven : ∀ word ∈ [name, command, shown, description], P word := by
    simp only [List.forall_mem_cons]
    exact ⟨hname, hcommand, hshown, hdescription, List.forall_mem_nil _⟩
  refine keeps_then (keeps_log h _ _) fun _ => ?_
  refine keeps_then (keeps_run h hgiven ?_ _) fun _ => ?_
  · cases shown <;> simp [vocabulary]
  · split
    next hdescribed =>
      cases hdescribed
      exact keeps_then (keeps_run h hgiven (by simp [vocabulary]) _) fun _ => keeps_pure _ trivial
    next => exact keeps_pure _ trivial

theorem keeps_queryState : Keeps R (m.queryState name) (fun _ => True) F := by
  refine keeps_then (keeps_runName h hname (by simp [vocabulary]) _) fun answer => ?_
  obtain ⟨code, output⟩ := answer
  dsimp only
  split
  next => exact keeps_pure _ trivial
  next => exact keeps_throw _ (h.service _)

theorem keeps_waitFor (state : Text) (tries : Int) (left : Nat) :
    Keeps R (m.waitFor name state tries left) (fun _ => True) F := by
  induction left with
  | zero => exact keeps_throw _ (h.service _)
  | succ left ih =>
    refine keeps_then (keeps_queryState h hname) fun current => ?_
    split
    next => exact keeps_pure _ trivial
    next => exact keeps_then (keeps_log h _ _) fun _ => keeps_then (keeps_sleep h) fun _ => ih

theorem keeps_waitForState (state : Text) :
    Keeps R (m.waitForState name state) (fun _ => True) F := by
  unfold waitForState
  split
  next htries => exact keeps_throw _ (h.tries htries)
  next => exact keeps_waitFor h hname state _ _

theorem keeps_start : Keeps R (m.start name) (fun _ => True) F :=
  keeps_then (keeps_log h _ _) fun _ =>
    keeps_then (keeps_runName h hname (by simp [vocabulary]) _) fun _ =>
      keeps_waitForState h hname _

theorem keeps_stop : Keeps R (m.stop name) (fun _ => True) F :=
  keeps_then (keeps_log h _ _) fun _ =>
    keeps_then (keeps_runName h hname (by simp [vocabulary]) _) fun _ =>
      keeps_waitForState h hname _

end Operations

end ServiceManager

end NodeBootstrap
