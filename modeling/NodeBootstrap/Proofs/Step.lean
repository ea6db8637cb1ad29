import NodeBootstrap.Node.Basic
import NodeBootstrap.Proofs.Outcome

/-!
# What steps do

A step reads and changes a state and may fail; what it changed before it failed stays changed. So a
statement about one has two ends: `Spec P step Q E` says that from a state with `P` the step ends
with a value and a state in `Q`, or fails in a state in `E`. Steps on the files, on the host and on
the node are all of this kind, and a step on a part of a state is one on the whole.

What becomes of the record of what was done is of no interest here: `Host.On` speaks of the files
and the services of a host that logs to no file.
-/

set_option autoImplicit false

namespace NodeBootstrap

variable {ε σ α β : Type}

/-- What a step ends in: a value and a state, or the state in which it failed. -/
def Ends (Q : α → σ → Prop) (E : σ → Prop) : Except ε α × σ → Prop
  | (.ok a, s) => Q a s
  | (.error _, s) => E s

/-- From states with `P` a step ends in `Q` or fails in `E`. -/
def Spec (P : σ → Prop) (step : ExceptT ε (StateM σ) α) (Q : α → σ → Prop) (E : σ → Prop) : Prop :=
  ∀ s, P s → Ends Q E (step.run.run s)

/-- What a step ends in is also what says less. -/
theorem Ends.mono {Q Q' : α → σ → Prop} {E E' : σ → Prop} {result : Except ε α × σ}
    (h : Ends Q E result) (hQ : ∀ a s, Q a s → Q' a s) (hE : ∀ s, E s → E' s) :
    Ends Q' E' result := by
  obtain ⟨result, s⟩ := result
  cases result with
  | ok a => exact hQ a s h
  | error e => exact hE s h

section Rules

variable {P : σ → Prop} {Q : α → σ → Prop} {R : β → σ → Prop} {E : σ → Prop}
  {step : ExceptT ε (StateM σ) α}

theorem Spec.weaken {P' : σ → Prop} {Q' : α → σ → Prop} {E' : σ → Prop} (h : Spec P step Q E)
    (hP : ∀ s, P' s → P s) (hQ : ∀ a s, Q a s → Q' a s) (hE : ∀ s, E s → E' s) :
    Spec P' step Q' E' := fun s hs => (h s (hP s hs)).mono hQ hE

/-- Of any step nothing is said. -/
theorem spec_any (step : ExceptT ε (StateM σ) α) :
    Spec P step (fun _ _ => True) fun _ => True := by
  intro s _
  generalize step.run.run s = result
  obtain ⟨result, s'⟩ := result
  cases result <;> exact trivial

/-- What holds behind a step that ended with a value. -/
theorem Spec.ended (h : Spec P step Q E) {s s' : σ} {a : α} (hs : P s)
    (hrun : step.run.run s = (.ok a, s')) : Q a s' := by
  have hend := h s hs
  rwa [hrun] at hend

theorem exists_run_of_isOk {step : ExceptT ε (StateM σ) Unit} {s : σ}
    (h : (step.run.run s).1.isOk = true) : ∃ s', step.run.run s = (.ok (), s') :=
  ⟨_, Prod.ext (eq_ok_of_isOk h) rfl⟩

/-- A step ends in all that it ends in. -/
theorem Spec.and {P' : σ → Prop} {Q' : α → σ → Prop} {E' : σ → Prop} (h : Spec P step Q E)
    (h' : Spec P' step Q' E') :
    Spec (fun s => P s ∧ P' s) step (fun a s => Q a s ∧ Q' a s) fun s => E s ∧ E' s := by
  intro s hs
  have hend := h s hs.1
  have hend' := h' s hs.2
  generalize step.run.run s = result at hend hend' ⊢
  obtain ⟨result, s'⟩ := result
  cases result with
  | ok a => exact ⟨hend, hend'⟩
  | error e => exact ⟨hend, hend'⟩

/-- It is enough that a step does so from more states. -/
theorem Spec.since {P' : σ → Prop} (h : Spec P step Q E) (hP : ∀ s, P' s → P s) :
    Spec P' step Q E := h.weaken hP (fun _ _ hQ => hQ) fun _ hE => hE

/-- It is enough that a step ends in fewer states. -/
theorem Spec.ending {Q' : α → σ → Prop} (h : Spec P step Q E) (hQ : ∀ a s, Q a s → Q' a s) :
    Spec P step Q' E := h.weaken (fun _ hP => hP) hQ fun _ hE => hE

/-- It is enough that a step fails in fewer states. -/
theorem Spec.failing {E' : σ → Prop} (h : Spec P step Q E) (hE : ∀ s, E s → E' s) :
    Spec P step Q E' := h.weaken (fun _ hP => hP) (fun _ _ hQ => hQ) hE

/-- A step and the one behind it, run. -/
theorem run_bind (step : ExceptT ε (StateM σ) α) (f : α → ExceptT ε (StateM σ) β) (s : σ) :
    (step >>= f).run.run s =
      match step.run.run s with
      | (.ok a, s') => (f a).run.run s'
      | (.error e, s') => (.error e, s') := by
  show (match step.run.run s with | (a, s') => ExceptT.bindCont f a s') = _
  generalize step.run.run s = result
  obtain ⟨result, s'⟩ := result
  cases result <;> rfl

/-- A run that goes through goes through both of its parts. -/
theorem run_bind_eq_ok {f : α → ExceptT ε (StateM σ) β} {s s' : σ} {b : β}
    (h : (step >>= f).run.run s = (.ok b, s')) :
    ∃ a middle, step.run.run s = (.ok a, middle) ∧ (f a).run.run middle = (.ok b, s') := by
  rw [run_bind] at h
  cases hstep : step.run.run s with
  | mk result middle =>
    rw [hstep] at h
    cases result with
    | ok a => exact ⟨a, middle, rfl, h⟩
    | error e => cases h

/-- A step that begins by looking at the state, run. -/
theorem run_get_bind (f : σ → ExceptT ε (StateM σ) β) (s : σ) :
    (get >>= f).run.run s = (f s).run.run s := rfl

theorem spec_bind {f : α → ExceptT ε (StateM σ) β} (hstep : Spec P step Q E)
    (hf : ∀ a, Spec (Q a) (f a) R E) : Spec P (step >>= f) R E := by
  intro s hs
  have hend := hstep s hs
  rw [run_bind]
  generalize step.run.run s = result at hend ⊢
  obtain ⟨result, s'⟩ := result
  cases result with
  | ok a => exact hf a s' hend
  | error e => exact hend

/-- Steps behind another are the same if they are for the values that it can end with. -/
theorem bind_congr_of_spec {p : α → Prop} {f g : α → ExceptT ε (StateM σ) β}
    (hstep : Spec (fun _ => True) step (fun a _ => p a) fun _ => True)
    (hsame : ∀ a, p a → f a = g a) : step >>= f = step >>= g := by
  funext s
  show (step >>= f).run.run s = (step >>= g).run.run s
  have hend := hstep s trivial
  rw [run_bind, run_bind]
  generalize step.run.run s = result at hend ⊢
  obtain ⟨result, s'⟩ := result
  cases result with
  | ok a => exact congrArg (fun step => step.run.run s') (hsame a hend)
  | error e => rfl

/-- What does not depend on the state is known of the step. -/
theorem Spec.knowing {p : Prop} (h : p → Spec P step Q E) : Spec (fun s => p ∧ P s) step Q E :=
  fun s hs => h hs.1 s hs.2

theorem spec_pure (a : α) (h : ∀ s, P s → Q a s) :
    Spec P (pure a : ExceptT ε (StateM σ) α) Q E := fun s hs => h s hs

theorem spec_throw (e : ε) (h : ∀ s, P s → E s) :
    Spec P (throw e : ExceptT ε (StateM σ) α) Q E := fun s hs => h s hs

theorem spec_get : Spec P (get : ExceptT ε (StateM σ) σ) (fun a s => a = s ∧ P s) E :=
  fun _ hs => ⟨rfl, hs⟩

theorem spec_modify {Q : PUnit → σ → Prop} (f : σ → σ) (h : ∀ s, P s → Q ⟨⟩ (f s)) :
    Spec P (modify f : ExceptT ε (StateM σ) PUnit) Q E := fun s hs => h s hs

/-- A result that may be a failure, as a step. -/
theorem spec_liftM (result : Except ε α) (h : ∀ s, P s → E s) :
    Spec P (liftM result : ExceptT ε (StateM σ) α) (fun a s => result = .ok a ∧ P s) E := by
  intro s hs
  cases result with
  | ok a => exact ⟨rfl, hs⟩
  | error e => exact h s hs

/-- A step with a handler behind it, run. -/
theorem run_tryCatch (step : ExceptT ε (StateM σ) α) (handler : ε → ExceptT ε (StateM σ) α)
    (s : σ) :
    (tryCatch step handler).run.run s =
      match step.run.run s with
      | (.ok a, s') => (.ok a, s')
      | (.error e, s') => (handler e).run.run s' := by
  have hrun : (tryCatch step handler).run.run s = (ExceptT.tryCatch step handler).run.run s := rfl
  rw [hrun, ExceptT.tryCatch]
  simp only [ExceptT.run, ExceptT.mk, StateT.run, bind, StateT.bind]
  generalize step s = result
  obtain ⟨result, s'⟩ := result
  cases result <;> rfl

theorem spec_tryCatch {E' : σ → Prop} {handler : ε → ExceptT ε (StateM σ) α}
    (hstep : Spec P step Q E') (hhandler : ∀ e, Spec E' (handler e) Q E) :
    Spec P (tryCatch step handler) Q E := by
  intro s hs
  have hend := hstep s hs
  rw [run_tryCatch]
  generalize step.run.run s = result at hend ⊢
  obtain ⟨result, s'⟩ := result
  cases result with
  | ok a => exact hend
  | error e => exact hhandler e s' hend

/-- A loop, from what holds once some of the items are done and what doing one more comes to. -/
theorem spec_forIn {I : List β → σ → Prop} {items : List β}
    {body : β → PUnit → ExceptT ε (StateM σ) (ForInStep PUnit)}
    (h : ∀ done item, item ∈ items →
      Spec (I done) (body item ⟨⟩) (fun r s => r = .yield ⟨⟩ ∧ I (done ++ [item]) s) E) :
    Spec (I []) (forIn items ⟨⟩ body) (fun _ => I items) E := by
  have hfrom : ∀ (rest done : List β), (∀ item ∈ rest, item ∈ items) →
      Spec (I done) (forIn rest ⟨⟩ body) (fun _ => I (done ++ rest)) E := by
    intro rest
    induction rest with
    | nil =>
      intro done _
      rw [List.forIn_nil, List.append_nil]
      exact spec_pure _ fun s hs => hs
    | cons item rest ih =>
      intro done hmem
      rw [List.forIn_cons]
      refine spec_bind (h done item (hmem item (List.mem_cons_self ..))) ?_
      intro r
      have hrest := ih (done ++ [item]) fun x hx => hmem x (List.mem_cons_of_mem item hx)
      rw [List.append_assoc] at hrest
      intro s hs
      obtain ⟨rfl, hs⟩ := hs
      exact hrest s hs
  exact hfrom items [] fun _ hitem => hitem

end Rules

/-! ## Questions -/

/-- What holds of a tree whatever happens to the operations to come. -/
def Steady (P : FileTree → Prop) : Prop :=
  ∀ (t : FileTree) (troubles : List (Option FileTrouble)), P t → P { t with troubles := troubles }

theorem Steady.and {P Q : FileTree → Prop} (hP : Steady P) (hQ : Steady Q) :
    Steady fun t => P t ∧ Q t := fun t troubles ht => ⟨hP t troubles ht.1, hQ t troubles ht.2⟩

section Files

variable {P : FileTree → Prop}

theorem spec_nextTrouble (hP : Steady P) :
    Spec P FileTree.nextTrouble (fun _ => P) P := by
  unfold FileTree.nextTrouble
  refine spec_bind spec_get ?_
  intro t
  rintro _ ⟨rfl, ht⟩
  cases t.troubles with
  | nil => exact ht
  | cons trouble troubles => exact hP t troubles ht

/-- An operation that changes nothing may be broken off. -/
theorem spec_begins (hP : Steady P) : Spec P FileTree.begins (fun _ => P) P := by
  refine spec_bind (spec_nextTrouble hP) ?_
  intro trouble
  cases trouble with
  | none => exact spec_pure _ fun t ht => ht
  | some trouble => exact spec_throw _ fun t ht => ht

/-- The answer to a question is about the tree that it leaves. -/
theorem spec_ask (hP : Steady P) (question : FileTree → Except FileFault α) :
    Spec P (FileTree.ask question) (fun a t => question t = .ok a ∧ P t) P := by
  refine spec_bind (spec_begins hP) fun _ => ?_
  refine spec_bind spec_get ?_
  intro t
  refine (spec_liftM (question t) fun s hs => hs.2).ending ?_
  rintro a s ⟨ha, rfl, hs⟩
  exact ⟨ha, hs⟩

end Files

/-! ## Parts of a state -/

section Parts

/-- A result that may be a failure, run on the node. -/
theorem run_ofExcept (result : Except Failure α) (s : NodeState) :
    (NodeStep.ofExcept result).run.run s = (result, s) := by
  cases result <;> rfl

/-- A step on the host, run on the node. -/
theorem run_ofHost (step : HostStep α) (s : NodeState) :
    (NodeStep.ofHost step).run.run s =
      ((step.run.run s.host).1, { s with host := (step.run.run s.host).2 }) := by
  unfold NodeStep.ofHost
  rw [run_get_bind]
  generalize step.run.run s.host = result
  obtain ⟨result, host⟩ := result
  cases result <;> rfl

/-- A step on the files, run on the host. -/
theorem run_onFiles (area : FileFault → Failure) (step : FileStep α) (h : Host) :
    (Host.onFiles area step).run.run h =
      ((step.run.run h.files).1.mapError (Failure.ofFileFault area),
        { h with files := (step.run.run h.files).2 }) := by
  unfold Host.onFiles
  rw [run_get_bind]
  generalize step.run.run h.files = result
  obtain ⟨result, files⟩ := result
  cases result <;> rfl

/-- A step on the host ends on the node as it ends on the host. -/
theorem spec_ofHost_ends {P E : NodeState → Prop} {Q : α → NodeState → Prop} {step : HostStep α}
    (h : ∀ s, P s → Ends (fun a host => Q a { s with host }) (fun host => E { s with host })
      (step.run.run s.host)) :
    Spec P (NodeStep.ofHost step) Q E := by
  unfold NodeStep.ofHost
  refine spec_bind spec_get ?_
  intro s
  rintro _ ⟨rfl, hs⟩
  have hend := h s hs
  generalize step.run.run s.host = result at hend ⊢
  obtain ⟨result, host⟩ := result
  cases result with
  | ok a => exact hend
  | error failure => exact hend

/-- A step on the files ends on the host as it ends on the files. -/
theorem spec_onFiles_ends {P E : Host → Prop} {Q : α → Host → Prop} {area : FileFault → Failure}
    {step : FileStep α}
    (h : ∀ host, P host → Ends (fun a files => Q a { host with files })
      (fun files => E { host with files }) (step.run.run host.files)) :
    Spec P (Host.onFiles area step) Q E := by
  unfold Host.onFiles
  refine spec_bind spec_get ?_
  intro host
  rintro _ ⟨rfl, hhost⟩
  have hend := h host hhost
  generalize step.run.run host.files = result at hend ⊢
  obtain ⟨result, files⟩ := result
  cases result with
  | ok a => exact hend
  | error fault => exact hend

end Parts

/-- The name of the kubelet service is a text. -/
def Node.Named (n : Node) : Prop := ∃ name, n.settings.serviceName = .text name

/-- A name that is a text lets a run go on, any other ends it. -/
theorem Node.requireName_cases (n : Node) :
    (n.Named ∧ ∀ f : PUnit → NodeStep α, n.requireName >>= f = f ⟨⟩) ∨
      (¬ n.Named ∧ ∀ f : PUnit → NodeStep α, n.requireName >>= f = throw (.kind .unusable)) := by
  unfold Node.requireName Node.Named
  split
  next name hname => exact .inl ⟨⟨name, hname⟩, fun _ => rfl⟩
  next hnot => exact .inr ⟨fun ⟨name, hname⟩ => hnot name hname, fun _ => rfl⟩

section Host

variable {P E : FileTree → Prop} {C B : ServiceControl → Prop} {Q : α → FileTree → Prop}
  {D : α → ServiceControl → Prop}

/-- A host that logs to no file, by its files and its services. -/
structure Host.On (P : FileTree → Prop) (C : ServiceControl → Prop) (h : Host) : Prop where
  file : h.journal.file = none
  files : P h.files
  control : C h.control

/-- A node by the files and the services of its host. -/
def NodeState.On (P : FileTree → Prop) (C : ServiceControl → Prop) (s : NodeState) : Prop :=
  s.host.On P C

theorem NodeState.On.files_mono {P' : FileTree → Prop} (hP : ∀ t, P t → P' t) (s : NodeState)
    (h : s.On P C) : s.On P' C := ⟨h.file, hP _ h.files, h.control⟩

theorem NodeState.On.control_mono {C' : ServiceControl → Prop}
    (hC : ∀ control, C control → C' control) (s : NodeState) (h : s.On P C) : s.On P C' :=
  ⟨h.file, h.files, hC _ h.control⟩

/-- A step on the host is one on the node. -/
theorem spec_ofHost {step : HostStep α}
    (h : Spec (Host.On P C) step (fun a => Host.On (Q a) (D a)) (Host.On E B)) :
    Spec (NodeState.On P C) (NodeStep.ofHost step) (fun a => NodeState.On (Q a) (D a))
      (NodeState.On E B) :=
  spec_ofHost_ends fun s hs => h s.host hs

/-- A step on the files is one on the host. -/
theorem spec_onFiles {area : FileFault → Failure} {step : FileStep α} (h : Spec P step Q E) :
    Spec (Host.On P C) (Host.onFiles area step) (fun a => Host.On (Q a) C) (Host.On E C) :=
  spec_onFiles_ends fun host hhost =>
    (h host.files hhost.files).mono (fun _ _ hfiles => ⟨hhost.file, hfiles, hhost.control⟩)
      fun _ hfiles => ⟨hhost.file, hfiles, hhost.control⟩

/-- A question about the files of a host. -/
theorem spec_askFiles (hP : Steady P) (area : FileFault → Failure)
    (question : FileTree → Except FileFault α) :
    Spec (Host.On P C) (Host.askFiles area question)
      (fun a => Host.On (fun t => question t = .ok a ∧ P t) C) (Host.On P C) :=
  spec_onFiles (spec_ask hP question)

/-- Logging changes neither files nor services. -/
theorem Host.On.logged {h : Host} (hh : h.On P C) (level : LogLevel) (message : Text) :
    (h.logged level message).On P C := by
  unfold Host.logged
  split
  next => exact hh
  next =>
    refine ⟨hh.file, ?_, hh.control⟩
    simp only [hh.file]
    exact hh.files

theorem spec_log (level : LogLevel) (message : Text) :
    Spec (Host.On P C) (Host.log level message) (fun _ => Host.On P C) (Host.On E B) :=
  spec_modify _ fun _ hhost => hhost.logged level message

theorem spec_nodeLog (level : LogLevel) (message : Text) :
    Spec (NodeState.On P C) (NodeStep.log level message) (fun _ => NodeState.On P C)
      (NodeState.On E B) :=
  @spec_ofHost _ P E C B (fun _ => P) (fun _ => C) _ (spec_log level message)

/-- A step that goes on by what the files are. -/
theorem spec_byFiles {test : FileTree → Bool} {yes no : NodeStep α} {R : α → NodeState → Prop}
    {F : NodeState → Prop}
    (hyes : Spec (NodeState.On (fun t => test t = true ∧ P t) C) yes R F)
    (hno : Spec (NodeState.On (fun t => test t = false ∧ P t) C) no R F) :
    Spec (NodeState.On P C) (do if test (← get).host.files then yes else no) R F := by
  refine spec_bind spec_get ?_
  intro before
  rintro s ⟨rfl, hs⟩
  cases htest : test before.host.files with
  | true => exact hyes before ⟨hs.file, ⟨htest, hs.files⟩, hs.control⟩
  | false => exact hno before ⟨hs.file, ⟨htest, hs.files⟩, hs.control⟩

/-- A pause that is made or refused changes neither files nor services. -/
theorem spec_sleep (length : Value) :
    Spec (Host.On P C) (Host.sleep length) (fun _ => Host.On P C) (Host.On P C) := by
  refine spec_bind spec_get fun host => ?_
  rintro _ ⟨rfl, hhost⟩
  cases host.clock.refusal? length with
  | none => exact ⟨hhost.file, hhost.files, hhost.control⟩
  | some failure => exact hhost

/-- Running the service control program changes the services as it says. -/
theorem spec_runControl {D : ProcessResult → ServiceControl → Prop} {program : Text}
    {words : List Text}
    (h : ∀ control, C control → D (control.run words).1 (control.run words).2) :
    Spec (Host.On P C) (Host.runControl program words) (fun result => Host.On P (D result))
      (Host.On E B) := by
  intro host hhost
  exact ⟨hhost.file, hhost.files, h host.control hhost.control⟩

end Host

end NodeBootstrap
