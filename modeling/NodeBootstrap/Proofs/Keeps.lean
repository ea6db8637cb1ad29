import NodeBootstrap.Proofs.Step

/-!
# What steps keep

Of most steps two things are to be known: what held of the state before holds afterwards, however
the step ended, and only some failures are possible. `Keeps R step p F` says both, with what is
known of the value. It goes through a step by its parts, with the same `R` and `F` everywhere, so
one passage through a step serves for every `R` that its parts keep.

`Spec` says more of states, and nothing of the failure that a step ends in.
-/

set_option autoImplicit false

namespace NodeBootstrap

variable {ε ε' σ α β : Type}

/-- A result is a value with `p` or a failure with `F`. -/
def Yields (p : α → Prop) (F : ε → Prop) : Except ε α → Prop
  | .ok a => p a
  | .error e => F e

instance {p : α → Prop} {F : ε → Prop} [DecidablePred p] [DecidablePred F] (result : Except ε α) :
    Decidable (Yields p F result) :=
  match result with
  | .ok a => inferInstanceAs (Decidable (p a))
  | .error e => inferInstanceAs (Decidable (F e))

/-- From a state with `R` a step ends in one, with a value with `p` or a failure with `F`. -/
def Keeps (R : σ → Prop) (step : ExceptT ε (StateM σ) α) (p : α → Prop) (F : ε → Prop) : Prop :=
  ∀ s, R s → R (step.run.run s).2 ∧ Yields p F (step.run.run s).1

theorem Yields.mono {p p' : α → Prop} {F F' : ε → Prop} {result : Except ε α}
    (h : Yields p F result) (hp : ∀ a, p a → p' a) (hF : ∀ e, F e → F' e) :
    Yields p' F' result := by
  cases result with
  | ok a => exact hp a h
  | error e => exact hF e h

/-- Of any result nothing is said. -/
theorem yields_trivial (result : Except ε α) :
    Yields (fun _ => True) (fun _ => True) result := by
  cases result <;> exact trivial

/-- What a result is, it is. -/
theorem Yields.known {p : α → Prop} {F : ε → Prop} {result : Except ε α} (h : Yields p F result) :
    Yields (fun a => result = .ok a ∧ p a) F result := by
  cases result with
  | ok a => exact ⟨rfl, h⟩
  | error e => exact h

/-- Naming a fault anew names the failures anew. -/
theorem yields_mapError {p : α → Prop} {F : ε' → Prop} {rename : ε → ε'} {result : Except ε α}
    (h : Yields p (fun e => F (rename e)) result) : Yields p F (result.mapError rename) := by
  cases result with
  | ok a => exact h
  | error e => exact h

/-- A sequence fails as its parts do. -/
theorem yields_bind {p : α → Prop} {q : β → Prop} {F : ε → Prop} {result : Except ε α}
    {f : α → Except ε β} (h : Yields p F result) (hf : ∀ a, p a → Yields q F (f a)) :
    Yields q F (result >>= f) := by
  cases result with
  | ok a => exact hf a h
  | error e => exact h

/-- What a sequence does not fail with, its first part does not. -/
theorem Yields.of_bind {q : β → Prop} {F : ε → Prop} {result : Except ε α} {f : α → Except ε β}
    (h : Yields q F (result >>= f)) : Yields (fun _ => True) F result := by
  cases result with
  | ok a => exact trivial
  | error e => exact h

theorem yields_forM {F : ε → Prop} {f : α → Except ε PUnit} {items : List α}
    (h : ∀ item, Yields (fun _ => True) F (f item)) : Yields (fun _ => True) F (items.forM f) := by
  induction items with
  | nil => exact trivial
  | cons item items ih => exact yields_bind (h item) fun _ _ => ih

theorem yields_mapM {p : β → Prop} {F : ε → Prop} {f : α → Except ε β} {items : List α}
    (h : ∀ item ∈ items, Yields p F (f item)) :
    Yields (fun results => ∀ b ∈ results, p b) F (items.mapM f) := by
  induction items with
  | nil => exact List.forall_mem_nil p
  | cons item items ih =>
    obtain ⟨hitem, hitems⟩ := List.forall_mem_cons.mp h
    rw [List.mapM_cons]
    exact yields_bind hitem fun _ hb => yields_bind (ih hitems) fun _ hresults =>
      List.forall_mem_cons.mpr ⟨hb, hresults⟩

section Rules

variable {R : σ → Prop} {p : α → Prop} {q : β → Prop} {F : ε → Prop}
  {step : ExceptT ε (StateM σ) α}

theorem Keeps.weaken {p' : α → Prop} {F' : ε → Prop} (h : Keeps R step p F)
    (hp : ∀ a, p a → p' a) (hF : ∀ e, F e → F' e) : Keeps R step p' F' := fun s hs =>
  ⟨(h s hs).1, (h s hs).2.mono hp hF⟩

/-- It is enough that a step fails in fewer ways. -/
theorem Keeps.failing {F' : ε → Prop} (h : Keeps R step p F) (hF : ∀ e, F e → F' e) :
    Keeps R step p F' := h.weaken (fun _ ha => ha) hF

/-- Of the value nothing need be said. -/
theorem Keeps.any (h : Keeps R step p F) : Keeps R step (fun _ => True) F :=
  h.weaken (fun _ _ => trivial) fun _ he => he

/-- What is kept holds at both ends. -/
theorem Keeps.spec (h : Keeps R step p F) : Spec R step (fun a s => p a ∧ R s) R := by
  intro s hs
  obtain ⟨hR, hresult⟩ := h s hs
  generalize step.run.run s = ended at hR hresult ⊢
  obtain ⟨result, s'⟩ := ended
  cases result with
  | ok a => exact ⟨hresult, hR⟩
  | error e => exact hR

/-- What is kept of a run. -/
theorem Keeps.ran (h : Keeps R step p F) {s s' : σ} {result : Except ε α} (hs : R s)
    (hrun : step.run.run s = (result, s')) : R s' ∧ Yields p F result := by
  have hend := h s hs
  rwa [hrun] at hend

theorem keeps_bind {f : α → ExceptT ε (StateM σ) β} (hstep : Keeps R step p F)
    (hf : ∀ a, p a → Keeps R (f a) q F) : Keeps R (step >>= f) q F := by
  intro s hs
  have hend := hstep s hs
  rw [run_bind]
  generalize step.run.run s = ended at hend ⊢
  obtain ⟨result, s'⟩ := ended
  cases result with
  | ok a => exact hf a hend.2 s' hend.1
  | error e => exact hend

/-- A step and those behind it, whatever its value is. -/
theorem keeps_then {f : α → ExceptT ε (StateM σ) β} (hstep : Keeps R step p F)
    (hf : ∀ a, Keeps R (f a) q F) : Keeps R (step >>= f) q F :=
  keeps_bind hstep fun a _ => hf a

theorem keeps_pure (a : α) (ha : p a) : Keeps R (pure a : ExceptT ε (StateM σ) α) p F :=
  fun _ hs => ⟨hs, ha⟩

theorem keeps_throw (e : ε) (he : F e) : Keeps R (throw e : ExceptT ε (StateM σ) α) p F :=
  fun _ hs => ⟨hs, he⟩

theorem keeps_get : Keeps R (get : ExceptT ε (StateM σ) σ) R F := fun _ hs => ⟨hs, hs⟩

theorem keeps_set {s : σ} (hs : R s) :
    Keeps R (set s : ExceptT ε (StateM σ) PUnit) (fun _ => True) F := fun _ _ => ⟨hs, trivial⟩

theorem keeps_modify {f : σ → σ} (h : ∀ s, R s → R (f s)) :
    Keeps R (modify f : ExceptT ε (StateM σ) PUnit) (fun _ => True) F :=
  fun s hs => ⟨h s hs, trivial⟩

/-- A result that may be a failure, as a step. -/
theorem keeps_liftM {result : Except ε α} (h : Yields p F result) :
    Keeps R (liftM result : ExceptT ε (StateM σ) α) p F := by
  intro s hs
  cases result with
  | ok a => exact ⟨hs, h⟩
  | error e => exact ⟨hs, h⟩

theorem keeps_tryCatch {F' : ε → Prop} {handler : ε → ExceptT ε (StateM σ) α}
    (hstep : Keeps R step p F') (hhandler : ∀ e, F' e → Keeps R (handler e) p F) :
    Keeps R (tryCatch step handler) p F := by
  intro s hs
  have hend := hstep s hs
  rw [run_tryCatch]
  generalize step.run.run s = ended at hend ⊢
  obtain ⟨result, s'⟩ := ended
  cases result with
  | ok a => exact hend
  | error e => exact hhandler e hend.2 s' hend.1

theorem keeps_forIn {items : List β} {body : β → PUnit → ExceptT ε (StateM σ) (ForInStep PUnit)}
    (h : ∀ item ∈ items, Keeps R (body item ⟨⟩) (fun _ => True) F) :
    Keeps R (forIn items PUnit.unit body) (fun _ => True) F := by
  induction items with
  | nil => exact keeps_pure _ trivial
  | cons item items ih =>
    obtain ⟨hitem, hitems⟩ := List.forall_mem_cons.mp h
    rw [List.forIn_cons]
    refine keeps_then hitem fun next => ?_
    cases next with
    | done => exact keeps_pure _ trivial
    | yield => exact ih hitems

/-- Refusing to go on. -/
theorem keeps_unless {c : Prop} [Decidable c] {e : ε} {next : PUnit → ExceptT ε (StateM σ) α}
    (he : F e) (hnext : Keeps R (next ⟨⟩) p F) :
    Keeps R (if c then (throw e >>= next) else next ⟨⟩) p F := by
  split
  next => exact keeps_bind (p := fun _ => True) (keeps_throw e he) fun _ _ => hnext
  next => exact hnext

/-- A step that is done in one case only, and those behind it. -/
theorem keeps_when {c : Prop} [Decidable c] {step : ExceptT ε (StateM σ) PUnit}
    {next : PUnit → ExceptT ε (StateM σ) β} (hstep : Keeps R step (fun _ => True) F)
    (hnext : ∀ a, Keeps R (next a) q F) :
    Keeps R (if c then step >>= next else next ⟨⟩) q F := by
  split
  next => exact keeps_then hstep hnext
  next => exact hnext ⟨⟩

end Rules

/-! ## Parts of a state -/

section Parts

variable {p : α → Prop} {F : Failure → Prop}

/-- A step on the host keeps on the node what it keeps on the host. -/
theorem keeps_ofHost {R : NodeState → Prop} {step : HostStep α}
    (h : ∀ s : NodeState, Keeps (fun host => R { s with host }) step p F) :
    Keeps R (NodeStep.ofHost step) p F := by
  intro s hs
  rw [run_ofHost]
  exact h s s.host hs

/-- A step on the files keeps on the host what it keeps on the files. -/
theorem keeps_onFiles {R : Host → Prop} {area : FileFault → Failure} {step : FileStep α}
    (h : ∀ host : Host, Keeps (fun files => R { host with files }) step p
      fun fault => F (Failure.ofFileFault area fault)) :
    Keeps R (Host.onFiles area step) p F := by
  intro host hhost
  rw [run_onFiles]
  obtain ⟨hR, hresult⟩ := h host host.files hhost
  exact ⟨hR, yields_mapError hresult⟩

/-- A result that may be a failure, as a step on the node. -/
theorem keeps_ofExcept {R : NodeState → Prop} {result : Except Failure α}
    (h : Yields p F result) :
    Keeps R (NodeStep.ofExcept result) (fun a => result = .ok a ∧ p a) F := by
  cases result with
  | ok a => exact keeps_pure a ⟨rfl, h⟩
  | error failure => exact keeps_throw failure h

end Parts

end NodeBootstrap
