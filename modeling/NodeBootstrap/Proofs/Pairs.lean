import NodeBootstrap.Proofs.Step

/-!
# What a step does from two states

A step that is run from two states may come to the same from both, though the states differ. `Pairs`
says that it does: the two runs end with the same value, or both fail, in states that are related
as is said. Why a run fails may be known only of what it leaves; so the failures are the same where
the states that the runs leave have `K`, whatever else differs.
-/

set_option autoImplicit false

namespace NodeBootstrap

variable {ε σ α β : Type} {K : σ → σ → Prop}

/-- Two runs end with the same value in `Q`, or fail in `E`, and with the same failure where `K`
holds. -/
inductive Alike (K : σ → σ → Prop) (Q : α → σ → σ → Prop) (E : σ → σ → Prop) :
    Except ε α × σ → Except ε α × σ → Prop
  | ended {a : α} {s t : σ} (h : Q a s t) : Alike K Q E (.ok a, s) (.ok a, t)
  | failed {e e' : ε} {s t : σ} (h : E s t) (hsame : K s t → e = e') :
    Alike K Q E (.error e, s) (.error e', t)

/-- From two states with `R` a step comes to the same. -/
def Pairs (K R : σ → σ → Prop) (step : ExceptT ε (StateM σ) α) (Q : α → σ → σ → Prop)
    (E : σ → σ → Prop) : Prop :=
  ∀ s t, R s t → Alike K Q E (step.run.run s) (step.run.run t)

/-- From two states with `R` a step comes to the same and to states with `R`. -/
abbrev KeepsPace (K R : σ → σ → Prop) (step : ExceptT ε (StateM σ) α) : Prop :=
  Pairs K R step (fun _ => R) R

section Rules

variable {R E : σ → σ → Prop} {Q : α → σ → σ → Prop} {S : β → σ → σ → Prop}
  {step : ExceptT ε (StateM σ) α}

/-- What holds of the states however the runs end. -/
theorem Alike.states {one other : Except ε α × σ} (h : Alike K (fun _ => R) R one other) :
    R one.2 other.2 := by
  cases h with
  | ended hR => exact hR
  | failed hR _ => exact hR

/-- Runs are alike in their results where `K` holds of the states. -/
theorem Alike.result {one other : Except ε α × σ} (h : Alike K (fun _ => R) R one other)
    (hK : R one.2 other.2 → K one.2 other.2) : one.1 = other.1 := by
  cases h with
  | ended _ => rfl
  | failed hR hsame => exact congrArg Except.error (hsame (hK hR))

/-- It is enough that a step comes to more from more states. -/
theorem Pairs.mono {R' : σ → σ → Prop} {Q' : α → σ → σ → Prop} {E' : σ → σ → Prop}
    (h : Pairs K R step Q E) (hR : ∀ s t, R' s t → R s t) (hQ : ∀ a s t, Q a s t → Q' a s t)
    (hE : ∀ s t, E s t → E' s t) : Pairs K R' step Q' E' := by
  intro s t hst
  have hend := h s t (hR s t hst)
  generalize step.run.run s = one at hend ⊢
  generalize step.run.run t = other at hend ⊢
  cases hend with
  | ended hend => exact .ended (hQ _ _ _ hend)
  | failed hend hsame => exact .failed (hE _ _ hend) hsame

theorem Pairs.ending {Q' : α → σ → σ → Prop} (h : Pairs K R step Q E)
    (hQ : ∀ a s t, Q a s t → Q' a s t) : Pairs K R step Q' E :=
  h.mono (fun _ _ hR => hR) hQ fun _ _ hE => hE

theorem Pairs.failing {E' : σ → σ → Prop} (h : Pairs K R step Q E) (hE : ∀ s t, E s t → E' s t) :
    Pairs K R step Q E' := h.mono (fun _ _ hR => hR) (fun _ _ _ hQ => hQ) hE

theorem pairs_bind {f : α → ExceptT ε (StateM σ) β} (hstep : Pairs K R step Q E)
    (hf : ∀ a, Pairs K (Q a) (f a) S E) : Pairs K R (step >>= f) S E := by
  intro s t hst
  have hend := hstep s t hst
  rw [run_bind, run_bind]
  generalize step.run.run s = one at hend ⊢
  generalize step.run.run t = other at hend ⊢
  cases hend with
  | ended hend => exact hf _ _ _ hend
  | failed hend hsame => exact .failed hend hsame

theorem pairs_pure (a : α) (h : ∀ s t, R s t → Q a s t) :
    Pairs K R (pure a : ExceptT ε (StateM σ) α) Q E := fun s t hst => .ended (h s t hst)

theorem pairs_throw (e : ε) (h : ∀ s t, R s t → E s t) :
    Pairs K R (throw e : ExceptT ε (StateM σ) α) Q E :=
  fun s t hst => .failed (h s t hst) fun _ => rfl

theorem pairs_modify {Q : PUnit → σ → σ → Prop} (f : σ → σ) (h : ∀ s t, R s t → Q ⟨⟩ (f s) (f t)) :
    Pairs K R (modify f : ExceptT ε (StateM σ) PUnit) Q E := fun s t hst => .ended (h s t hst)

/-- What does not depend on the states is known of the step. -/
theorem Pairs.knowing {p : Prop} (h : p → Pairs K R step Q E) :
    Pairs K (fun s t => p ∧ R s t) step Q E := fun s t hst => h hst.1 s t hst.2

/-- A step that begins by looking at what is the same in both states. -/
theorem pairs_get {f : σ → ExceptT ε (StateM σ) β} (hsame : ∀ s t, R s t → f s = f t)
    (h : ∀ s, Pairs K R (f s) S E) : Pairs K R (get >>= f) S E := by
  intro s t hst
  rw [run_get_bind, run_get_bind, ← hsame s t hst]
  exact h s s t hst

/-- A step whose failures are named anew. -/
theorem pairs_rename {rename : ε → ε} (h : Pairs K R step Q E) :
    Pairs K R (tryCatch step fun e => throw (rename e)) Q E := by
  intro s t hst
  have hend := h s t hst
  rw [run_tryCatch, run_tryCatch]
  generalize step.run.run s = one at hend ⊢
  generalize step.run.run t = other at hend ⊢
  cases hend with
  | ended hend => exact .ended hend
  | failed hend hsame => exact .failed hend fun hK => congrArg rename (hsame hK)

/-- A loop, from what each of its steps keeps. -/
theorem pairs_forIn {items : List β} {body : β → PUnit → ExceptT ε (StateM σ) (ForInStep PUnit)}
    (h : ∀ item, Pairs K R (body item ⟨⟩) (fun _ => R) E) :
    Pairs K R (forIn items PUnit.unit body) (fun _ => R) E := by
  induction items with
  | nil => exact pairs_pure _ fun _ _ hst => hst
  | cons item items ih =>
    rw [List.forIn_cons]
    refine pairs_bind (h item) fun next => ?_
    cases next with
    | done => exact pairs_pure _ fun _ _ hst => hst
    | yield => exact ih

end Rules

end NodeBootstrap
