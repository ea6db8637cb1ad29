import NodeBootstrap.Text.Basic

/-!
# Outcomes of readers

Readers give a result or a fault. What a sequence of them gives is known from what its parts give;
all laws about readers take a successful run apart with the lemmas here.
-/

set_option autoImplicit false

namespace NodeBootstrap

variable {ε ε' α β : Type}

/-- A sequence succeeds exactly if both of its parts do. -/
theorem bind_eq_ok {x : Except ε α} {f : α → Except ε β} {b : β} :
    x >>= f = .ok b ↔ ∃ a, x = .ok a ∧ f a = .ok b := by
  cases x with
  | error e => exact ⟨nofun, nofun⟩
  | ok a => exact ⟨fun h => ⟨a, rfl, h⟩, fun ⟨_, ha, h⟩ => by cases ha; exact h⟩

/-- What is to hold of a result can be decided where the result is known. -/
instance decidableForallSome {x : Option α} {p : α → Prop} [DecidablePred p] :
    Decidable (∀ a, x = some a → p a) :=
  decidable_of_iff (x.all (decide <| p ·) = true) (by cases x <;> simp)

instance decidableForallOk {x : Except ε α} {p : α → Prop} [DecidablePred p] :
    Decidable (∀ a, x = .ok a → p a) :=
  decidable_of_iff (∀ a, x.toOption = some a → p a) (by cases x <;> simp [Except.toOption])

theorem eq_ok_of_isOk {x : Except ε Unit} (h : x.isOk = true) : x = .ok () := by
  cases x with
  | error e => exact nomatch h
  | ok _ => rfl

/-- A run that goes through, by what it leaves. -/
theorem eq_mk_of_isOk {σ : Type} {ran : Except ε Unit × σ} (h : ran.1.isOk = true) :
    ran = (.ok (), ran.2) := Prod.ext (eq_ok_of_isOk h) rfl

theorem eq_ok_of_toOption {x : Except ε α} {a : α} (h : x.toOption = some a) : x = .ok a := by
  cases x with
  | error e => exact nomatch h
  | ok b => exact congrArg Except.ok (Option.some.inj h)

/-- A first part that succeeds hands its result on. -/
theorem ok_bind (a : α) (f : α → Except ε β) : (Except.ok a >>= f) = f a := rfl

theorem mapError_ok (f : ε → ε') (a : α) :
    (Except.ok a : Except ε α).mapError f = .ok a := rfl

/-- Naming a fault anew changes no result. -/
theorem mapError_eq_ok {f : ε → ε'} {x : Except ε α} {a : α} :
    x.mapError f = .ok a ↔ x = .ok a := by
  cases x with
  | error e => exact ⟨nofun, nofun⟩
  | ok b => exact ⟨fun h => by cases h; rfl, fun h => by cases h; rfl⟩

end NodeBootstrap
