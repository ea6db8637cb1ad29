import NodeBootstrap.Proofs.Json.Locality
import NodeBootstrap.Proofs.OrderedMap

/-!
# What holds of every part of a document

A document is a tree, and `Json.parts` lists the values in it, the document itself first. What the
reader takes care of holds of every part (`Json.proper_of_readValue`): the keys of an object are
distinct, since a key that is written twice only replaces the value, and a whole number is spelled
without zeros in front and within the limit of digits.
-/

set_option autoImplicit false

namespace NodeBootstrap.Json

/-! ## Parts -/

mutual

/-- A value and all values inside of it. -/
def parts : Json → List Json
  | .array items => .array items :: partsOfItems items
  | .object members => .object members :: partsOfMembers members
  | v => [v]

/-- The parts of the items of an array. -/
def partsOfItems : List Json → List Json
  | [] => []
  | v :: rest => parts v ++ partsOfItems rest

/-- The parts of the values of members. -/
def partsOfMembers : List (Text × Json) → List Json
  | [] => []
  | (_, v) :: rest => parts v ++ partsOfMembers rest

end

section Parts

variable {p : Json → Prop} {items : List Json} {members : List (Text × Json)}

theorem mem_parts_self (v : Json) : v ∈ v.parts := by
  cases v <;> exact List.mem_cons_self

theorem forall_partsOfItems :
    (∀ w ∈ partsOfItems items, p w) ↔ ∀ v ∈ items, ∀ w ∈ v.parts, p w := by
  induction items with
  | nil => exact iff_of_true nofun nofun
  | cons v rest ih => rw [partsOfItems, List.forall_mem_append, List.forall_mem_cons, ih]

theorem forall_partsOfMembers :
    (∀ w ∈ partsOfMembers members, p w) ↔ ∀ e ∈ members, ∀ w ∈ e.2.parts, p w := by
  induction members with
  | nil => exact iff_of_true nofun nofun
  | cons e rest ih => rw [partsOfMembers, List.forall_mem_append, List.forall_mem_cons, ih]

/-- What holds of every part of an array. -/
theorem forall_parts_array :
    (∀ w ∈ (Json.array items).parts, p w) ↔
      p (.array items) ∧ ∀ v ∈ items, ∀ w ∈ v.parts, p w := by
  rw [parts, List.forall_mem_cons, forall_partsOfItems]

/-- What holds of every part of an object. -/
theorem forall_parts_object :
    (∀ w ∈ (Json.object members).parts, p w) ↔
      p (.object members) ∧ ∀ e ∈ members, ∀ w ∈ e.2.parts, p w := by
  rw [parts, List.forall_mem_cons, forall_partsOfMembers]

end Parts

/-! ## Digits -/

/-- Digits without a zero in front, but for zero itself. -/
inductive CanonicalDigits : Text → Prop
  | zero : CanonicalDigits [.char '0']
  | lead {d : CodePoint} {ds : Text} (nonzero : d ≠ .char '0')
    (digits : ∀ c ∈ d :: ds, c.isDigit = true) : CanonicalDigits (d :: ds)

theorem canonicalDigits_of_wholePart? {t whole rest : Text}
    (h : wholePart? t = some (whole, rest)) : CanonicalDigits whole := by
  cases t with
  | nil => cases h
  | cons c t =>
    rw [wholePart?] at h
    split at h
    next hzero =>
      cases h
      rw [hzero]
      exact .zero
    next hzero =>
      split at h
      next hdigit =>
        cases h
        rw [List.takeWhile_cons_of_pos hdigit]
        refine .lead hzero (List.forall_mem_cons.mpr ⟨hdigit, fun d hd => ?_⟩)
        exact List.all_eq_true.mp List.all_takeWhile d hd
      next => cases h

theorem canonicalDigits_of_numberAt? {t rest : Text} {l : DecimalLiteral}
    (h : numberAt? t = some (l, rest)) : CanonicalDigits l.whole := by
  unfold numberAt? at h
  split at h
  dsimp only at h
  split at h
  next => cases h
  next hwhole =>
    cases h
    exact canonicalDigits_of_wholePart? hwhole

/-! ## What the reader takes care of -/

/-- Whether a value, apart from the values inside of it, is as the reader gives it. -/
def Proper : Json → Prop
  | .number l => CanonicalDigits l.whole ∧ (l.isWhole = true → l.whole.length ≤ digitLimit)
  | .object members => (OrderedMap.keys members).Nodup
  | _ => True

/-- The values that are read with this fuel are proper in every part. -/
private def GivesValues (fuel : Nat) : Prop :=
  ∀ (c behind : Cursor) (v : Json), readValue fuel c = .ok (v, behind) → ∀ w ∈ v.parts, w.Proper

private def GivesMembers (fuel : Nat) : Prop :=
  ∀ (c behind : Cursor) (members : List (Text × Json)),
    readMembers fuel c = .ok (members, behind) → ∀ e ∈ members, ∀ w ∈ e.2.parts, w.Proper

private def GivesItems (fuel : Nat) : Prop :=
  ∀ (c behind : Cursor) (items : List Json), readItems fuel c = .ok (items, behind) →
    ∀ v ∈ items, ∀ w ∈ v.parts, w.Proper

private theorem proper_of_scalarAt {c behind : Cursor} {v : Json}
    (h : scalarAt c = .ok (v, behind)) : ∀ w ∈ v.parts, w.Proper := by
  unfold scalarAt at h
  split at h
  next word v' hword =>
    cases h
    have hmem : (word, v) ∈ words := List.mem_of_find?_eq_some hword
    simp only [words, List.mem_cons, List.not_mem_nil, or_false, Prod.mk.injEq] at hmem
    rcases hmem with ⟨-, rfl⟩ | ⟨-, rfl⟩ | ⟨-, rfl⟩ | ⟨-, rfl⟩ | ⟨-, rfl⟩ | ⟨-, rfl⟩ <;>
      exact List.forall_mem_singleton.mpr trivial
  next =>
    split at h
    next => cases h
    next l rest hnumber =>
      split at h
      next => cases h
      next hlimit =>
        cases h
        have hlength : l.isWhole = true → l.whole.length ≤ digitLimit := fun hwhole =>
          Nat.le_of_not_lt fun hmore => hlimit ⟨hwhole, hmore⟩
        exact List.forall_mem_singleton.mpr ⟨canonicalDigits_of_numberAt? hnumber, hlength⟩

private theorem givesValues_succ {fuel : Nat} (hmembers : GivesMembers fuel)
    (hitems : GivesItems fuel) : GivesValues (fuel + 1) := by
  intro c behind v h
  unfold readValue at h
  split at h
  next =>
    obtain ⟨_, -, heq⟩ := bind_eq_ok.mp h
    cases heq
    exact List.forall_mem_singleton.mpr trivial
  next =>
    dsimp only at h
    split at h
    next =>
      cases h
      exact List.forall_mem_singleton.mpr List.nodup_nil
    next =>
      obtain ⟨⟨members, _⟩, hread, heq⟩ := bind_eq_ok.mp h
      cases heq
      have hall := hmembers _ _ _ hread
      exact forall_parts_object.mpr ⟨OrderedMap.nodup_keys_ofList members,
        fun e he => hall e (OrderedMap.mem_of_mem_ofList he)⟩
  next =>
    dsimp only at h
    split at h
    next =>
      cases h
      exact List.forall_mem_singleton.mpr trivial
    next =>
      obtain ⟨_, hread, heq⟩ := bind_eq_ok.mp h
      cases heq
      exact forall_parts_array.mpr ⟨trivial, hitems _ _ _ hread⟩
  next => exact proper_of_scalarAt h

private theorem givesMembers_succ {fuel : Nat} (hvalues : GivesValues fuel)
    (hmembers : GivesMembers fuel) : GivesMembers (fuel + 1) := by
  intro c behind members h
  unfold readMembers at h
  split at h
  next =>
    obtain ⟨_, -, h⟩ := bind_eq_ok.mp h
    dsimp only at h
    split at h
    next =>
      obtain ⟨_, hvalue, h⟩ := bind_eq_ok.mp h
      have hv := hvalues _ _ _ hvalue
      split at h
      next =>
        cases h
        exact List.forall_mem_singleton.mpr hv
      next =>
        obtain ⟨_, hread, heq⟩ := bind_eq_ok.mp h
        cases heq
        exact List.forall_mem_cons.mpr ⟨hv, hmembers _ _ _ hread⟩
      next => cases h
    next => cases h
  next => cases h

private theorem givesItems_succ {fuel : Nat} (hvalues : GivesValues fuel)
    (hitems : GivesItems fuel) : GivesItems (fuel + 1) := by
  intro c behind items h
  unfold readItems at h
  obtain ⟨_, hvalue, h⟩ := bind_eq_ok.mp h
  have hv := hvalues _ _ _ hvalue
  dsimp only at h
  split at h
  next =>
    cases h
    exact List.forall_mem_singleton.mpr hv
  next =>
    obtain ⟨_, hread, heq⟩ := bind_eq_ok.mp h
    cases heq
    exact List.forall_mem_cons.mpr ⟨hv, hitems _ _ _ hread⟩
  next => cases h

private theorem givesAll (fuel : Nat) :
    GivesValues fuel ∧ GivesMembers fuel ∧ GivesItems fuel := by
  induction fuel with
  | zero => exact ⟨nofun, nofun, nofun⟩
  | succ fuel ih =>
    obtain ⟨hvalues, hmembers, hitems⟩ := ih
    exact ⟨givesValues_succ hmembers hitems, givesMembers_succ hvalues hmembers,
      givesItems_succ hvalues hitems⟩

/-- Every value that is read is proper in every part. -/
theorem proper_of_readValue {fuel : Nat} {c behind : Cursor} {v : Json}
    (h : readValue fuel c = .ok (v, behind)) : ∀ w ∈ v.parts, w.Proper :=
  (givesAll fuel).1 c behind v h

/-- Every document is proper in every part. -/
theorem proper_of_ofText {document : Text} {v : Json} (h : ofText document = .ok v) :
    ∀ w ∈ v.parts, w.Proper := by
  obtain ⟨⟨v', behind⟩, hvalue, h⟩ := bind_eq_ok.mp h
  dsimp only at h
  split at h
  next =>
    cases h
    exact proper_of_readValue hvalue
  next => cases h

end NodeBootstrap.Json
