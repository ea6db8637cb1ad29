/-!
# Maps that keep the order of their entries

A list of entries with distinct keys. Setting a key that is there changes its value and keeps its
place; a new key goes to the end. Flags, the members of objects and the rules for files are such
maps: their order shows in what is written.

The lemmas say what setting does to the look-up and to the keys.
-/

set_option autoImplicit false

namespace NodeBootstrap

/-- Entries in order. Only `set`, `erase` and what is built from them are used on one. -/
abbrev OrderedMap (κ α : Type) := List (κ × α)

namespace OrderedMap

variable {κ α : Type} [DecidableEq κ]

/-- The value of a key. -/
def get? (m : OrderedMap κ α) (k : κ) : Option α :=
  match m with
  | [] => none
  | (k', v) :: rest => if k' = k then some v else get? rest k

/-- Whether a key is there. -/
def hasKey (m : OrderedMap κ α) (k : κ) : Bool := (get? m k).isSome

/-- The map with a value for a key: at the key's place, at the end if it had none. -/
def set (m : OrderedMap κ α) (k : κ) (v : α) : OrderedMap κ α :=
  match m with
  | [] => [(k, v)]
  | (k', v') :: rest => if k' = k then (k, v) :: rest else (k', v') :: set rest k v

/-- The map without a key. -/
def erase (m : OrderedMap κ α) (k : κ) : OrderedMap κ α := m.filter fun e => e.1 ≠ k

/-- The map with the entries of a list set one after the other. -/
def merge (m : OrderedMap κ α) (entries : List (κ × α)) : OrderedMap κ α :=
  entries.foldl (fun m e => set m e.1 e.2) m

/-- The map that a list of entries writes: of a key written twice the last value counts, at the
first place. -/
def ofList (entries : List (κ × α)) : OrderedMap κ α := merge [] entries

/-- The keys in order. -/
def keys (m : OrderedMap κ α) : List κ := m.map (·.1)

@[simp] theorem get?_nil (k : κ) : get? ([] : OrderedMap κ α) k = none := rfl

@[simp] theorem get?_set_self (m : OrderedMap κ α) (k : κ) (v : α) :
    (m.set k v).get? k = some v := by
  induction m with
  | nil => simp [set, get?]
  | cons e rest ih =>
    by_cases h : e.1 = k
    · simp [set, get?, h]
    · simpa [set, get?, h] using ih

theorem get?_set_ne (m : OrderedMap κ α) {k j : κ} (v : α) (hne : k ≠ j) :
    (m.set k v).get? j = m.get? j := by
  induction m with
  | nil => simp [set, get?, hne]
  | cons e rest ih =>
    by_cases h : e.1 = k
    · simp [set, get?, h, hne]
    · simp [set, get?, h, ih]

/-- A key that is there keeps its place, a new one goes to the end. -/
theorem keys_set (m : OrderedMap κ α) (k : κ) (v : α) :
    (m.set k v).keys = if k ∈ m.keys then m.keys else m.keys ++ [k] := by
  induction m with
  | nil => simp [set, keys]
  | cons e rest ih =>
    by_cases h : e.1 = k
    · simp [set, keys, h]
    · have h' : ¬ k = e.1 := fun c => h c.symm
      simp only [keys] at ih
      by_cases hk : k ∈ rest.map (·.1)
      · simp [set, keys, h, ih, hk]
      · simp only [set, if_neg h, keys, List.map_cons, ih, List.mem_cons, h', hk, or_self, if_false,
          List.cons_append]

end OrderedMap

end NodeBootstrap
