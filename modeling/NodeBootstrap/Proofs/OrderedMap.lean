import NodeBootstrap.OrderedMap

/-!
# Maps from lists with repeated keys

A list of entries may write a key more than once; the last entry counts. `OrderedMap.lastOf` is the
value that counts, and the map of a list has exactly these values, each key once.
`OrderedMap.latest` keeps the entries that count where they stand.
-/

set_option autoImplicit false

namespace NodeBootstrap.OrderedMap

variable {κ α : Type} [DecidableEq κ]

/-- The value of the last entry with a key. -/
def lastOf (entries : List (κ × α)) (k : κ) : Option α :=
  match entries with
  | [] => none
  | e :: rest => (lastOf rest k).or (if e.1 = k then some e.2 else none)

@[simp] theorem lastOf_nil (k : κ) : lastOf ([] : List (κ × α)) k = none := rfl

theorem lastOf_append (first second : List (κ × α)) (k : κ) :
    lastOf (first ++ second) k = (lastOf second k).or (lastOf first k) := by
  induction first with
  | nil => rw [List.nil_append, lastOf_nil, Option.or_none]
  | cons e first ih => rw [List.cons_append, lastOf, ih, Option.or_assoc, lastOf]

/-- A key that no entry has. -/
theorem lastOf_eq_none {entries : List (κ × α)} {k : κ} :
    lastOf entries k = none ↔ ∀ e ∈ entries, e.1 ≠ k := by
  induction entries with
  | nil => exact ⟨fun _ => nofun, fun _ => rfl⟩
  | cons e entries ih =>
    rw [lastOf, Option.or_eq_none_iff, ih, List.forall_mem_cons, and_comm]
    refine and_congr_left fun _ => ?_
    by_cases hk : e.1 = k <;> simp [hk]

/-- A key that some entry has. -/
theorem lastOf_ne_none {entries : List (κ × α)} {k : κ} :
    lastOf entries k ≠ none ↔ k ∈ keys entries := by
  rw [ne_eq, lastOf_eq_none, keys, List.mem_map]
  simp only [Classical.not_forall, ne_eq, Classical.not_not, exists_prop]

theorem mem_of_lastOf {entries : List (κ × α)} {k : κ} {a : α} (h : lastOf entries k = some a) :
    (k, a) ∈ entries := by
  induction entries with
  | nil => cases h
  | cons e entries ih =>
    rw [lastOf] at h
    rcases Option.or_eq_some_iff.mp h with hrest | ⟨-, hfirst⟩
    · exact List.mem_cons_of_mem _ (ih hrest)
    · split at hfirst
      next hkey =>
        cases hfirst
        exact hkey ▸ List.mem_cons_self
      next => cases hfirst

/-- Where all entries of a key have the same value, that is the one that counts. -/
theorem lastOf_eq_of_forall {entries : List (κ × α)} {k : κ} {a : α} (hmem : (k, a) ∈ entries)
    (hsame : ∀ e ∈ entries, e.1 = k → e.2 = a) : lastOf entries k = some a := by
  cases hlast : lastOf entries k with
  | none => exact absurd rfl (lastOf_eq_none.mp hlast (k, a) hmem)
  | some b => rw [← hsame (k, b) (mem_of_lastOf hlast) rfl]

/-- Setting one entry after the other leaves the values that count. -/
theorem get?_merge (m : OrderedMap κ α) (entries : List (κ × α)) (k : κ) :
    (m.merge entries).get? k = (lastOf entries k).or (m.get? k) := by
  induction entries generalizing m with
  | nil => rfl
  | cons e entries ih =>
    have hstep : (m.set e.1 e.2).get? k = (if e.1 = k then some e.2 else none).or (m.get? k) := by
      by_cases hk : e.1 = k
      · rw [if_pos hk, hk, get?_set_self, Option.some_or]
      · rw [if_neg hk, get?_set_ne m e.2 hk, Option.none_or]
    rw [lastOf, Option.or_assoc, ← hstep]
    exact ih (m.set e.1 e.2)

/-- The map of a list has the values that count. -/
theorem get?_ofList (entries : List (κ × α)) (k : κ) :
    (ofList entries).get? k = lastOf entries k := by
  rw [ofList, get?_merge, get?_nil, Option.or_none]

/-- The entries that count, each at its own place: those whose key no later entry has. -/
def latest (entries : List (κ × α)) : OrderedMap κ α :=
  match entries with
  | [] => []
  | e :: rest => if e.1 ∈ keys rest then latest rest else e :: latest rest

theorem latest_sublist (entries : List (κ × α)) : (latest entries).Sublist entries := by
  induction entries with
  | nil => exact .slnil
  | cons e rest ih =>
    rw [latest]
    split
    next => exact ih.cons e
    next => exact ih.cons_cons e

theorem nodup_keys_latest (entries : List (κ × α)) : (latest entries).keys.Nodup := by
  induction entries with
  | nil => exact List.nodup_nil
  | cons e rest ih =>
    rw [latest]
    split
    next => exact ih
    next hk => exact List.nodup_cons.mpr ⟨fun h => hk (((latest_sublist rest).map _).subset h), ih⟩

/-- The entries that count have the values that count. -/
theorem get?_latest (entries : List (κ × α)) (k : κ) :
    (latest entries).get? k = lastOf entries k := by
  induction entries with
  | nil => rfl
  | cons e rest ih =>
    rw [latest, lastOf]
    split
    next hlater =>
      rw [ih]
      split
      next hk =>
        have hsome : lastOf rest k ≠ none := lastOf_ne_none.mpr (hk ▸ hlater)
        obtain ⟨v, hv⟩ := Option.ne_none_iff_exists'.mp hsome
        rw [hv, Option.some_or]
      next => rw [Option.or_none]
    next hlast =>
      rw [get?, ih]
      split
      next hk =>
        have hnone : lastOf rest k = none :=
          Classical.not_not.mp (mt lastOf_ne_none.mp (hk ▸ hlast))
        rw [hnone, Option.none_or]
      next => rw [Option.or_none]

/-- Of distinct keys the first entry is the last. -/
theorem lastOf_eq_get? {m : OrderedMap κ α} (h : m.keys.Nodup) (k : κ) : lastOf m k = m.get? k := by
  induction m with
  | nil => rfl
  | cons e rest ih =>
    obtain ⟨hfirst, hrest⟩ := List.nodup_cons.mp h
    rw [lastOf, ih hrest, get?]
    split
    next hk =>
      have hnone : get? rest k = none := by
        rw [← ih hrest, lastOf_eq_none]
        intro e' he' heq
        exact hfirst (List.mem_map.mpr ⟨e', he', heq.trans hk.symm⟩)
      rw [hnone, Option.none_or]
    next => rw [Option.or_none]

/-- What is in a map behind a setting was there or is set. -/
theorem mem_set {m : OrderedMap κ α} {k : κ} {v : α} {e : κ × α}
    (h : e ∈ m.set k v) : e = (k, v) ∨ e ∈ m := by
  induction m with
  | nil => exact .inl (List.mem_singleton.mp h)
  | cons first rest ih =>
    rw [set] at h
    split at h
    next =>
      exact (List.mem_cons.mp h).imp id (List.mem_cons_of_mem _)
    next =>
      rcases List.mem_cons.mp h with rfl | h
      · exact .inr List.mem_cons_self
      · exact (ih h).imp id (List.mem_cons_of_mem _)

/-- What is in a map behind settings was there or is set. -/
theorem mem_merge {m : OrderedMap κ α} {entries : List (κ × α)} {e : κ × α}
    (h : e ∈ m.merge entries) : e ∈ entries ∨ e ∈ m := by
  induction entries generalizing m with
  | nil => exact .inr h
  | cons first entries ih =>
    rcases ih h with he | he
    · exact .inl (List.mem_cons_of_mem _ he)
    · rcases mem_set he with rfl | he
      · exact .inl List.mem_cons_self
      · exact .inr he

/-- What is in the map of a list is in the list. -/
theorem mem_of_mem_ofList {entries : List (κ × α)} {e : κ × α} (h : e ∈ ofList entries) :
    e ∈ entries :=
  (mem_merge (m := []) h).resolve_right List.not_mem_nil

/-- Setting a key leaves the keys distinct. -/
theorem nodup_keys_set {m : OrderedMap κ α} (h : m.keys.Nodup) (k : κ) (v : α) :
    (m.set k v).keys.Nodup := by
  rw [keys_set]
  split
  next => exact h
  next hk =>
    refine List.nodup_append.mpr ⟨h, List.pairwise_singleton _ _, fun a ha b hb => ?_⟩
    rw [List.mem_singleton.mp hb]
    rintro rfl
    exact hk ha

theorem nodup_keys_merge {m : OrderedMap κ α} (h : m.keys.Nodup) (entries : List (κ × α)) :
    (m.merge entries).keys.Nodup := by
  induction entries generalizing m with
  | nil => exact h
  | cons e entries ih => exact ih (nodup_keys_set h e.1 e.2)

/-- The map of a list has each key once. -/
theorem nodup_keys_ofList (entries : List (κ × α)) : (ofList entries).keys.Nodup :=
  nodup_keys_merge (m := []) List.nodup_nil entries

/-- What the map of a list sets is what the list sets. -/
theorem get?_merge_ofList (m : OrderedMap κ α) (entries : List (κ × α)) (k : κ) :
    (m.merge (ofList entries)).get? k = (lastOf entries k).or (m.get? k) := by
  rw [get?_merge, lastOf_eq_get? (nodup_keys_ofList entries), get?_ofList]

/-- The keys are those that have a value. -/
theorem mem_keys_iff {m : OrderedMap κ α} {k : κ} : k ∈ m.keys ↔ m.get? k ≠ none := by
  induction m with
  | nil => exact ⟨nofun, fun h => absurd rfl h⟩
  | cons e rest ih =>
    have hkeys : k ∈ keys (e :: rest) ↔ k = e.1 ∨ k ∈ keys rest := List.mem_cons
    rw [hkeys, ih, get?]
    by_cases hk : e.1 = k
    · rw [if_pos hk]
      exact ⟨fun _ => Option.some_ne_none _, fun _ => .inl hk.symm⟩
    · rw [if_neg hk]
      exact or_iff_right fun heq => hk heq.symm

omit [DecidableEq κ] in
theorem mem_keys_append {first second : OrderedMap κ α} {k : κ} :
    k ∈ (first ++ second : OrderedMap κ α).keys ↔ k ∈ first.keys ∨ k ∈ second.keys := by
  rw [keys, List.map_append, List.mem_append]
  rfl

theorem get?_eq_none {m : OrderedMap κ α} {k : κ} (h : k ∉ m.keys) : m.get? k = none :=
  Classical.not_not.mp (mt mem_keys_iff.mpr h)

/-- The entries of a map with distinct keys are the values of its keys. -/
theorem mem_iff_get? {m : OrderedMap κ α} (h : m.keys.Nodup) (e : κ × α) :
    e ∈ m ↔ m.get? e.1 = some e.2 := by
  induction m with
  | nil => exact ⟨nofun, nofun⟩
  | cons first rest ih =>
    obtain ⟨hfirst, hrest⟩ := List.nodup_cons.mp h
    rw [List.mem_cons, ih hrest, get?]
    by_cases hk : first.1 = e.1
    · have hnone : get? rest e.1 ≠ some e.2 := fun hget => by
        have hmem : e.1 ∈ rest.map (·.1) := List.mem_map_of_mem ((ih hrest).mpr hget)
        exact hfirst (hk ▸ hmem : first.1 ∈ rest.map (·.1))
      rw [if_pos hk, or_iff_left hnone, Option.some.injEq]
      exact ⟨fun heq => congrArg Prod.snd heq.symm, fun hv => Prod.ext hk.symm hv.symm⟩
    · rw [if_neg hk, or_iff_right fun heq => hk (congrArg Prod.fst heq.symm)]

/-- Maps with the same values have the same entries, but for their order. -/
theorem perm_of_get?_eq {m m' : OrderedMap κ α} (hm : m.keys.Nodup) (hm' : m'.keys.Nodup)
    (h : ∀ k, m.get? k = m'.get? k) : m.Perm m' := by
  have hnodup : ∀ m : OrderedMap κ α, m.keys.Nodup → List.Nodup m := fun m hm =>
    List.Pairwise.of_map (·.1) (fun _ _ hne heq => hne (congrArg Prod.fst heq)) hm
  apply (List.perm_ext_iff_of_nodup (hnodup m hm) (hnodup m' hm')).mpr
  intro e
  rw [mem_iff_get? hm, mem_iff_get? hm', h]

theorem get?_append (first second : OrderedMap κ α) (k : κ) :
    (first ++ second : OrderedMap κ α).get? k = (first.get? k).or (second.get? k) := by
  induction first with
  | nil => rfl
  | cons e first ih =>
    by_cases hk : e.1 = k
    · simp only [List.cons_append, get?, if_pos hk, Option.some_or]
    · simpa only [List.cons_append, get?, if_neg hk] using ih

/-! ## Setting a key that is not there -/

theorem set_append {m : OrderedMap κ α} {k : κ} (hk : k ∉ m.keys) (others : OrderedMap κ α)
    (v : α) :
    (m ++ others : OrderedMap κ α).set k v = m ++ others.set k v := by
  induction m with
  | nil => rfl
  | cons e m ih =>
    obtain ⟨hne, hk⟩ := not_or.mp (mt List.mem_cons.mpr hk)
    rw [List.cons_append, set, if_neg (Ne.symm hne), ih hk]
    rfl

theorem set_of_not_mem {m : OrderedMap κ α} {k : κ} (hk : k ∉ m.keys) (v : α) :
    m.set k v = m ++ [(k, v)] := by
  rw [← List.append_nil m, set_append hk, List.append_nil]
  rfl

/-- Entries with distinct keys go behind a map as they are. -/
theorem merge_of_nodup {m : OrderedMap κ α} {entries : List (κ × α)}
    (h : (keys (m ++ entries)).Nodup) : m.merge entries = m ++ entries := by
  induction entries generalizing m with
  | nil => exact (List.append_nil m).symm
  | cons e entries ih =>
    have hstep : m ++ e :: entries = (m ++ [e]) ++ entries := by
      rw [List.append_assoc, List.singleton_append]
    have hk : e.1 ∉ m.keys := by
      intro hmem
      rw [keys, List.map_append, List.nodup_append] at h
      exact h.2.2 e.1 hmem e.1 List.mem_cons_self rfl
    rw [hstep] at h ⊢
    have hrest := ih h
    rwa [← set_of_not_mem hk] at hrest ⊢

/-- A list with distinct keys is the map that it writes. -/
theorem ofList_of_nodup {m : OrderedMap κ α} (h : m.keys.Nodup) : ofList m = m :=
  merge_of_nodup (m := []) h

/-- The map of one key, if that has a value. -/
def ofOption (k : κ) (v : Option α) : OrderedMap κ α := (v.map fun v => (k, v)).toList

omit [DecidableEq κ] in
theorem eq_of_mem_keys_ofOption {k j : κ} {v : Option α} (h : j ∈ (ofOption k v).keys) : j = k := by
  cases v with
  | none => cases h
  | some v => exact List.mem_singleton.mp h

theorem merge_ofOption {m : OrderedMap κ α} {k : κ} (hk : k ∉ m.keys) (v : Option α) :
    m.merge (ofOption k v) = m ++ ofOption k v := by
  cases v with
  | none => exact (List.append_nil m).symm
  | some v => exact set_of_not_mem hk v

theorem merge_append (m : OrderedMap κ α) (first second : List (κ × α)) :
    m.merge (first ++ second) = (m.merge first).merge second := List.foldl_append

/-! ## Setting a key again -/

theorem set_set (m : OrderedMap κ α) (k : κ) (v w : α) : (m.set k v).set k w = m.set k w := by
  induction m with
  | nil => simp only [set, if_true]
  | cons e m ih =>
    by_cases hk : e.1 = k
    · simp only [set, if_pos hk, if_true]
    · simp only [set, if_neg hk, ih]

/-- A key that is there is set before or after another alike. -/
theorem set_comm_of_mem {m : OrderedMap κ α} {k : κ} (hk : k ∈ m.keys) {j : κ} (hne : j ≠ k)
    (v w : α) : (m.set k v).set j w = (m.set j w).set k v := by
  induction m with
  | nil => cases hk
  | cons e m ih =>
    by_cases hek : e.1 = k
    · have hej : e.1 ≠ j := fun h => hne (h.symm.trans hek)
      simp only [set, if_pos hek, if_neg hej, if_neg hne.symm]
    · have hk : k ∈ keys m := by
        rcases List.mem_cons.mp hk with hk | hk
        · exact absurd hk.symm hek
        · exact hk
      by_cases hej : e.1 = j
      · simp only [set, if_neg hek, if_pos hej, if_neg hne]
      · simp only [set, if_neg hek, if_neg hej, ih hk]

private theorem mem_keys_set (m : OrderedMap κ α) (k : κ) (v : α) : k ∈ (m.set k v).keys := by
  rw [keys_set]
  split
  next hk => exact hk
  next => exact List.mem_append_right _ (List.mem_singleton.mpr rfl)

/-- A key stays there when another is set. -/
theorem mem_keys_set_of_mem {m : OrderedMap κ α} {k : κ} (hk : k ∈ m.keys) (j : κ) (v : α) :
    k ∈ (m.set j v).keys := by
  rw [keys_set]
  split
  next => exact hk
  next => exact List.mem_append_left _ hk

/-- Setting a key before entries of other keys is setting it behind them, if it is there. -/
theorem merge_set {m : OrderedMap κ α} {k : κ} (hk : k ∈ m.keys) (v : α)
    {entries : List (κ × α)} (hentries : ∀ e ∈ entries, e.1 ≠ k) :
    (m.set k v).merge entries = (m.merge entries).set k v := by
  induction entries generalizing m with
  | nil => rfl
  | cons e entries ih =>
    obtain ⟨he, hentries⟩ := List.forall_mem_cons.mp hentries
    show ((m.set k v).set e.1 e.2).merge entries = ((m.set e.1 e.2).merge entries).set k v
    rw [set_comm_of_mem hk he, ih (mem_keys_set_of_mem hk e.1 e.2) hentries]

/-- Setting a key to the value that it has changes nothing. -/
theorem set_eq_self {m : OrderedMap κ α} {k : κ} {v : α} (h : m.get? k = some v) :
    m.set k v = m := by
  induction m with
  | nil => cases h
  | cons e m ih =>
    rw [get?] at h
    rw [set]
    split at h
    next hk =>
      rw [if_pos hk, ← Option.some.inj h, ← hk]
    next hk => rw [if_neg hk, ih h]

/-- Setting a key before entries that set it too changes nothing behind them, if it is there. -/
theorem merge_set_of_mem {m : OrderedMap κ α} {k : κ} (hk : k ∈ m.keys) (v : α)
    {entries : List (κ × α)} (hentries : k ∈ keys entries) :
    (m.set k v).merge entries = m.merge entries := by
  induction entries generalizing m with
  | nil => cases hentries
  | cons e entries ih =>
    show ((m.set k v).set e.1 e.2).merge entries = (m.set e.1 e.2).merge entries
    by_cases he : e.1 = k
    · rw [he, set_set]
    · have hrest : k ∈ keys entries := (List.mem_cons.mp hentries).resolve_left (Ne.symm he)
      rw [set_comm_of_mem hk he, ih (mem_keys_set_of_mem hk e.1 e.2) hrest]

/-- Setting what is set already, each key to the value that counts, changes nothing. -/
theorem merge_eq_self {m : OrderedMap κ α} {entries : List (κ × α)}
    (h : ∀ k ∈ keys entries, m.get? k = lastOf entries k) : m.merge entries = m := by
  induction entries with
  | nil => rfl
  | cons e entries ih =>
    have hrest : m.merge entries = m := by
      refine ih fun k hk => ?_
      obtain ⟨v, hv⟩ := Option.ne_none_iff_exists'.mp (lastOf_ne_none.mpr hk)
      rw [h k (List.mem_cons_of_mem _ hk), lastOf, hv, Option.some_or]
    have hthere : e.1 ∈ m.keys := by
      rw [mem_keys_iff, h e.1 List.mem_cons_self]
      exact lastOf_ne_none.mpr List.mem_cons_self
    show (m.set e.1 e.2).merge entries = m
    by_cases he : e.1 ∈ keys entries
    · rw [merge_set_of_mem hthere e.2 he, hrest]
    · have hnone : lastOf entries e.1 = none := Classical.not_not.mp (mt lastOf_ne_none.mp he)
      have hapart : ∀ e' ∈ entries, e'.1 ≠ e.1 := lastOf_eq_none.mp hnone
      rw [merge_set hthere e.2 hapart, hrest]
      apply set_eq_self
      rw [h e.1 List.mem_cons_self, lastOf, hnone, Option.none_or, if_pos rfl]

/-- Setting entries again changes nothing. -/
theorem merge_merge_self (m : OrderedMap κ α) (entries : List (κ × α)) :
    (m.merge entries).merge entries = m.merge entries := by
  refine merge_eq_self fun k hk => ?_
  obtain ⟨v, hv⟩ := Option.ne_none_iff_exists'.mp (lastOf_ne_none.mpr hk)
  rw [get?_merge, hv, Option.some_or]

/-- Another value in the entry that counts is another value in the map, at the same place. -/
theorem ofList_replace {before after : List (κ × α)} {k : κ} (v w : α)
    (hafter : ∀ e ∈ after, e.1 ≠ k) :
    ofList (before ++ (k, w) :: after) = (ofList (before ++ (k, v) :: after)).set k w := by
  have hsplit : ∀ u, ofList (before ++ (k, u) :: after) = ((ofList before).set k u).merge after :=
    fun u => List.foldl_append
  rw [hsplit, hsplit, ← merge_set (mem_keys_set _ k v) w hafter, set_set]

end NodeBootstrap.OrderedMap
