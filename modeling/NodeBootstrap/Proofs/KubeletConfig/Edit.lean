import NodeBootstrap.Proofs.KubeletConfig.ObjectText
import NodeBootstrap.Proofs.KubeletConfig.Substitution
import NodeBootstrap.Proofs.OrderedMap

/-!
# Edits of an object text

An edit says what becomes of each member that counts, that is, of the last with its key. The members
that do not count stay, and so does everything between members.

Three laws carry the patches of a document. Patches, each inside the member that counts for a key,
give the text of the edited members (`substituted_edited`). An edit that leaves members spelled
leaves an object text well formed (`allSpelled_edited`). And the values of an edited object are
those of the members that counted, edited (`lastOf_edited`).

A fourth law is about a second edit. It changes nothing if it leaves what has come of each member
(`edited_eq_self`), for nothing else counts by then (`exists_of_counting_edited`).
-/

set_option autoImplicit false

namespace NodeBootstrap.KubeletConfig

open OrderedMap

namespace MemberText

/-- Members with what becomes of each that counts. -/
def edited (f : MemberText → List MemberText) : List MemberText → List MemberText
  | [] => []
  | m :: rest =>
    (if ∀ later ∈ rest, later.key ≠ m.key then f m else [m]) ++ edited f rest

/-- The member that counts for a key. -/
def counting (members : List MemberText) (key : Text) : Option MemberText :=
  lastOf (members.map fun m => (m.key, m)) key

variable {members : List MemberText} {key : Text} {m : MemberText}

@[simp] theorem counting_cons (m : MemberText) (rest : List MemberText) (key : Text) :
    counting (m :: rest) key = (counting rest key).or (if m.key = key then some m else none) := rfl

theorem counting_eq_none : counting members key = none ↔ ∀ m ∈ members, m.key ≠ key := by
  rw [counting, lastOf_eq_none]
  exact List.forall_mem_map

/-- A member counts if none behind it has its key. -/
theorem counting_split (before : List MemberText) {after : List MemberText}
    (hafter : ∀ later ∈ after, later.key ≠ m.key) :
    counting (before ++ m :: after) m.key = some m := by
  induction before with
  | nil =>
    rw [List.nil_append, counting_cons, counting_eq_none.mpr hafter, if_pos rfl, Option.none_or]
  | cons first before ih => rw [List.cons_append, counting_cons, ih, Option.some_or]

/-- Where a member that counts stands: none behind it has its key. -/
theorem exists_of_counting (h : counting members key = some m) :
    m.key = key ∧ ∃ before after, members = before ++ m :: after ∧
      ∀ later ∈ after, later.key ≠ m.key := by
  induction members with
  | nil => cases h
  | cons first rest ih =>
    rw [counting_cons] at h
    cases hrest : counting rest key with
    | some later =>
      rw [hrest, Option.some_or] at h
      cases h
      obtain ⟨hkey, before, after, rfl, hafter⟩ := ih hrest
      exact ⟨hkey, first :: before, after, rfl, hafter⟩
    | none =>
      rw [hrest, Option.none_or] at h
      split at h
      next hkey =>
        cases h
        exact ⟨hkey, [], rest, rfl, hkey ▸ counting_eq_none.mp hrest⟩
      next => cases h

/-- The value of a key is that of the member that counts. -/
theorem lastOf_entries (members : List MemberText) (key : Text) :
    lastOf (entries members) key = (counting members key).map content := by
  induction members with
  | nil => rfl
  | cons m rest ih =>
    rw [entries_cons, lastOf, ih, counting_cons]
    cases counting rest key with
    | some later => rfl
    | none =>
      rw [Option.map_none, Option.none_or, Option.none_or]
      split <;> rfl

/-! ## Places -/

/-- The keys that have a place are those of the members, wherever the members begin. -/
theorem keys_placed (place : Nat) (members : List MemberText) :
    keys (placed place members) = members.map MemberText.key := by
  induction members generalizing place with
  | nil => rfl
  | cons m rest ih => exact congrArg (m.key :: ·) (ih _)

/-- A key has no place exactly if no member has it. -/
theorem lastOf_placed_eq_none {place : Nat} :
    lastOf (placed place members) key = none ↔ ∀ m ∈ members, m.key ≠ key := by
  have hkeys := keys_placed place members
  rw [keys] at hkeys
  rw [lastOf_eq_none, ← List.forall_mem_map (P := (· ≠ key)), hkeys, List.forall_mem_map]

/-- The place of the member that counts is that of its value. -/
theorem lastOf_placed {before after : List MemberText} (place : Nat)
    (hafter : ∀ later ∈ after, later.key ≠ m.key) :
    lastOf (placed place (before ++ m :: after)) m.key =
      some ⟨m.content, place + (body before).length + m.head.length,
        place + (body before).length + m.head.length + m.value.length⟩ := by
  induction before generalizing place with
  | nil =>
    rw [List.nil_append, placed, lastOf, lastOf_placed_eq_none.mpr hafter, if_pos rfl,
      Option.none_or]
    rfl
  | cons first before ih =>
    rw [List.cons_append, placed, lastOf, ih, Option.some_or, body_cons]
    simp only [List.length_append, Nat.add_assoc]

/-- The place of a key is behind the first member, or it is that of the first member. -/
theorem lastOf_placed_cons {place : Nat} {rest : List MemberText} {found : Member}
    (h : lastOf (placed place (m :: rest)) key = some found) :
    lastOf (placed (place + m.head.length + m.value.length) rest) key = some found ∨
      (m.key = key ∧ (∀ later ∈ rest, later.key ≠ key) ∧
        found = ⟨m.content, place + m.head.length, place + m.head.length + m.value.length⟩) := by
  rw [placed, lastOf] at h
  cases hrest : lastOf (placed (place + m.head.length + m.value.length) rest) key with
  | some later =>
    rw [hrest, Option.some_or] at h
    exact .inl h
  | none =>
    rw [hrest, Option.none_or] at h
    split at h
    next hkey => exact .inr ⟨hkey, lastOf_placed_eq_none.mp hrest, (Option.some.inj h).symm⟩
    next => cases h

/-- A key that has a place has a member that counts. -/
theorem exists_counting {place : Nat} {found : Member}
    (h : lastOf (placed place members) key = some found) : ∃ m, counting members key = some m := by
  apply Option.ne_none_iff_exists'.mp
  intro hnone
  rw [lastOf_placed_eq_none.mpr (counting_eq_none.mp hnone)] at h
  cases h

/-- The member that counts for a key, from its place: the text around it and its value. -/
theorem exists_of_lastOf_placed {place : Nat} {found : Member}
    (h : lastOf (placed place members) key = some found) :
    ∃ before m after, members = before ++ m :: after ∧ m.key = key ∧
      (∀ later ∈ after, later.key ≠ m.key) ∧ counting members key = some m ∧
        found = ⟨m.content, place + (body before).length + m.head.length,
          place + (body before).length + m.head.length + m.value.length⟩ := by
  obtain ⟨m, hm⟩ := exists_counting h
  obtain ⟨rfl, before, after, rfl, hafter⟩ := exists_of_counting hm
  rw [lastOf_placed place hafter] at h
  exact ⟨before, m, after, rfl, rfl, hafter, hm, (Option.some.inj h).symm⟩

/-- What is found at a place is the value of the member that counts, as long as its text. -/
theorem found_of_counting {place : Nat} {found : Member}
    (h : lastOf (placed place members) key = some found) (hm : counting members key = some m) :
    found.value = m.content ∧ found.stop = found.start + m.value.length := by
  obtain ⟨before, m', after, -, -, -, hcounts, rfl⟩ := exists_of_lastOf_placed h
  cases hm.symm.trans hcounts
  exact ⟨rfl, rfl⟩

/-- The values at the places are those of the members that count. -/
theorem map_value_lastOf_placed (place : Nat) (members : List MemberText) (key : Text) :
    (lastOf (placed place members) key).map Member.value =
      (counting members key).map content := by
  cases hfound : lastOf (placed place members) key with
  | none => rw [counting_eq_none.mpr (lastOf_placed_eq_none.mp hfound)]; rfl
  | some found =>
    obtain ⟨m, hm⟩ := exists_counting hfound
    rw [hm, Option.map_some, Option.map_some, (found_of_counting hfound hm).1]

/-- Values lie behind the place at which members begin. -/
theorem place_lt_of_lastOf_placed {place : Nat} {found : Member}
    (hheads : ∀ m ∈ members, 0 < m.head.length)
    (h : lastOf (placed place members) key = some found) :
    place < found.start ∧ found.start ≤ found.stop ∧
      found.stop ≤ place + (body members).length := by
  obtain ⟨before, m, after, rfl, -, -, -, rfl⟩ := exists_of_lastOf_placed h
  have hhead := hheads m (List.mem_append_right _ List.mem_cons_self)
  simp only [body_append, body_cons, List.length_append]
  omega

/-- Values of different keys lie apart, with text between them. -/
theorem apart_of_lastOf_placed {place : Nat} {key' : Text} {first second : Member}
    (hheads : ∀ m ∈ members, 0 < m.head.length) (hne : key ≠ key')
    (hfirst : lastOf (placed place members) key = some first)
    (hsecond : lastOf (placed place members) key' = some second) :
    first.stop < second.start ∨ second.stop < first.start := by
  induction members generalizing place with
  | nil => cases hfirst
  | cons m rest ih =>
    obtain ⟨-, hheads⟩ := List.forall_mem_cons.mp hheads
    rcases lastOf_placed_cons hfirst with hfirst | ⟨hkey, -, rfl⟩ <;>
      rcases lastOf_placed_cons hsecond with hsecond | ⟨hkey', -, rfl⟩
    · exact ih hheads hfirst hsecond
    · exact .inr (place_lt_of_lastOf_placed hheads hfirst).1
    · exact .inl (place_lt_of_lastOf_placed hheads hsecond).1
    · exact absurd (hkey.symm.trans hkey') hne

/-! ## Patches inside members -/

/-- Patches for keys, each inside the member that counts for its key. -/
def PicksWithin (picks : List (Text × Patch)) (place : Nat) (members : List MemberText) : Prop :=
  ∀ e ∈ picks, ∃ found, lastOf (placed place members) e.1 = some found ∧
    e.2.Within found.start found.stop

/-- The patches that are meant for a key. -/
def patchesOf (picks : List (Text × Patch)) (key : Text) : List Patch :=
  (picks.filter fun e => e.1 = key).map Prod.snd

variable {place : Nat} {picks : List (Text × Patch)} {rest : List MemberText}

/-- Without patches nothing is meant for a key. -/
theorem patchesOf_filter_ne {key' : Text} (hne : key ≠ key') :
    patchesOf (picks.filter fun e => e.1 ≠ key') key = patchesOf picks key := by
  rw [patchesOf, List.filter_filter, patchesOf]
  refine congrArg (List.map Prod.snd) (List.filter_congr fun e _ => ?_)
  rw [Bool.eq_iff_iff, Bool.and_eq_true, decide_eq_true_eq, decide_eq_true_eq]
  exact ⟨fun h => h.1, fun h => ⟨h, fun heq => hne (h.symm.trans heq)⟩⟩

/-- Behind the first member lie the patches of keys that a later member has. -/
theorem PicksWithin.behind (hheads : ∀ m ∈ rest, 0 < m.head.length)
    (h : PicksWithin picks (place + m.head.length + m.value.length) rest) :
    ∀ e ∈ picks, place + m.head.length + m.value.length < e.2.start := by
  intro e he
  obtain ⟨found, hfound, hwithin⟩ := h e he
  exact Nat.lt_of_lt_of_le (place_lt_of_lastOf_placed hheads hfound).1 hwithin.1

/-- All patches lie inside the members. -/
theorem PicksWithin.span (hheads : ∀ m ∈ members, 0 < m.head.length)
    (h : PicksWithin picks place members) :
    ∀ p ∈ picks.map Prod.snd, p.Within place (place + (body members).length) := by
  intro p hp
  obtain ⟨e, he, rfl⟩ := List.mem_map.mp hp
  obtain ⟨found, hfound, hstart, hspan, hstop⟩ := h e he
  obtain ⟨hfirst, -, hlast⟩ := place_lt_of_lastOf_placed hheads hfound
  exact ⟨Nat.le_trans (Nat.le_of_lt hfirst) hstart, hspan, Nat.le_trans hstop hlast⟩

/-- All patches lie behind the head of the first member. -/
theorem PicksWithin.substituted_head (hheads : ∀ m ∈ rest, 0 < m.head.length)
    (h : PicksWithin picks place (m :: rest)) :
    Patch.substituted (picks.map Prod.snd) place (body (m :: rest)) =
      m.head ++ Patch.substituted (picks.map Prod.snd) (place + m.head.length)
        (m.value ++ body rest) := by
  rw [body_cons]
  refine Patch.substituted_append_of_behind place m.head _ ?_
  intro p hp
  obtain ⟨e, he, rfl⟩ := List.mem_map.mp hp
  obtain ⟨found, hfound, hwithin⟩ := h e he
  rcases lastOf_placed_cons hfound with hfound | ⟨-, -, rfl⟩
  · have := (place_lt_of_lastOf_placed hheads hfound).1
    have := hwithin.1
    omega
  · exact hwithin.1

/-- If a later member has the key of the first, all patches lie in later members. -/
theorem PicksWithin.tail (hlater : ¬ ∀ later ∈ rest, later.key ≠ m.key)
    (h : PicksWithin picks place (m :: rest)) :
    PicksWithin picks (place + m.head.length + m.value.length) rest := by
  intro e he
  obtain ⟨found, hfound, hwithin⟩ := h e he
  rcases lastOf_placed_cons hfound with hfound | ⟨hkey, hnone, -⟩
  · exact ⟨found, hfound, hwithin⟩
  · exact absurd (hkey ▸ hnone) hlater

/-- If the first member counts, its patches lie in its value and the others in later members. -/
theorem PicksWithin.split (hcounts : ∀ later ∈ rest, later.key ≠ m.key)
    (h : PicksWithin picks place (m :: rest)) :
    (∀ e ∈ picks, e.1 = m.key →
      e.2.Within (place + m.head.length) (place + m.head.length + m.value.length)) ∧
    PicksWithin (picks.filter fun e => e.1 ≠ m.key) (place + m.head.length + m.value.length)
      rest := by
  constructor
  · intro e he hkey
    obtain ⟨found, hfound, hwithin⟩ := h e he
    rcases lastOf_placed_cons hfound with hfound | ⟨-, -, rfl⟩
    · rw [hkey, lastOf_placed_eq_none.mpr hcounts] at hfound
      cases hfound
    · exact hwithin
  · intro e he
    obtain ⟨he, hne⟩ := List.mem_filter.mp he
    obtain ⟨found, hfound, hwithin⟩ := h e he
    rcases lastOf_placed_cons hfound with hfound | ⟨hkey, -, -⟩
    · exact ⟨found, hfound, hwithin⟩
    · exact absurd hkey.symm (of_decide_eq_true hne)

/-- If the first member counts, its patches act on its value and the others behind it. -/
theorem PicksWithin.substituted_value (hheads : ∀ m ∈ rest, 0 < m.head.length)
    (hcounts : ∀ later ∈ rest, later.key ≠ m.key) (h : PicksWithin picks place (m :: rest)) :
    Patch.substituted (picks.map Prod.snd) (place + m.head.length) (m.value ++ body rest) =
      Patch.substituted (patchesOf picks m.key) (place + m.head.length) m.value ++
        Patch.substituted ((picks.filter fun e => e.1 ≠ m.key).map Prod.snd)
          (place + m.head.length + m.value.length) (body rest) := by
  obtain ⟨hown, hothers⟩ := h.split hcounts
  have hbehind := hothers.behind hheads
  have hborder : ∀ e ∈ picks,
      (e.2.start ≤ place + m.head.length + m.value.length ↔ e.1 = m.key) := by
    intro e he
    by_cases hkey : e.1 = m.key
    · obtain ⟨-, hspan, hstop⟩ := hown e he hkey
      exact ⟨fun _ => hkey, fun _ => Nat.le_trans hspan hstop⟩
    · have := hbehind e (List.mem_filter.mpr ⟨he, decide_eq_true hkey⟩)
      exact ⟨fun h => absurd h (by omega), fun h => absurd h hkey⟩
  have hfirst : (picks.map Prod.snd).filter
      (fun p => p.start ≤ place + m.head.length + m.value.length) = patchesOf picks m.key := by
    rw [List.filter_map, patchesOf]
    exact congrArg (List.map Prod.snd)
      (List.filter_congr fun e he => decide_eq_decide.mpr (hborder e he))
  have hsecond : (picks.map Prod.snd).filter
      (fun p => ¬ p.start ≤ place + m.head.length + m.value.length) =
        (picks.filter fun e => e.1 ≠ m.key).map Prod.snd := by
    rw [List.filter_map]
    exact congrArg (List.map Prod.snd)
      (List.filter_congr fun e he => decide_eq_decide.mpr (not_congr (hborder e he)))
  rw [Patch.substituted_split, hfirst, hsecond]
  intro p hp hstart
  obtain ⟨e, he, rfl⟩ := List.mem_map.mp hp
  exact (hown e he ((hborder e he).mp hstart)).2.2

/-! ## Laws of edits -/

variable {f : MemberText → List MemberText}

/-- Patches inside the members that count turn members into edited ones, if those of each key do so
with the member that counts for it. -/
theorem substituted_edited (hheads : ∀ m ∈ members, 0 < m.head.length)
    (hpicks : PicksWithin picks place members)
    (hedit : ∀ before m after, members = before ++ m :: after →
      (∀ later ∈ after, later.key ≠ m.key) →
        m.head ++ Patch.substituted (patchesOf picks m.key)
          (place + (body before).length + m.head.length) m.value = body (f m)) :
    Patch.substituted (picks.map Prod.snd) place (body members) = body (edited f members) := by
  induction members generalizing place picks with
  | nil =>
    cases picks with
    | nil => rfl
    | cons e picks =>
      obtain ⟨found, hfound, -⟩ := hpicks e List.mem_cons_self
      cases hfound
  | cons m rest ih =>
    obtain ⟨-, hheads⟩ := List.forall_mem_cons.mp hheads
    have hrest : ∀ before m' after, rest = before ++ m' :: after →
        (∀ later ∈ after, later.key ≠ m'.key) →
          m'.head ++ Patch.substituted (patchesOf picks m'.key)
            (place + m.head.length + m.value.length + (body before).length + m'.head.length)
              m'.value = body (f m') := by
      intro before m' after hsplit hafter
      have hmember := hedit (m :: before) m' after (by rw [hsplit, List.cons_append]) hafter
      rw [body_cons, List.length_append, List.length_append] at hmember
      rw [← hmember]
      congr 2
      omega
    rw [hpicks.substituted_head hheads, edited, body_append]
    split
    next hcounts =>
      have hmember := hedit [] m rest rfl hcounts
      rw [body_nil, List.length_nil, Nat.add_zero] at hmember
      rw [hpicks.substituted_value hheads hcounts, ← List.append_assoc, hmember,
        ih hheads (hpicks.split hcounts).2]
      intro before m' after hsplit hafter
      have hm' : m' ∈ rest := hsplit ▸ List.mem_append_right _ List.mem_cons_self
      rw [patchesOf_filter_ne (hcounts m' hm')]
      exact hrest before m' after hsplit hafter
    next hlater =>
      have htail := hpicks.tail hlater
      rw [Patch.substituted_append_of_behind (place + m.head.length) m.value (body rest), ih hheads
        htail hrest, body_cons, body_nil, List.append_nil, List.append_assoc]
      intro p hp
      obtain ⟨e, he, rfl⟩ := List.mem_map.mp hp
      exact Nat.le_of_lt (htail.behind hheads e he)

/-- A patch for a key does what an edit does: it lies inside the member that counts for the key and
turns the value of that member into what the edit makes of it. -/
def Picks (place : Nat) (members : List MemberText) (f : MemberText → List MemberText)
    (e : Text × Patch) : Prop :=
  ∃ found m, lastOf (placed place members) e.1 = some found ∧ counting members e.1 = some m ∧
    e.2.Within found.start found.stop ∧
      m.head ++ Patch.substituted [e.2] found.start m.value = body (f m)

theorem picksWithin_of_picks (h : ∀ e ∈ picks, Picks place members f e) :
    PicksWithin picks place members := by
  intro e he
  obtain ⟨found, -, hfound, -, hwithin, -⟩ := h e he
  exact ⟨found, hfound, hwithin⟩

private theorem patchesOf_of_mem {e : Text × Patch} (hnodup : (picks.map Prod.fst).Nodup)
    (he : e ∈ picks) : patchesOf picks e.1 = [e.2] := by
  induction picks with
  | nil => cases he
  | cons first picks ih =>
    obtain ⟨hfirst, hnodup⟩ := List.nodup_cons.mp hnodup
    rcases List.mem_cons.mp he with rfl | he
    · have hnone : picks.filter (fun e' => e'.1 = e.1) = [] :=
        List.filter_eq_nil_iff.mpr fun e' he' heq =>
          hfirst (of_decide_eq_true heq ▸ List.mem_map_of_mem he')
      rw [patchesOf, List.filter_cons, if_pos (decide_eq_true rfl), hnone]
      rfl
    · have hne : ¬ first.1 = e.1 := fun heq => hfirst (heq ▸ List.mem_map_of_mem he)
      rw [patchesOf, List.filter_cons, if_neg fun h => hne (of_decide_eq_true h)]
      exact ih hnodup he

private theorem patchesOf_of_not_mem (hkey : key ∉ picks.map Prod.fst) :
    patchesOf picks key = [] := by
  rw [patchesOf, List.filter_eq_nil_iff.mpr, List.map_nil]
  intro e he heq
  exact hkey (of_decide_eq_true heq ▸ List.mem_map_of_mem he)

/-- Patches for different keys turn members into edited ones, if each does what the edit does and
the edit leaves the members of all other keys. -/
theorem substituted_picks (hheads : ∀ m ∈ members, 0 < m.head.length)
    (hnodup : (picks.map Prod.fst).Nodup) (hpicks : ∀ e ∈ picks, Picks place members f e)
    (hothers : ∀ m ∈ members, m.key ∉ picks.map Prod.fst → f m = [m]) :
    Patch.substituted (picks.map Prod.snd) place (body members) = body (edited f members) := by
  refine substituted_edited hheads (picksWithin_of_picks hpicks) ?_
  intro before m after hsplit hafter
  by_cases hkey : m.key ∈ picks.map Prod.fst
  · obtain ⟨e, he, hkey⟩ := List.mem_map.mp hkey
    obtain ⟨found, m', hfound, hcounts, -, hvalue⟩ := hpicks e he
    rw [← hkey, patchesOf_of_mem hnodup he]
    rw [hkey, hsplit, lastOf_placed place hafter] at hfound
    cases hfound
    rw [hkey, hsplit, counting_split before hafter] at hcounts
    cases hcounts
    exact hvalue
  · have hm : m ∈ members := hsplit ▸ List.mem_append_right _ List.mem_cons_self
    rw [patchesOf_of_not_mem hkey, Patch.substituted_nil, hothers m hm hkey, body_cons, body_nil,
      List.append_nil]

/-- Patches for different keys are apart. -/
theorem PicksWithin.apart (hheads : ∀ m ∈ members, 0 < m.head.length)
    (hnodup : (picks.map Prod.fst).Nodup) (h : PicksWithin picks place members) :
    (picks.map Prod.snd).Pairwise Patch.Apart := by
  induction picks with
  | nil => exact .nil
  | cons e picks ih =>
    obtain ⟨hkey, hnodup⟩ := List.nodup_cons.mp hnodup
    obtain ⟨he, h⟩ := List.forall_mem_cons.mp h
    refine List.pairwise_cons.mpr ⟨fun q hq => ?_, ih hnodup h⟩
    obtain ⟨e', he', rfl⟩ := List.mem_map.mp hq
    obtain ⟨found, hfound, hwithin⟩ := he
    obtain ⟨found', hfound', hwithin'⟩ := h e' he'
    have hne : e.1 ≠ e'.1 := fun heq => hkey (heq ▸ List.mem_map_of_mem he')
    obtain ⟨hstart, hspan, hstop⟩ := hwithin
    obtain ⟨hstart', hspan', hstop'⟩ := hwithin'
    have hplaces := apart_of_lastOf_placed hheads hne hfound hfound'
    exact ⟨by omega, by omega⟩

/-- Spelled members behind each other. -/
theorem AllSpelled.append {first second : List MemberText} {separator : Text} (hne : first ≠ [])
    (hfirst : AllSpelled separator first) (hsecond : AllSpelled (text ",") second) :
    AllSpelled separator (first ++ second) := by
  induction first generalizing separator with
  | nil => exact absurd rfl hne
  | cons m first ih =>
    refine ⟨hfirst.1, ?_⟩
    cases first with
    | nil => exact hsecond
    | cons m' first => exact ih (List.cons_ne_nil _ _) hfirst.2

theorem AllSpelled.head_pos {separator : Text} (h : AllSpelled separator members) :
    ∀ m ∈ members, 0 < m.head.length := by
  induction members generalizing separator with
  | nil => nofun
  | cons m rest ih => exact List.forall_mem_cons.mpr ⟨h.1.head_pos, ih h.2⟩

/-- An edit that leaves members spelled, and at least one of each, leaves a list of them spelled. -/
theorem allSpelled_edited {separator : Text} (h : AllSpelled separator members)
    (hedit : ∀ m ∈ members, counting members m.key = some m → ∀ separator,
      m.Spelled separator → f m ≠ [] ∧ AllSpelled separator (f m)) :
    AllSpelled separator (edited f members) := by
  induction members generalizing separator with
  | nil => trivial
  | cons m rest ih =>
    have hrest : AllSpelled (text ",") (edited f rest) := by
      refine ih h.2 fun m' hm' hcounts => hedit m' (List.mem_cons_of_mem _ hm') ?_
      rw [counting_cons, hcounts, Option.some_or]
    rw [edited]
    split
    next hcounts =>
      obtain ⟨hne, hspelled⟩ :=
        hedit m List.mem_cons_self (counting_split [] hcounts) separator h.1
      exact hspelled.append hne hrest
    next => exact ⟨h.1, hrest⟩

/-- An edit of the member that counts for a key, where it stands. -/
theorem edited_split {before after : List MemberText} (hafter : ∀ later ∈ after, later.key ≠ m.key)
    (hothers : ∀ m', m'.key ≠ m.key → f m' = [m']) :
    edited f (before ++ m :: after) = before ++ (f m ++ after) := by
  have hsame : ∀ members : List MemberText, (∀ later ∈ members, later.key ≠ m.key) →
      edited f members = members := by
    intro members hmembers
    induction members with
    | nil => rfl
    | cons first rest ih =>
      obtain ⟨hfirst, hrest⟩ := List.forall_mem_cons.mp hmembers
      rw [edited, hothers first hfirst, ite_self, ih hrest, List.singleton_append]
  induction before with
  | nil => rw [List.nil_append, edited, if_pos hafter, hsame after hafter, List.nil_append]
  | cons first before ih =>
    rw [List.cons_append, edited, ih, List.cons_append]
    by_cases hfirst : first.key = m.key
    · rw [if_neg, List.singleton_append]
      intro h
      exact h m (List.mem_append_right _ List.mem_cons_self) hfirst.symm
    · rw [hothers first hfirst, ite_self, List.singleton_append]

/-- An edit that leaves something of each member leaves something of members. -/
theorem edited_ne_nil (hedit : ∀ m, f m ≠ []) (h : members ≠ []) : edited f members ≠ [] := by
  cases members with
  | nil => exact absurd rfl h
  | cons m rest =>
    rw [edited]
    refine List.append_ne_nil_of_left_ne_nil ?_ _
    split
    next => exact hedit m
    next => exact List.cons_ne_nil m []

theorem counting_append (first second : List MemberText) (key : Text) :
    counting (first ++ second) key = (counting second key).or (counting first key) := by
  rw [counting, List.map_append, lastOf_append]
  rfl

/-- The member that counts for a key after an edit is found in what has become of one member: the
one that counted for the key or, for a key that no member had, for the key whose edit brings it in.
-/
theorem counting_edited (source : Text) (hkeys : ∀ m ∈ members, m.key = key → source = key)
    (hothers : ∀ m ∈ members, m.key ≠ source → counting (f m) key = none)
    (hself : source = key → ∀ m ∈ members, m.key = key → counting (f m) key ≠ none) :
    counting (edited f members) key =
      (counting members source).bind fun m => counting (f m) key := by
  induction members with
  | nil => rfl
  | cons m rest ih =>
    obtain ⟨hkey, hkeys⟩ := List.forall_mem_cons.mp hkeys
    obtain ⟨hother, hothers⟩ := List.forall_mem_cons.mp hothers
    have hself' : source = key → ∀ m ∈ rest, m.key = key → counting (f m) key ≠ none :=
      fun heq m' hm' => hself heq m' (List.mem_cons_of_mem _ hm')
    rw [edited, counting_append, ih hkeys hothers hself', counting_cons]
    split
    next hcounts =>
      by_cases hsource : m.key = source
      · rw [counting_eq_none.mpr (hsource ▸ hcounts), if_pos hsource]
        rfl
      · rw [hother hsource, if_neg hsource, Option.or_none, Option.or_none]
    next hlater =>
      have hone : counting [m] key = if m.key = key then some m else none := rfl
      rw [hone]
      by_cases hsource : m.key = source
      · obtain ⟨m', hm'⟩ : ∃ m', counting rest source = some m' :=
          Option.ne_none_iff_exists'.mp fun hnone =>
            hlater (hsource ▸ counting_eq_none.mp hnone)
        rw [hm', Option.some_or, Option.bind_some]
        split
        next heq =>
          obtain ⟨hm'key, before, after, rfl, -⟩ := exists_of_counting hm'
          have hsome := hself (hkey heq) m'
            (List.mem_cons_of_mem _ (List.mem_append_right _ List.mem_cons_self))
            (hm'key.trans (hkey heq))
          obtain ⟨c, hc⟩ := Option.ne_none_iff_exists'.mp hsome
          rw [hc, Option.some_or]
        next => rw [Option.or_none]
      · rw [if_neg fun heq => hsource (heq.trans (hkey heq).symm), if_neg hsource,
          Option.or_none, Option.or_none]

/-- The value of a key after an edit, from the member in whose edit it is found. -/
theorem lastOf_edited (source : Text) (hkeys : ∀ m ∈ members, m.key = key → source = key)
    (hothers : ∀ m ∈ members, m.key ≠ source → lastOf (entries (f m)) key = none)
    (hself : source = key → ∀ m ∈ members, m.key = key → lastOf (entries (f m)) key ≠ none) :
    lastOf (entries (edited f members)) key =
      (counting members source).bind fun m => lastOf (entries (f m)) key := by
  simp only [lastOf_entries, Option.map_eq_none_iff, ne_eq] at hothers hself ⊢
  rw [counting_edited source hkeys hothers hself, Option.map_bind]
  rfl

/-! ## Edits made twice -/

/-- An edit that leaves the members that count leaves all. -/
theorem edited_eq_self (h : ∀ m, counting members m.key = some m → f m = [m]) :
    edited f members = members := by
  induction members with
  | nil => rfl
  | cons m rest ih =>
    have hrest : edited f rest = rest := ih fun m' hcounts =>
      h m' (by rw [counting_cons, hcounts, Option.some_or])
    rw [edited, hrest]
    split
    next hcounts => rw [h m (counting_split [] hcounts), List.singleton_append]
    next => rfl

/-- An edit that keeps the key of each member keeps those of all. -/
theorem exists_key_edited (hkey : ∀ m ∈ members, ∃ m' ∈ f m, m'.key = m.key) :
    ∀ m ∈ members, ∃ m' ∈ edited f members, m'.key = m.key := by
  induction members with
  | nil => nofun
  | cons first rest ih =>
    obtain ⟨hfirst, hrest⟩ := List.forall_mem_cons.mp hkey
    refine List.forall_mem_cons.mpr ⟨?_, fun m hm => ?_⟩
    · rw [edited]
      split
      next =>
        obtain ⟨m', hm', hkeys⟩ := hfirst
        exact ⟨m', List.mem_append_left _ hm', hkeys⟩
      next => exact ⟨first, List.mem_append_left _ List.mem_cons_self, rfl⟩
    · obtain ⟨m', hm', hkeys⟩ := ih hrest m hm
      exact ⟨m', List.mem_append_right _ hm', hkeys⟩

/-- What counts after an edit has come of an edited member: one that was left because a later one
has its key does not count afterwards either. -/
theorem exists_of_counting_edited (hkey : ∀ m ∈ members, ∃ m' ∈ f m, m'.key = m.key)
    (h : counting (edited f members) key = some m) : ∃ m' ∈ members, m ∈ f m' := by
  induction members with
  | nil => cases h
  | cons first rest ih =>
    obtain ⟨-, hrest⟩ := List.forall_mem_cons.mp hkey
    rw [edited, counting_append] at h
    cases hlater : counting (edited f rest) key with
    | some later =>
      rw [hlater, Option.some_or] at h
      cases h
      obtain ⟨m', hm', hmem⟩ := ih hrest hlater
      exact ⟨m', List.mem_cons_of_mem _ hm', hmem⟩
    | none =>
      rw [hlater, Option.none_or] at h
      obtain ⟨hm, before, after, hsplit, -⟩ := exists_of_counting h
      have hmem : m ∈ (if ∀ later ∈ rest, later.key ≠ first.key then f first else [first]) :=
        hsplit ▸ List.mem_append_right _ List.mem_cons_self
      split at hmem
      next => exact ⟨first, List.mem_cons_self, hmem⟩
      next hcounts =>
        obtain rfl := List.mem_singleton.mp hmem
        refine absurd (fun later hmem heq => ?_) hcounts
        obtain ⟨m', hm', hkeys⟩ := exists_key_edited hrest later hmem
        exact counting_eq_none.mp hlater m' hm' (hkeys.trans (heq.trans hm))

end MemberText

end NodeBootstrap.KubeletConfig
