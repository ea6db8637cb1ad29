import NodeBootstrap.Proofs.KubeletConfig.Substitution

/-!
# The pieces of a patched text

A patched text is made of pieces: code points that stay, and what patches put in. `Arranged` says
which they are and how they stand, with no word on how they come about: every code point outside
all spans and the replacement of every patch, each once, in the order of their places in the text;
at one place replacements stand in the order of the list, and the code point behind them. There is
only one such arrangement (`Arranged.unique`), so a text is `Patched` in one way.

For spans inside the text that are pairwise apart it is what comes of splicing the patches one
after the other (`patched_iff_eq_applyAll`).
-/

set_option autoImplicit false

namespace NodeBootstrap.Patch

/-- A piece of a patched text: a code point that stays, with its place in the text, or what a patch
puts in, with the place of the patch in the list. -/
inductive Piece
  | kept (c : CodePoint) (place : Nat)
  | put (p : Patch) (index : Nat)

namespace Piece

/-- The text of a piece. -/
def written : Piece → Text
  | kept c _ => [c]
  | put p _ => p.replacement

/-- The place in the text that a piece belongs to. -/
def place : Piece → Nat
  | kept _ i => i
  | put p _ => p.start

/-- Whether a piece stands before another. At one place the code point comes last, since patches
put what they put in front of it. -/
def Before : Piece → Piece → Prop
  | kept _ i, kept _ j => i < j
  | kept _ i, put p _ => i < p.start
  | put p _, kept _ i => p.start ≤ i
  | put p k, put q l => p.start < q.start ∨ (p.start = q.start ∧ k < l)

theorem Before.asymm {a b : Piece} (h : Before a b) : ¬ Before b a := by
  cases a <;> cases b <;> simp only [Before] at h ⊢ <;> omega

theorem before_of_place_lt {a b : Piece} (h : a.place < b.place) : Before a b := by
  cases a <;> cases b <;> simp only [Before, place] at h ⊢ <;> omega

end Piece

open Piece

/-- The pieces of a text with all patches of a list applied at once. -/
structure Arranged (ps : List Patch) (t : Text) (pieces : List Piece) : Prop where
  ordered : pieces.Pairwise Before
  /-- The code points outside all spans stay, and no others. -/
  mem_kept : ∀ c i, kept c i ∈ pieces ↔ t[i]? = some c ∧ ∀ p ∈ ps, ¬ (p.start ≤ i ∧ i < p.stop)
  /-- Every patch puts something in, and nothing else is put in. -/
  mem_put : ∀ p k, put p k ∈ pieces ↔ ps[k]? = some p

/-- A text with all patches of a list applied at once. -/
def Patched (ps : List Patch) (t u : Text) : Prop :=
  ∃ pieces, Arranged ps t pieces ∧ u = pieces.flatMap written

variable {ps : List Patch} {t u : Text}

/-! ## One arrangement only -/

theorem Arranged.nodup {pieces : List Piece} (h : Arranged ps t pieces) : pieces.Nodup :=
  h.ordered.imp fun hab heq => (heq ▸ hab).asymm (heq ▸ hab)

theorem Arranged.unique {as bs : List Piece} (ha : Arranged ps t as) (hb : Arranged ps t bs) :
    as = bs := by
  have hmem : ∀ x, x ∈ as ↔ x ∈ bs := by
    intro x
    cases x with
    | kept c i => rw [ha.mem_kept, hb.mem_kept]
    | put p k => rw [ha.mem_put, hb.mem_put]
  have hperm : as.Perm bs := (List.perm_ext_iff_of_nodup ha.nodup hb.nodup).mpr hmem
  exact List.Perm.eq_of_pairwise (fun _ _ _ _ hab hba => absurd hba hab.asymm) ha.ordered
    hb.ordered hperm

theorem Patched.unique {u v : Text} (hu : Patched ps t u) (hv : Patched ps t v) : u = v := by
  obtain ⟨as, ha, rfl⟩ := hu
  obtain ⟨bs, hb, rfl⟩ := hv
  rw [ha.unique hb]

/-! ## The pieces of a substitution -/

/-- What the patches that start at a place put there. -/
def putAt (ps : List Patch) (i : Nat) : List Piece :=
  (ps.zipIdx.filter fun a => a.1.start = i).map fun a => put a.1 a.2

/-- The code point at a place, if it stays. -/
def keptAt (ps : List Patch) (i : Nat) (c : CodePoint) : List Piece :=
  if removesAt ps i then [] else [kept c i]

/-- The pieces of a text that begins at a place. -/
def pieces (ps : List Patch) (place : Nat) : Text → List Piece
  | [] => putAt ps place
  | c :: t => putAt ps place ++ (keptAt ps place c ++ pieces ps (place + 1) t)

theorem mem_putAt {i : Nat} {x : Piece} :
    x ∈ putAt ps i ↔ ∃ p k, x = put p k ∧ ps[k]? = some p ∧ p.start = i := by
  simp only [putAt, List.mem_map, List.mem_filter, decide_eq_true_eq]
  constructor
  · rintro ⟨⟨p, k⟩, ⟨hp, hstart⟩, rfl⟩
    exact ⟨p, k, rfl, List.mem_zipIdx_iff_getElem?.mp hp, hstart⟩
  · rintro ⟨p, k, rfl, hp, hstart⟩
    exact ⟨(p, k), ⟨List.mem_zipIdx_iff_getElem?.mpr hp, hstart⟩, rfl⟩

theorem kept_not_mem_putAt (c : CodePoint) (i place : Nat) : kept c i ∉ putAt ps place := by
  intro h
  obtain ⟨p, k, h, -⟩ := mem_putAt.mp h
  cases h

theorem put_mem_putAt {p : Patch} {k i : Nat} :
    put p k ∈ putAt ps i ↔ ps[k]? = some p ∧ p.start = i := by
  rw [mem_putAt]
  constructor
  · rintro ⟨_, _, h, hp⟩
    cases h
    exact hp
  · exact fun hp => ⟨p, k, rfl, hp⟩

theorem mem_keptAt {i : Nat} {c : CodePoint} {x : Piece} :
    x ∈ keptAt ps i c ↔ x = kept c i ∧ removesAt ps i = false := by
  rw [keptAt]
  split
  next hremoves => exact iff_of_false nofun fun h => Bool.noConfusion (h.2.symm.trans hremoves)
  next hstays => rw [List.mem_singleton, and_iff_left (Bool.not_eq_true _ ▸ hstays)]

theorem putAt_pairwise (ps : List Patch) (i : Nat) : (putAt ps i).Pairwise Before := by
  refine List.pairwise_map.mpr (((zipIdx_pairwise ps).filter _).imp_of_mem ?_)
  intro a b ha hb hab
  have ha := of_decide_eq_true (List.mem_filter.mp ha).2
  have hb := of_decide_eq_true (List.mem_filter.mp hb).2
  exact .inr ⟨ha.trans hb.symm, hab⟩

theorem keptAt_pairwise (ps : List Patch) (i : Nat) (c : CodePoint) :
    (keptAt ps i c).Pairwise Before := by
  rw [keptAt]
  split
  · exact .nil
  · exact List.pairwise_singleton Before _

theorem flatMap_putAt (ps : List Patch) (i : Nat) :
    (putAt ps i).flatMap written = insertedAt ps i := by
  have hplaced := insertedAt_map_fst ps.zipIdx i
  rw [List.zipIdx_map_fst] at hplaced
  rw [hplaced, putAt, List.flatMap_map]
  rfl

/-- The code points of a text that stay. -/
theorem kept_mem_pieces {c : CodePoint} {i place : Nat} :
    kept c i ∈ pieces ps place t ↔
      place ≤ i ∧ t[i - place]? = some c ∧ removesAt ps i = false := by
  induction t generalizing place with
  | nil => exact iff_of_false (kept_not_mem_putAt c i place) fun h => nomatch h.2.1
  | cons d t ih =>
    rw [pieces, List.mem_append, List.mem_append, or_iff_right (kept_not_mem_putAt c i place),
      mem_keptAt, ih, kept.injEq]
    obtain hlt | rfl | hlt := Nat.lt_trichotomy i place
    · exact iff_of_false (by omega) (by omega)
    · rw [or_iff_left (by omega), Nat.sub_self, List.getElem?_cons_zero, Option.some.injEq,
        and_iff_left rfl, eq_comm, and_iff_right (Nat.le_refl i)]
    · have hbehind : i - place = i - (place + 1) + 1 := by omega
      rw [hbehind, List.getElem?_cons_succ, or_iff_right (by omega)]
      exact and_congr_left' ⟨Nat.le_of_lt, fun _ => hlt⟩

/-- What patches put into a text. -/
theorem put_mem_pieces {p : Patch} {k place : Nat} :
    put p k ∈ pieces ps place t ↔
      ps[k]? = some p ∧ place ≤ p.start ∧ p.start ≤ place + t.length := by
  induction t generalizing place with
  | nil =>
    rw [pieces, put_mem_putAt, List.length_nil]
    exact and_congr_right' (by omega)
  | cons d t ih =>
    have hkept : put p k ∉ keptAt ps place d := fun h => nomatch (mem_keptAt.mp h).1
    rw [pieces, List.mem_append, List.mem_append, or_iff_right hkept, ih, put_mem_putAt,
      ← and_or_left, List.length_cons]
    exact and_congr_right' (by omega)

theorem le_place_of_mem {place : Nat} {x : Piece} (hx : x ∈ pieces ps place t) :
    place ≤ x.place := by
  cases x with
  | kept c i => exact (kept_mem_pieces.mp hx).1
  | put p k => exact (put_mem_pieces.mp hx).2.1

/-- The pieces stand in order, since those of a place stand in front of all later ones. -/
theorem pieces_pairwise (ps : List Patch) (place : Nat) (t : Text) :
    (pieces ps place t).Pairwise Before := by
  induction t generalizing place with
  | nil => exact putAt_pairwise ps place
  | cons c t ih =>
    have hlater : ∀ a, a.place = place → ∀ b ∈ pieces ps (place + 1) t, Before a b := by
      rintro a rfl b hb
      exact before_of_place_lt (le_place_of_mem hb)
    have hrest : (keptAt ps place c ++ pieces ps (place + 1) t).Pairwise Before := by
      refine List.pairwise_append.mpr ⟨keptAt_pairwise ps place c, ih (place + 1), ?_⟩
      intro a ha
      exact hlater a (congrArg Piece.place (mem_keptAt.mp ha).1)
    refine List.pairwise_append.mpr ⟨putAt_pairwise ps place, hrest, ?_⟩
    intro a ha b hb
    obtain ⟨p, k, rfl, -, hstart⟩ := mem_putAt.mp ha
    rcases List.mem_append.mp hb with hb | hb
    · rw [(mem_keptAt.mp hb).1]
      exact Nat.le_of_eq hstart
    · exact hlater (put p k) hstart b hb

theorem flatMap_pieces (ps : List Patch) (place : Nat) (t : Text) :
    (pieces ps place t).flatMap written = substituted ps place t := by
  induction t generalizing place with
  | nil => exact flatMap_putAt ps place
  | cons c t ih =>
    rw [pieces, List.flatMap_append, List.flatMap_append, flatMap_putAt, ih, substituted, keptAt]
    split <;> rfl

theorem arranged_pieces (hstarts : ∀ p ∈ ps, p.start ≤ t.length) :
    Arranged ps t (pieces ps 0 t) where
  ordered := pieces_pairwise ps 0 t
  mem_kept c i := by
    rw [kept_mem_pieces, Nat.sub_zero, removesAt, List.any_eq_false]
    simp only [Nat.zero_le, true_and, Bool.and_eq_true, decide_eq_true_eq]
  mem_put p k := by
    rw [put_mem_pieces, Nat.zero_add]
    refine and_iff_left_of_imp fun hp => ⟨Nat.zero_le _, hstarts p ?_⟩
    exact List.mem_of_getElem? hp

/-- A text with all patches applied at once is its substitution. -/
theorem patched_iff_eq_substituted (hstarts : ∀ p ∈ ps, p.start ≤ t.length) :
    Patched ps t u ↔ u = substituted ps 0 t := by
  have hpatched : Patched ps t (substituted ps 0 t) :=
    ⟨_, arranged_pieces hstarts, (flatMap_pieces ps 0 t).symm⟩
  exact ⟨fun hu => hu.unique hpatched, fun hu => hu ▸ hpatched⟩

/-- For spans of a text that are pairwise apart, splicing the patches one after the other, whatever
the order of the list, gives the text with all of them applied at once and no other. If no two
start at the same place, the order of the list does not matter at all. -/
theorem patched_iff_eq_applyAll (hwithin : ∀ p ∈ ps, p.Within 0 t.length)
    (hapart : ps.Pairwise Apart) :
    (∀ u, Patched ps t u ↔ u = applyAll ps t) ∧
      ((ps.map start).Nodup → ∀ qs, qs.Perm ps → applyAll qs t = applyAll ps t) := by
  refine ⟨fun u => ?_, fun hstarts qs hperm => applyAll_perm hstarts hperm t⟩
  have hstarts : ∀ p ∈ ps, p.start ≤ t.length := fun p hp =>
    Nat.le_trans (hwithin p hp).2.1 (hwithin p hp).2.2
  rw [applyAll_eq hwithin hapart]
  exact patched_iff_eq_substituted hstarts

/-- Patches in no order: two insert at the end of a span that a third replaces, and two more insert
at the ends of the text. -/
def crowded : List Patch :=
  [⟨3, 3, text "x"⟩, ⟨5, 5, text "!"⟩, ⟨1, 3, text "-"⟩, ⟨3, 3, text "y"⟩, ⟨0, 0, text "+"⟩]

/-- Without the first of them the patches start at different places. -/
theorem patched_iff_eq_applyAll_crowded :
    (∀ p ∈ crowded, p.Within 0 (text "12345").length) ∧ crowded.Pairwise Apart ∧
      (∀ u, Patched crowded (text "12345") u ↔ u = text "+1-xy45!") ∧
      (crowded.tail.map start).Nodup ∧
      applyAll crowded.tail.reverse (text "12345") = text "+1-y45!" := by
  have hwithin : ∀ p ∈ crowded, p.Within 0 (text "12345").length := by decide +kernel
  have hapart : crowded.Pairwise Apart := by decide
  have hstarts : (crowded.tail.map start).Nodup := by decide
  have hrest : ∀ p ∈ crowded.tail, p.Within 0 (text "12345").length := fun p hp =>
    hwithin p (List.mem_of_mem_tail hp)
  refine ⟨hwithin, hapart, fun u => ?_, hstarts, ?_⟩
  · rw [(patched_iff_eq_applyAll hwithin hapart).1 u, applyAll_eq hwithin hapart]
    exact Iff.of_eq (congrArg (u = ·) (by decide +kernel))
  · rw [(patched_iff_eq_applyAll hrest hapart.tail).2 hstarts _ (List.reverse_perm _),
      applyAll_eq hrest hapart.tail]
    decide +kernel

end NodeBootstrap.Patch
