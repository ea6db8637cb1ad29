import NodeBootstrap.KubeletConfig.Patch

/-!
# Patches applied at once

`Patch.applyAll` splices one patch after the other, from the last span to the first.
`Patch.substituted` says what comes out of it position by position: at every place what the patches
that start there insert, in the order of the list, and then the code point itself unless a patch
takes it away. For spans inside the text that are pairwise apart the two agree
(`Patch.applyAll_eq`), so neither the order of application nor the lengths of the replacements
matter. One splice is `Patch.apply_substituted`: it leaves the places before its span as they were,
and only these are still to come.
-/

set_option autoImplicit false

namespace NodeBootstrap.Patch

/-! ## Substitution -/

/-- What the patches that start at a place put there, in the order of the list. -/
def insertedAt (ps : List Patch) (i : Nat) : Text :=
  (ps.filter fun p => p.start = i).flatMap Patch.replacement

/-- Whether a patch takes away the code point at a place. -/
def removesAt (ps : List Patch) (i : Nat) : Bool := ps.any fun p => p.start ≤ i && i < p.stop

/-- A text that begins at a place, with all patches applied to it at once. -/
def substituted (ps : List Patch) (place : Nat) : Text → Text
  | [] => insertedAt ps place
  | c :: t =>
    insertedAt ps place ++
      ((if removesAt ps place then [] else [c]) ++ substituted ps (place + 1) t)

/-- A span between two places of a text. -/
def Within (first last : Nat) (p : Patch) : Prop :=
  first ≤ p.start ∧ p.start ≤ p.stop ∧ p.stop ≤ last

/-- Two spans apart: one ends before the other begins, or where it begins, and two that begin at one
place are both empty. So an empty span may lie where another ends, but neither inside another nor
where it begins, unless that is empty too. -/
def Apart (p q : Patch) : Prop :=
  (p.stop ≤ q.start ∨ q.stop ≤ p.start) ∧
    (p.start = q.start → p.stop = p.start ∧ q.stop = q.start)

instance (first last : Nat) (p : Patch) : Decidable (p.Within first last) :=
  inferInstanceAs (Decidable (_ ∧ _ ∧ _))

instance (p q : Patch) : Decidable (p.Apart q) :=
  inferInstanceAs (Decidable ((_ ∨ _) ∧ (_ → _ ∧ _)))

variable {ps qs : List Patch} {p : Patch}

theorem Apart.symm {p q : Patch} (h : Apart p q) : Apart q p :=
  ⟨h.1.symm, fun heq => (h.2 heq.symm).symm⟩

@[simp] theorem insertedAt_nil (i : Nat) : insertedAt [] i = [] := rfl

@[simp] theorem removesAt_nil (i : Nat) : removesAt [] i = false := rfl

theorem insertedAt_append (ps qs : List Patch) (i : Nat) :
    insertedAt (ps ++ qs) i = insertedAt ps i ++ insertedAt qs i := by
  simp only [insertedAt, List.filter_append, List.flatMap_append]

theorem removesAt_append (ps qs : List Patch) (i : Nat) :
    removesAt (ps ++ qs) i = (removesAt ps i || removesAt qs i) := by
  simp only [removesAt, List.any_append]

/-- Nothing is put where no patch starts. -/
theorem insertedAt_eq_nil {i : Nat} (h : ∀ p ∈ ps, p.start ≠ i) : insertedAt ps i = [] := by
  have hnone : ps.filter (fun p => p.start = i) = [] :=
    List.filter_eq_nil_iff.mpr fun p hp => by simpa only [decide_eq_true_eq] using h p hp
  simp only [insertedAt, hnone, List.flatMap_nil]

/-- Of the patches that start at certain places, those at one of these are all that start there. -/
theorem insertedAt_filter (q : Nat → Bool) (ps : List Patch) (i : Nat) :
    insertedAt (ps.filter fun p => q p.start) i = if q i then insertedAt ps i else [] := by
  rw [insertedAt, List.filter_filter]
  split
  next hi =>
    refine congrArg (List.flatMap replacement) (List.filter_congr fun p _ => ?_)
    rw [Bool.and_eq_left_iff_imp, decide_eq_true_eq]
    rintro rfl
    exact hi
  next hi =>
    rw [List.filter_eq_nil_iff.mpr, List.flatMap_nil]
    intro p _ h
    obtain ⟨hstart, hq⟩ := (Bool.and_eq_true ..).mp h
    exact hi (of_decide_eq_true hstart ▸ hq)

/-- Nothing is taken away where no span lies. -/
theorem removesAt_eq_false {i : Nat} (h : ∀ p ∈ ps, p.start ≤ i → p.stop ≤ i) :
    removesAt ps i = false := by
  apply List.any_eq_false.mpr
  intro p hp
  rw [Bool.and_eq_true, decide_eq_true_eq, decide_eq_true_eq]
  rintro ⟨hstart, hstop⟩
  exact absurd (h p hp hstart) (by omega)

/-- A substitution depends only on what the patches do from its place on. -/
theorem substituted_congr (place : Nat)
    (hinserted : ∀ i, place ≤ i → insertedAt ps i = insertedAt qs i)
    (hremoves : ∀ i, place ≤ i → removesAt ps i = removesAt qs i) (t : Text) :
    substituted ps place t = substituted qs place t := by
  induction t generalizing place with
  | nil => exact hinserted place (Nat.le_refl _)
  | cons c t ih =>
    have hrest := ih (place + 1) (fun i hi => hinserted i (by omega))
      (fun i hi => hremoves i (by omega))
    simp only [substituted, hinserted place (Nat.le_refl _), hremoves place (Nat.le_refl _), hrest]

/-- Without patches a text stays. -/
@[simp] theorem substituted_nil (place : Nat) (t : Text) : substituted [] place t = t := by
  induction t generalizing place with
  | nil => rfl
  | cons c t ih =>
    simp only [substituted, insertedAt_nil, removesAt_nil, Bool.false_eq_true, if_false, ih,
      List.nil_append, List.singleton_append]

/-- Patches that lie before a place do nothing from there on. -/
theorem substituted_append_of_before (place : Nat) (qs : List Patch)
    (h : ∀ p ∈ ps, p.start < place ∧ p.stop ≤ place) (t : Text) :
    substituted (ps ++ qs) place t = substituted qs place t := by
  refine substituted_congr place (fun i hi => ?_) (fun i hi => ?_) t
  · have hnone : insertedAt ps i = [] :=
      insertedAt_eq_nil fun p hp => by have := h p hp; omega
    rw [insertedAt_append, hnone, List.nil_append]
  · have hnone : removesAt ps i = false :=
      removesAt_eq_false fun p hp _ => by have := h p hp; omega
    rw [removesAt_append, hnone, Bool.false_or]

/-- Patches of a beginning and patches of the rest act apart. What the former insert at the border
comes first. -/
theorem substituted_append (place : Nat) (s t : Text)
    (hps : ∀ p ∈ ps, p.start ≤ place + s.length ∧ p.stop ≤ place + s.length)
    (hqs : ∀ q ∈ qs, place + s.length ≤ q.start) :
    substituted (ps ++ qs) place (s ++ t) =
      substituted ps place s ++ substituted qs (place + s.length) t := by
  induction s generalizing place with
  | nil =>
    simp only [List.length_nil, Nat.add_zero] at hps hqs ⊢
    have hremoves : removesAt ps place = false := removesAt_eq_false fun p hp _ => (hps p hp).2
    cases t with
    | nil => exact insertedAt_append ps qs place
    | cons c t =>
      have hrest := substituted_append_of_before (place + 1) qs
        (fun p hp => by have := hps p hp; omega) t
      simp only [List.nil_append, substituted, insertedAt_append, removesAt_append, hremoves,
        Bool.false_or, hrest, List.append_assoc]
  | cons c s ih =>
    simp only [List.length_cons] at hps hqs
    have hinserted : insertedAt qs place = [] :=
      insertedAt_eq_nil fun q hq => by have := hqs q hq; omega
    have hremoves : removesAt qs place = false :=
      removesAt_eq_false fun q hq hstart => by have := hqs q hq; omega
    have hrest := ih (place + 1) (fun p hp => by have := hps p hp; omega)
      (fun q hq => by have := hqs q hq; omega)
    have hplace : place + (c :: s).length = place + 1 + s.length := by
      rw [List.length_cons, Nat.add_assoc, Nat.add_comm 1]
    simp only [List.cons_append, substituted, insertedAt_append, removesAt_append, hinserted,
      hremoves, Bool.or_false, List.append_nil, hrest, hplace, List.append_assoc]

/-- The patches of a list act on a beginning and on the rest apart, if each that starts in the
beginning ends there. -/
theorem substituted_split (place : Nat) (s t : Text)
    (h : ∀ p ∈ ps, p.start ≤ place + s.length → p.stop ≤ place + s.length) :
    substituted ps place (s ++ t) =
      substituted (ps.filter fun p => p.start ≤ place + s.length) place s ++
        substituted (ps.filter fun p => ¬ p.start ≤ place + s.length) (place + s.length) t := by
  rw [← substituted_append]
  · refine substituted_congr place (fun i _ => ?_) (fun i _ => ?_) (s ++ t)
    · rw [insertedAt_append, insertedAt_filter (fun start => start ≤ place + s.length),
        insertedAt_filter (fun start => ¬ start ≤ place + s.length)]
      by_cases hi : i ≤ place + s.length
      · rw [if_pos (decide_eq_true hi), if_neg, List.append_nil]
        exact fun h => absurd hi (of_decide_eq_true h)
      · rw [if_neg, if_pos (decide_eq_true hi), List.nil_append]
        exact fun h => hi (of_decide_eq_true h)
    · rw [removesAt_append, Bool.eq_iff_iff, Bool.or_eq_true]
      simp only [removesAt, List.any_eq_true, List.mem_filter, decide_eq_true_eq]
      constructor
      · rintro ⟨p, hp, hremoves⟩
        by_cases hborder : p.start ≤ place + s.length
        · exact .inl ⟨p, ⟨hp, hborder⟩, hremoves⟩
        · exact .inr ⟨p, ⟨hp, hborder⟩, hremoves⟩
      · rintro (⟨p, ⟨hp, -⟩, hremoves⟩ | ⟨p, ⟨hp, -⟩, hremoves⟩) <;> exact ⟨p, hp, hremoves⟩
  · intro p hp
    obtain ⟨hp, hborder⟩ := List.mem_filter.mp hp
    have hborder := of_decide_eq_true hborder
    exact ⟨hborder, h p hp hborder⟩
  · intro p hp
    have hborder := of_decide_eq_true (List.mem_filter.mp hp).2
    omega

/-- A text before all spans stays. -/
theorem substituted_append_of_behind (place : Nat) (s t : Text)
    (h : ∀ p ∈ ps, place + s.length ≤ p.start) :
    substituted ps place (s ++ t) = s ++ substituted ps (place + s.length) t := by
  have hsplit : substituted ([] ++ ps) place (s ++ t) = _ := substituted_append place s t nofun h
  rwa [List.nil_append, substituted_nil] at hsplit

/-- Patches that insert in front of a text put there what they insert. -/
theorem substituted_insertions (place : Nat) (t : Text)
    (h : ∀ p ∈ ps, p.start = place ∧ p.stop = p.start) :
    substituted ps place t = ps.flatMap replacement ++ t := by
  have hborder : ∀ p ∈ ps, p.start ≤ place + 0 ∧ p.stop ≤ place + 0 := fun p hp =>
    ⟨Nat.le_of_eq (h p hp).1, Nat.le_of_eq ((h p hp).2.trans (h p hp).1)⟩
  have hall : insertedAt ps place = ps.flatMap replacement :=
    congrArg (List.flatMap replacement)
      (List.filter_eq_self.mpr fun p hp => decide_eq_true (h p hp).1)
  have hsplit : substituted (ps ++ []) place ([] ++ t) = _ :=
    substituted_append place [] t hborder nofun
  rwa [List.append_nil, List.nil_append, substituted_nil, substituted, hall] at hsplit

/-- What is left of a span whose replacement has been put in. -/
private theorem substituted_inside (place : Nat) (t : Text) (hstart : p.start < place)
    (hstop : place + t.length = p.stop) : substituted [p] place t = [] := by
  induction t generalizing place with
  | nil => exact insertedAt_eq_nil fun q hq => by rw [List.mem_singleton.mp hq]; omega
  | cons c t ih =>
    rw [List.length_cons] at hstop
    have hinserted : insertedAt [p] place = [] :=
      insertedAt_eq_nil fun q hq => by rw [List.mem_singleton.mp hq]; omega
    have hremoves : removesAt [p] place = true := by
      simp only [removesAt, List.any_cons, List.any_nil, Bool.or_false, Bool.and_eq_true,
        decide_eq_true_eq]
      omega
    simp only [substituted, hinserted, hremoves, if_true, List.nil_append]
    exact ih (place + 1) (by omega) (by omega)

/-- One patch at the end of a text: its span is replaced. -/
theorem substituted_span (place : Nat) (s t : Text) (hstart : p.start = place + s.length)
    (hstop : p.stop = place + s.length + t.length) :
    substituted [p] place (s ++ t) = s ++ p.replacement := by
  have hinserted : insertedAt [p] p.start = p.replacement := by
    simp only [insertedAt, List.filter_cons, List.filter_nil, decide_true, if_true,
      List.flatMap_cons, List.flatMap_nil, List.append_nil]
  have hsplit : substituted [p] place (s ++ t) = s ++ substituted [p] (place + s.length) t :=
    substituted_append_of_behind place s t fun q hq => by rw [List.mem_singleton.mp hq]; omega
  rw [hsplit, ← hstart]
  cases t with
  | nil => rw [substituted, hinserted]
  | cons c t =>
    rw [List.length_cons] at hstop
    have hremoves : removesAt [p] p.start = true := by
      simp only [removesAt, List.any_cons, List.any_nil, Bool.or_false, Bool.and_eq_true,
        decide_eq_true_eq]
      omega
    have hinside := substituted_inside (p.start + 1) t (Nat.lt_succ_self p.start) (by omega)
    simp only [substituted, hinserted, hremoves, if_true, hinside, List.append_nil]

/-! ## The order of application -/

/-- A text cut at a span. -/
private theorem exists_span {t : Text} (h : p.Within 0 t.length) :
    ∃ front span rest, t = front ++ span ++ rest ∧ p.start = front.length ∧
      p.stop = (front ++ span).length := by
  obtain ⟨-, hspan, hlength⟩ := h
  refine ⟨t.take p.start, (t.take p.stop).drop p.start, t.drop p.stop, ?_, ?_, ?_⟩
  · have hfront : t.take p.start = (t.take p.stop).take p.start := by
      rw [List.take_take, Nat.min_eq_left hspan]
    rw [hfront, List.take_append_drop, List.take_append_drop]
  · rw [List.length_take]
    omega
  · simp only [List.length_append, List.length_drop, List.length_take]
    omega

/-- One more span spliced into a text in which only later spans have been replaced. What stands
before these is as it was, so the span still lies where the patch says. -/
theorem apply_substituted {t : Text} (hwithin : p.Within 0 t.length)
    (hlater : ∀ q ∈ ps, p.stop ≤ q.start) :
    p.apply (substituted ps 0 t) = substituted (p :: ps) 0 t := by
  obtain ⟨front, span, rest, ht, hstart, hstop⟩ := exists_span hwithin
  have hbehind : ∀ q ∈ ps, 0 + (front ++ span).length ≤ q.start := fun q hq => by
    rw [Nat.zero_add, ← hstop]
    exact hlater q hq
  have hrest : substituted ps 0 t = front ++ (span ++ substituted ps p.stop rest) := by
    rw [ht, substituted_append_of_behind 0 (front ++ span) rest hbehind, Nat.zero_add, ← hstop,
      List.append_assoc]
  have hsplit : substituted ([p] ++ ps) 0 t =
      substituted [p] 0 (front ++ span) ++ substituted ps p.stop rest := by
    rw [ht, substituted_append 0 (front ++ span) rest _ hbehind, Nat.zero_add, ← hstop]
    intro q hq
    rw [List.mem_singleton.mp hq, Nat.zero_add, ← hstop]
    exact ⟨hwithin.2.1, Nat.le_refl _⟩
  have hspan : substituted [p] 0 (front ++ span) = front ++ p.replacement :=
    substituted_span 0 front span (by omega) (by rw [hstop, List.length_append]; omega)
  calc p.apply (substituted ps 0 t)
      = front ++ p.replacement ++ substituted ps p.stop rest := by
        rw [hrest, apply, hstart, List.take_left, ← List.append_assoc front span, hstop,
          List.drop_left]
    _ = substituted (p :: ps) 0 t := by rw [← hspan, ← hsplit, List.singleton_append]

/-- Spliced from the last to the first, spans in order are substituted. -/
theorem foldr_apply {t : Text} (horder : ps.Pairwise fun p q => p.stop ≤ q.start)
    (hwithin : ∀ p ∈ ps, p.Within 0 t.length) : ps.foldr apply t = substituted ps 0 t := by
  induction ps with
  | nil => rw [List.foldr_nil, substituted_nil]
  | cons p ps ih =>
    obtain ⟨hlater, horder⟩ := List.pairwise_cons.mp horder
    have hrest := ih horder fun q hq => hwithin q (List.mem_cons_of_mem _ hq)
    rw [List.foldr_cons, hrest]
    exact apply_substituted (hwithin p List.mem_cons_self) hlater

private theorem appliedBefore_iff {a b : Patch × Nat} : appliedBefore a b = true ↔
    b.1.start < a.1.start ∨ (b.1.start = a.1.start ∧ b.2 ≤ a.2) := by
  simp only [appliedBefore, Bool.or_eq_true, Bool.and_eq_true, decide_eq_true_eq]

private theorem appliedBefore_trans (a b c : Patch × Nat) (hab : appliedBefore a b = true)
    (hbc : appliedBefore b c = true) : appliedBefore a c = true := by
  rw [appliedBefore_iff] at hab hbc ⊢
  omega

private theorem appliedBefore_total (a b : Patch × Nat) :
    (appliedBefore a b || appliedBefore b a) = true := by
  rw [Bool.or_eq_true, appliedBefore_iff, appliedBefore_iff]
  omega

/-- The patches with their places in the list, from the first span to the last. -/
private def ascending (ps : List Patch) : List (Patch × Nat) :=
  (ps.zipIdx.mergeSort appliedBefore).reverse

private theorem ascending_perm (ps : List Patch) : (ascending ps).Perm ps.zipIdx :=
  (List.reverse_perm _).trans (List.mergeSort_perm _ _)

private theorem ascending_pairwise (ps : List Patch) :
    (ascending ps).Pairwise fun a b => appliedBefore b a = true :=
  List.pairwise_reverse.mpr
    (List.pairwise_mergeSort appliedBefore_trans appliedBefore_total ps.zipIdx)

/-- The places in a list go up along the list. -/
theorem zipIdx_pairwise (ps : List Patch) : ps.zipIdx.Pairwise fun a b => a.2 < b.2 := by
  have hindices : (ps.zipIdx.map Prod.snd).Pairwise (· < ·) := by
    rw [List.zipIdx_map_snd]
    exact List.pairwise_lt_range'
  exact List.pairwise_map.mp hindices

/-- What patches with their places in a list put at a place of the text. -/
theorem insertedAt_map_fst (l : List (Patch × Nat)) (i : Nat) :
    insertedAt (l.map Prod.fst) i =
      (l.filter fun a => a.1.start = i).flatMap fun a => a.1.replacement := by
  rw [insertedAt, List.filter_map, List.flatMap_map]
  rfl

/-- Of the patches that start at one place the order is kept. -/
private theorem ascending_filter (ps : List Patch) (i : Nat) :
    (ascending ps).filter (fun a => a.1.start = i) = ps.zipIdx.filter fun a => a.1.start = i := by
  have hfirst : ((ascending ps).filter fun a => a.1.start = i).Pairwise
      fun a b => a.2 ≤ b.2 := by
    refine ((ascending_pairwise ps).filter _).imp_of_mem ?_
    intro a b ha hb hab
    have ha := of_decide_eq_true (List.mem_filter.mp ha).2
    have hb := of_decide_eq_true (List.mem_filter.mp hb).2
    rw [appliedBefore_iff] at hab
    omega
  have hsecond : (ps.zipIdx.filter fun a => a.1.start = i).Pairwise fun a b => a.2 ≤ b.2 :=
    ((zipIdx_pairwise ps).imp Nat.le_of_lt).filter _
  refine List.Perm.eq_of_pairwise (fun a b ha hb hab hba => ?_) hfirst hsecond
    ((ascending_perm ps).filter _)
  have ha := List.mem_zipIdx_iff_getElem?.mp
    ((ascending_perm ps).mem_iff.mp (List.mem_filter.mp ha).1)
  have hb := List.mem_zipIdx_iff_getElem?.mp (List.mem_filter.mp hb).1
  rw [Nat.le_antisymm hab hba, hb] at ha
  exact Prod.ext (Option.some.inj ha).symm (Nat.le_antisymm hab hba)

/-- The patches from the first span to the last. -/
private def inTextOrder (ps : List Patch) : List Patch := (ascending ps).map Prod.fst

private theorem inTextOrder_perm (ps : List Patch) : (inTextOrder ps).Perm ps := by
  have hperm := (ascending_perm ps).map Prod.fst
  rwa [List.zipIdx_map_fst] at hperm

private theorem inTextOrder_pairwise (ps : List Patch) :
    (inTextOrder ps).Pairwise fun p q => p.start ≤ q.start := by
  refine List.pairwise_map.mpr ((ascending_pairwise ps).imp fun hab => ?_)
  rw [appliedBefore_iff] at hab
  omega

private theorem insertedAt_inTextOrder (ps : List Patch) (i : Nat) :
    insertedAt (inTextOrder ps) i = insertedAt ps i := by
  rw [inTextOrder, insertedAt_map_fst, ascending_filter, ← insertedAt_map_fst, List.zipIdx_map_fst]

/-- Applied one after the other, the last span comes first. -/
private theorem applyAll_eq_foldr (ps : List Patch) (t : Text) :
    applyAll ps t = (inTextOrder ps).foldr apply t := by
  rw [applyAll, List.foldl_eq_foldr_reverse, inTextOrder, List.foldr_map]
  rfl

/-- The spans of a text, pairwise apart, are replaced at once, whatever the order of the list. -/
theorem applyAll_eq {t : Text} (hwithin : ∀ p ∈ ps, p.Within 0 t.length)
    (hapart : ps.Pairwise Apart) : applyAll ps t = substituted ps 0 t := by
  have hmem : ∀ p ∈ inTextOrder ps, p.Within 0 t.length := fun p hp =>
    hwithin p ((inTextOrder_perm ps).mem_iff.mp hp)
  have horder : (inTextOrder ps).Pairwise fun p q => p.stop ≤ q.start := by
    have hapart := (inTextOrder_perm ps).symm.pairwise hapart Apart.symm
    refine ((inTextOrder_pairwise ps).and hapart).imp_of_mem
      fun hp hq ⟨hstart, hdisjoint, hempty⟩ => ?_
    have hp := (hmem _ hp).2.1
    have hq := (hmem _ hq).2.1
    omega
  have hremoves : ∀ i, 0 ≤ i → removesAt (inTextOrder ps) i = removesAt ps i :=
    fun i _ => (inTextOrder_perm ps).any_eq
  calc applyAll ps t
      = (inTextOrder ps).foldr apply t := applyAll_eq_foldr ps t
    _ = substituted (inTextOrder ps) 0 t := foldr_apply horder hmem
    _ = substituted ps 0 t :=
      substituted_congr 0 (fun i _ => insertedAt_inTextOrder ps i) hremoves t

/-- Patches that start at different places are applied in one order only, so the order of the list
does not matter, also where spans overlap. -/
theorem applyAll_perm (hstarts : (ps.map start).Nodup) (hperm : qs.Perm ps) (t : Text) :
    applyAll qs t = applyAll ps t := by
  have hstrict : ∀ rs : List Patch, rs.Perm ps →
      (inTextOrder rs).Pairwise fun p q => p.start < q.start := by
    intro rs hrs
    have hdistinct : ((inTextOrder rs).map start).Nodup :=
      (((inTextOrder_perm rs).trans hrs).map start).nodup_iff.mpr hstarts
    exact ((inTextOrder_pairwise rs).and (List.pairwise_map.mp hdistinct)).imp
      fun ⟨hle, hne⟩ => Nat.lt_of_le_of_ne hle hne
  have hsame : inTextOrder qs = inTextOrder ps := by
    refine List.Perm.eq_of_pairwise (fun p q _ _ hpq hqp => ?_) (hstrict qs hperm)
      (hstrict ps (List.Perm.refl ps)) ?_
    · exact absurd hpq (Nat.lt_asymm hqp)
    · exact (inTextOrder_perm qs).trans (hperm.trans (inTextOrder_perm ps).symm)
  rw [applyAll_eq_foldr, hsame, ← applyAll_eq_foldr]

end NodeBootstrap.Patch
