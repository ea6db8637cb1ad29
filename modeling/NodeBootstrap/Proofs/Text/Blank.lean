import NodeBootstrap.Text.Blank

/-!
# Texts without the blanks at their ends

A text is some blanks, the stripped text and some blanks again (`Text.exists_stripped`), and the
stripped text neither begins nor ends with one. So blanks that are put around a text do not show in
the stripped one.
-/

set_option autoImplicit false

namespace NodeBootstrap.Text

/-- A text of blanks. -/
def AllBlank (t : Text) : Prop := ∀ c ∈ t, c.isBlank = true

/-- A text that neither begins nor ends with a blank. -/
structure Trimmed (t : Text) : Prop where
  head : ∀ c, t.head? = some c → c.isBlank = false
  last : ∀ c, t.getLast? = some c → c.isBlank = false

variable {p : CodePoint → Bool} {t : Text}

/-! ## Cutting at the right -/

theorem dropRightWhile_append_takeRightWhile (p : CodePoint → Bool) (t : Text) :
    dropRightWhile p t ++ takeRightWhile p t = t := by
  rw [dropRightWhile, takeRightWhile, ← List.reverse_append, List.takeWhile_append_dropWhile,
    List.reverse_reverse]

theorem dropRightWhile_front (p : CodePoint → Bool) (t : Text) : dropRightWhile p t <+: t :=
  ⟨_, dropRightWhile_append_takeRightWhile p t⟩

theorem of_mem_takeRightWhile {c : CodePoint} (h : c ∈ takeRightWhile p t) : p c = true := by
  rw [takeRightWhile, List.mem_reverse] at h
  exact List.all_eq_true.mp List.all_takeWhile c h

theorem of_getLast?_dropRightWhile {c : CodePoint} (h : (dropRightWhile p t).getLast? = some c) :
    p c = false := by
  rw [dropRightWhile, List.getLast?_reverse] at h
  have hnot := List.head?_dropWhile_not p t.reverse
  rw [h] at hnot
  exact hnot

theorem dropRightWhile_eq_self (h : ∀ c, t.getLast? = some c → p c = false) :
    dropRightWhile p t = t := by
  rw [dropRightWhile]
  cases hr : t.reverse with
  | nil => rw [List.dropWhile_nil, ← hr, List.reverse_reverse]
  | cons c rest =>
    have hlast : t.getLast? = some c := by rw [← List.head?_reverse, hr]; rfl
    rw [List.dropWhile_cons, h c hlast, ← hr]
    exact List.reverse_reverse t

/-- A text whose last code point is not of a class is not made of the class. -/
theorem of_dropWhile_eq_nil (h : t.dropWhile p = []) : ∀ c ∈ t, p c = true := by
  have hwhole := List.takeWhile_append_dropWhile (p := p) (l := t)
  rw [h, List.append_nil] at hwhole
  exact fun c hc => List.all_eq_true.mp List.all_takeWhile c (hwhole.symm ▸ hc)

theorem dropWhile_ne_nil (h : ∀ c, t.getLast? = some c → p c = false) (hne : t ≠ []) :
    t.dropWhile p ≠ [] := by
  intro hnil
  have hp : p (t.getLast hne) = true := of_dropWhile_eq_nil hnil _ (List.getLast_mem hne)
  exact Bool.false_ne_true ((h _ (List.getLast?_eq_some_getLast hne)).symm.trans hp)

/-- What a class of code points fills at the right is cut. -/
theorem dropRightWhile_append {s : Text} (h : ∀ c ∈ s, p c = true) :
    dropRightWhile p (t ++ s) = dropRightWhile p t := by
  rw [dropRightWhile, List.reverse_append, List.dropWhile_append_of_pos, dropRightWhile]
  intro c hc
  exact h c (List.mem_reverse.mp hc)

/-- What is taken at the right is all of the class behind a text that does not end in it. -/
theorem takeRightWhile_append {front : Text} (hfront : ∀ c, front.getLast? = some c → p c = false)
    (h : ∀ c ∈ t, p c = true) : takeRightWhile p (front ++ t) = t := by
  have hnone : front.reverse.takeWhile p = [] := by
    cases hr : front.reverse with
    | nil => rfl
    | cons c rest =>
      have hlast : front.getLast? = some c := by rw [← List.head?_reverse, hr]; rfl
      rw [List.takeWhile_cons, hfront c hlast]
      rfl
  have hreverse : ∀ c ∈ t.reverse, p c = true := fun c hc => h c (List.mem_reverse.mp hc)
  rw [takeRightWhile, List.reverse_append, List.takeWhile_append_of_pos hreverse, hnone,
    List.append_nil, List.reverse_reverse]

/-! ## Stripping -/

theorem dropWhile_eq_self (h : ∀ c, t.head? = some c → p c = false) : t.dropWhile p = t := by
  cases t with
  | nil => rfl
  | cons c t =>
    rw [List.dropWhile_cons, h c rfl]
    rfl

theorem dropWhile_of_allBlank (h : AllBlank t) : t.dropWhile CodePoint.isBlank = [] := by
  have happend := @List.dropWhile_append_of_pos _ CodePoint.isBlank t [] h
  rwa [List.append_nil] at happend

theorem stripped_of_trimmed (h : Trimmed t) : stripped t = t := by
  rw [stripped, dropWhile_eq_self h.head, dropRightWhile_eq_self h.last]

theorem stripped_of_allBlank (h : AllBlank t) : stripped t = [] := by
  rw [stripped, dropWhile_of_allBlank h]
  rfl

theorem stripped_sublist (t : Text) : (stripped t).Sublist t :=
  (dropRightWhile_front _ _).sublist.trans (List.dropWhile_suffix _).sublist

/-- A text is trimmed by what it begins and ends with. -/
theorem trimmed_append {front behind : Text} {c d : CodePoint} (hfront : front.head? = some c)
    (hbehind : behind.getLast? = some d) (hc : c.isBlank = false) (hd : d.isBlank = false) :
    Trimmed (front ++ behind) := by
  refine ⟨fun first hfirst => ?_, fun last hlast => ?_⟩
  · rw [List.head?_append, hfront, Option.some_or] at hfirst
    exact Option.some.inj hfirst ▸ hc
  · rw [List.getLast?_append, hbehind, Option.some_or] at hlast
    exact Option.some.inj hlast ▸ hd

theorem trimmed_stripped (t : Text) : Trimmed (stripped t) := by
  refine ⟨fun c hc => ?_, fun c hc => of_getLast?_dropRightWhile hc⟩
  have hwhole := dropRightWhile_append_takeRightWhile CodePoint.isBlank
    (t.dropWhile CodePoint.isBlank)
  have hhead : (t.dropWhile CodePoint.isBlank).head? = some c := by
    rw [stripped] at hc
    rw [← hwhole, List.head?_append, hc]
    rfl
  have hnot := List.head?_dropWhile_not CodePoint.isBlank t
  rw [hhead] at hnot
  exact hnot

theorem stripped_stripped (t : Text) : stripped (stripped t) = stripped t :=
  stripped_of_trimmed (trimmed_stripped t)

/-- Blanks in front of a text do not count. -/
theorem stripped_blanks_append {s : Text} (h : AllBlank s) : stripped (s ++ t) = stripped t := by
  rw [stripped, List.dropWhile_append_of_pos h, stripped]

/-- Blanks behind a text do not count. -/
theorem stripped_append_blanks {s : Text} (h : AllBlank s) : stripped (t ++ s) = stripped t := by
  rw [stripped, List.dropWhile_append]
  split
  next hnil => rw [dropWhile_of_allBlank h, stripped, List.isEmpty_iff.mp hnil]
  next => rw [dropRightWhile_append h, stripped]

/-- The blanks at the ends and the text between them. -/
theorem exists_stripped (t : Text) :
    ∃ lead trail, AllBlank lead ∧ AllBlank trail ∧ t = lead ++ (stripped t ++ trail) := by
  refine ⟨t.takeWhile CodePoint.isBlank, takeRightWhile CodePoint.isBlank
    (t.dropWhile CodePoint.isBlank), fun c hc => List.all_eq_true.mp List.all_takeWhile c hc,
    fun c hc => of_mem_takeRightWhile hc, ?_⟩
  rw [stripped, dropRightWhile_append_takeRightWhile, List.takeWhile_append_dropWhile]

end NodeBootstrap.Text
