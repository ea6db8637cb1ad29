import NodeBootstrap.Proofs.Node.CniFlags

/-!
# The arguments of a start command

A start command is the text of a program and of named arguments. Setting the flags of the network
plugins works on the text and knows nothing of arguments. This module says when it comes to the same
as taking the flags out of the list of arguments and putting the new ones behind it
(`Cni.updatedCommand_written`): exactly if no blank in the value of another argument has one of the
flags behind it.

The values of the flags themselves may hold anything, with one exception. If the last word of a
quoted value is a flag that is cut out earlier, the closing quote goes with that word, and the rest
of the value may stay behind (`Cni.not_updatedCommand_written`).
-/

set_option autoImplicit false

namespace NodeBootstrap.Cni

open Command

variable {name other value t : Text}

/-! ## The pieces of a command -/

/-- The text of arguments, each with a space in front; the values are given as they stand there. -/
def rendered (pieces : List (Text × Text)) : Text :=
  pieces.flatMap fun p => .char ' ' :: (dashed p.1 ++ .char '=' :: p.2)

theorem rendered_cons (p : Text × Text) (pieces : List (Text × Text)) :
    rendered (p :: pieces) =
      .char ' ' :: (dashed p.1 ++ .char '=' :: (p.2 ++ rendered pieces)) := by
  simp only [rendered, List.flatMap_cons, List.cons_append, List.append_assoc]

theorem endsWord_rendered (pieces : List (Text × Text)) : endsWord (rendered pieces) = true := by
  cases pieces <;> rfl

/-- Arguments as pieces. -/
def piecesOf (arguments : List (Text × Text)) : List (Text × Text) :=
  arguments.map fun a => (a.1, quoted a.2)

theorem appended_eq (arguments : List (Text × Text)) :
    appended arguments = rendered (piecesOf arguments) := by
  induction arguments with
  | nil => rfl
  | cons a arguments ih =>
    have hpieces : piecesOf (a :: arguments) = (a.1, quoted a.2) :: piecesOf arguments := rfl
    rw [appended_cons, ih, renderTextFlag_eq, hpieces, rendered_cons, List.append_assoc]
    rfl

theorem appended_append (first second : List (Text × Text)) :
    appended (first ++ second) = appended first ++ appended second := List.flatMap_append

/-- A value ends in no blank. -/
theorem last_quoted {c : CodePoint} (h : (quoted value).getLast? = some c) : c.isBlank = false := by
  rcases quoted_cases value with heq | ⟨-, hblank, heq⟩ <;> rw [heq] at h
  · rw [← List.cons_append, List.getLast?_append, List.getLast?_singleton, Option.some_or] at h
    cases h
    rfl
  · exact hblank c (List.mem_of_getLast? h)

theorem last_appended (arguments : List (Text × Text)) :
    ∀ c, (appended arguments).getLast? = some c → c.isBlank = false := by
  induction arguments with
  | nil => exact nofun
  | cons a arguments ih =>
    intro c hc
    have hne : quoted a.2 ≠ [] := by
      rcases quoted_cases a.2 with heq | ⟨hne, -, heq⟩ <;> rw [heq]
      · exact List.cons_ne_nil _ _
      · exact hne
    have hfront : .char ' ' :: (dashed a.1 ++ .char '=' :: quoted a.2 ++ appended arguments) =
        (.char ' ' :: (dashed a.1 ++ [.char '='])) ++ (quoted a.2 ++ appended arguments) := by
      simp only [List.append_assoc, List.cons_append, List.nil_append]
    rw [appended_cons, renderTextFlag_eq, hfront, List.getLast?_append, List.getLast?_append] at hc
    rcases Option.or_eq_some_iff.mp hc with hc | ⟨hnone, -⟩
    · rcases Option.or_eq_some_iff.mp hc with hc | ⟨-, hc⟩
      · exact ih c hc
      · exact last_quoted hc
    · obtain ⟨-, hnone⟩ := Option.or_eq_none_iff.mp hnone
      exact absurd (List.getLast?_eq_none_iff.mp hnone) hne

/-! ## Cutting inside a quoted value -/

/-- The last word of a value stands behind a blank and is a flag with a value of its own. -/
def EndsInFlag (name value : Text) : Prop :=
  ∃ c word, (c :: word) <:+ value ∧ c.isBlank = true ∧ (∀ d ∈ word, d.isBlank = false) ∧
    dashed name ++ [.char '='] <+: word

theorem EndsInFlag.of_suffix (h : EndsInFlag name t) (ht : t <:+ value) :
    EndsInFlag name value := by
  obtain ⟨c, word, hsuffix, hword⟩ := h
  exact ⟨c, word, hsuffix.trans ht, hword⟩

theorem endsInFlag_cons {c : CodePoint} {v : Text} :
    EndsInFlag name (c :: v) ↔
      (c.isBlank = true ∧ (∀ d ∈ v, d.isBlank = false) ∧ dashed name ++ [.char '='] <+: v) ∨
        EndsInFlag name v := by
  constructor
  · rintro ⟨d, word, hsuffix, hword⟩
    rcases List.suffix_cons_iff.mp hsuffix with heq | hsuffix
    · obtain ⟨rfl, rfl⟩ := List.cons.inj heq
      exact .inl hword
    · exact .inr ⟨d, word, hsuffix, hword⟩
  · rintro (hword | h)
    · exact ⟨c, v, List.suffix_refl _, hword⟩
    · exact h.of_suffix (List.suffix_cons _ _)

instance decidableEndsInFlag (name : Text) : (value : Text) → Decidable (EndsInFlag name value)
  | [] => isFalse fun ⟨_, _, hsuffix, _⟩ => nomatch List.suffix_nil.mp hsuffix
  | _ :: v => @decidable_of_iff _ _ endsInFlag_cons.symm
    (@instDecidableOr _ _ _ (decidableEndsInFlag name v))

/-- The last of the blanks in front of a word. -/
theorem exists_blank_dropWhile {c : CodePoint} (hc : c.isBlank = true) (v : Text) :
    ∃ d, d.isBlank = true ∧ (d :: v.dropWhile CodePoint.isBlank) <:+ c :: v := by
  induction v generalizing c with
  | nil => exact ⟨c, hc, List.suffix_refl _⟩
  | cons d v ih =>
    by_cases hd : d.isBlank = true
    · obtain ⟨e, he, hsuffix⟩ := ih hd
      rw [List.dropWhile_cons, if_pos hd]
      exact ⟨e, he, hsuffix.trans (List.suffix_cons _ _)⟩
    · rw [List.dropWhile_cons, if_neg hd]
      exact ⟨c, hc, List.suffix_refl _⟩

/-- What a text ends in is what the second part ends in, if the first does not have it. -/
theorem exists_of_append_singleton {c : CodePoint} {u v w : Text} (h : u ++ [c] = v ++ w)
    (hc : c ∉ v) : ∃ w', w = w' ++ [c] ∧ u = v ++ w' := by
  rcases List.eq_nil_or_concat w with rfl | ⟨w', d, hw⟩
  · rw [List.append_nil] at h
    exact absurd (h ▸ List.mem_append_right u (List.mem_singleton.mpr rfl)) hc
  · rw [List.concat_eq_append] at hw
    subst hw
    rw [← List.append_assoc] at h
    obtain ⟨rfl, hd⟩ := List.append_inj' h rfl
    cases hd
    exact ⟨w', rfl, rfl⟩

/-- A value without quotes that a blank stands in ends at that blank, whatever is behind it. -/
theorem afterValue_append {inner : Text} (hquote : .char '"' ∉ inner)
    (hblank : ∃ c ∈ inner, c.isBlank = true) :
    ∃ d behind, d.isBlank = true ∧ (d :: behind) <:+ inner ∧
      ∀ rest, afterValue (inner ++ rest) = d :: behind ++ rest := by
  obtain ⟨c, hmem, hc⟩ := hblank
  cases hdrop : inner.dropWhile (!CodePoint.isBlank ·) with
  | nil =>
    have hnone := Text.of_dropWhile_eq_nil hdrop c hmem
    rw [hc] at hnone
    cases hnone
  | cons d behind =>
    have hd : d.isBlank = true := by
      have hends := endsWord_dropWhile inner
      rw [hdrop] at hends
      exact hends
    refine ⟨d, behind, hd, hdrop ▸ List.dropWhile_suffix _, fun rest => ?_⟩
    have hhead : (inner ++ rest).head? ≠ some (.char '"') := by
      cases inner with
      | nil => cases hmem
      | cons first inner =>
        intro heq
        exact hquote (Option.some.inj heq ▸ List.mem_cons_self)
    rw [afterValue_of_head? hhead, afterBare, List.dropWhile_append, hdrop]
    rfl

/-- Where a flag is cut out inside a quoted value that does not end in it, the value goes on with a
blank. -/
theorem exists_afterFlag?_inside {c : CodePoint} {v : Text} (hname : Plain name)
    (hc : c.isBlank = true) (hquote : .char '"' ∉ v) (hends : ¬ EndsInFlag name (c :: v))
    (hword : flagWord (v.dropWhile CodePoint.isBlank ++ [.char '"']) = dashed name) :
    ∃ d behind, d.isBlank = true ∧ (d :: behind) <:+ v ∧
      ∀ rest, afterFlag? name (v.dropWhile CodePoint.isBlank ++ .char '"' :: rest) =
        some (d :: behind ++ .char '"' :: rest) := by
  obtain ⟨e, he, hlast⟩ := exists_blank_dropWhile hc v
  have hsuffix : v.dropWhile CodePoint.isBlank <:+ v := List.dropWhile_suffix _
  have hquoteless : .char '"' ∉ dashed name := not_mem_dashed hname rfl
  generalize v.dropWhile CodePoint.isBlank = r at *
  rcases exists_of_flagWord hword with ⟨inner, htext⟩ | ⟨behind, hbehind, htext⟩
  · have hfront : r ++ [.char '"'] = (dashed name ++ [.char '=']) ++ inner := by
      rw [htext, List.append_assoc]
      rfl
    obtain ⟨inner, rfl, rfl⟩ := exists_of_append_singleton hfront fun hmem =>
      (List.mem_append.mp hmem).elim hquoteless (by decide)
    have hinner : .char '"' ∉ inner := fun hmem =>
      hquote (hsuffix.subset (List.mem_append_right _ hmem))
    have hblank : ∃ d ∈ inner, d.isBlank = true := by
      refine Classical.byContradiction fun hnone => hends ⟨e, _, hlast, he, fun d hd => ?_,
        List.prefix_append _ _⟩
      rcases List.mem_append.mp hd with hd | hd
      · rcases List.mem_append.mp hd with hd | hd
        · exact (hname.unbroken.dashed d hd).1
        · rw [List.mem_singleton.mp hd]
          rfl
      · exact Bool.eq_false_iff.mpr fun hblank => hnone ⟨d, hd, hblank⟩
    obtain ⟨d, behind, hd, hbehind, hafter⟩ := afterValue_append hinner hblank
    refine ⟨d, behind, hd, (hbehind.trans (List.suffix_append _ _)).trans hsuffix, fun rest => ?_⟩
    rw [← hafter, List.append_assoc, List.append_assoc]
    exact afterFlag?_value name _
  · obtain ⟨behind, rfl, rfl⟩ := exists_of_append_singleton htext hquoteless
    cases behind with
    | nil => cases hbehind
    | cons d behind =>
      refine ⟨d, behind, hbehind, (List.suffix_append _ _).trans hsuffix, fun rest => ?_⟩
      rw [List.append_assoc]
      exact afterFlag?_alone name hbehind

/-- What is left of a quoted value when a flag is cut out of it: a text between the same quotes. -/
structure Shortened (name value left : Text) : Prop where
  cut : ∀ rest, endsWord rest = true →
    withoutFlagBehind name (value ++ .char '"' :: rest) =
      left ++ .char '"' :: withoutFlagBehind name rest
  quote : .char '"' ∉ left
  blank : (∃ c ∈ value, c.isBlank = true) → ∃ c ∈ left, c.isBlank = true
  ends : ∀ other, EndsInFlag other left → EndsInFlag other value

theorem dropWhile_quote (v rest : Text) :
    (v ++ .char '"' :: rest).dropWhile CodePoint.isBlank =
      v.dropWhile CodePoint.isBlank ++ .char '"' :: rest := by
  rw [List.dropWhile_append]
  split
  next hnil =>
    rw [List.isEmpty_iff.mp hnil]
    rfl
  next => rfl

/-- A blank and the flag behind it are cut out. -/
theorem Shortened.behind {c d : CodePoint} {v behind left : Text}
    (h : Shortened name (d :: behind) left) (hc : c.isBlank = true) (hd : d.isBlank = true)
    (hsuffix : (d :: behind) <:+ v)
    (hafter : ∀ rest, afterFlag? name (v.dropWhile CodePoint.isBlank ++ .char '"' :: rest) =
      some (d :: behind ++ .char '"' :: rest)) : Shortened name (c :: v) left := by
  refine ⟨fun rest hrest => ?_, h.quote, fun _ => h.blank ⟨d, List.mem_cons_self, hd⟩,
    fun other hother => (h.ends other hother).of_suffix (hsuffix.trans (List.suffix_cons _ _))⟩
  have hcut := (congrArg (afterFlag? name) (dropWhile_quote v rest)).trans (hafter rest)
  rw [List.cons_append, withoutFlagBehind_cut hc hcut, h.cut rest hrest]

/-- A value that no blank is left of was as it is: a flag that is cut out leaves one behind. -/
theorem Shortened.eq_of_no_blank {left : Text} (h : Shortened name value left) (hname : Plain name)
    (hblank : ∀ c ∈ left, c.isBlank = false) : value = left := by
  have hvalue : ∀ c ∈ value ++ [.char '"'], c.isBlank = false := by
    intro c hc
    rcases List.mem_append.mp hc with hc | hc
    · refine Bool.eq_false_iff.mpr fun htrue => ?_
      obtain ⟨d, hd, hblank'⟩ := h.blank ⟨c, hc, htrue⟩
      exact Bool.false_ne_true ((hblank d hd).symm.trans hblank')
    · rw [List.mem_singleton.mp hc]
      rfl
  have hcut := h.cut [] rfl
  rw [withoutFlagBehind_of_freeBehind hname (clear_of_no_blank hvalue).freeBehind,
    withoutFlagBehind_nil] at hcut
  exact List.append_cancel_right hcut

/-- A code point that no flag is cut out behind stays in front of what is left. -/
theorem Shortened.cons {c : CodePoint} {v left : Text} (h : Shortened name v left)
    (hname : Plain name) (hc : .char '"' ≠ c) (hkeep : c.isBlank = true →
      flagWord (v.dropWhile CodePoint.isBlank ++ [.char '"']) ≠ dashed name) :
    Shortened name (c :: v) (c :: left) := by
  refine ⟨fun rest hrest => ?_, fun hmem => ?_, ?_, fun other hother => ?_⟩
  · have hword := flagWord_append (v.dropWhile CodePoint.isBlank ++ [.char '"']) hrest
    rw [List.append_assoc, List.singleton_append] at hword
    have hnone : c.isBlank = true →
        afterFlag? name ((v ++ .char '"' :: rest).dropWhile CodePoint.isBlank) = none := by
      intro hblank
      rw [dropWhile_quote, afterFlag?_eq_none hname, hword]
      exact hkeep hblank
    rw [List.cons_append, withoutFlagBehind_keep hnone, h.cut rest hrest]
    rfl
  · exact (List.mem_cons.mp hmem).elim hc h.quote
  · rintro ⟨d, hd, hblank⟩
    rcases List.mem_cons.mp hd with rfl | hd
    · exact ⟨d, List.mem_cons_self, hblank⟩
    · obtain ⟨e, he, hblank⟩ := h.blank ⟨d, hd, hblank⟩
      exact ⟨e, List.mem_cons_of_mem _ he, hblank⟩
  · rcases endsInFlag_cons.mp hother with ⟨hblank, hlast, hflag⟩ | hother
    · obtain rfl := h.eq_of_no_blank hname hlast
      exact endsInFlag_cons.mpr (.inl ⟨hblank, hlast, hflag⟩)
    · exact (h.ends other hother).of_suffix (List.suffix_cons _ _)

/-- A value that does not end in a flag keeps its quotes when the flag is cut out. -/
theorem exists_shortened (hname : Plain name) (hquote : .char '"' ∉ value)
    (hends : ¬ EndsInFlag name value) : ∃ left, Shortened name value left := by
  -- a flag is cut out with all of its value, so the induction is on the length
  induction hlength : value.length using Nat.strongRecOn generalizing value with
  | ind n ih =>
    cases value with
    | nil =>
      refine ⟨[], fun rest _ => ?_, hquote, id, fun _ => id⟩
      have hkeep : CodePoint.isBlank (.char '"') = true →
          afterFlag? name (rest.dropWhile CodePoint.isBlank) = none := nofun
      exact withoutFlagBehind_keep hkeep
    | cons c v =>
      rw [List.length_cons] at hlength
      obtain ⟨hc, hv⟩ := not_or.mp (mt List.mem_cons.mpr hquote)
      by_cases hcut : c.isBlank = true ∧
          flagWord (v.dropWhile CodePoint.isBlank ++ [.char '"']) = dashed name
      · obtain ⟨d, behind, hd, hsuffix, hafter⟩ :=
          exists_afterFlag?_inside hname hcut.1 hv hends hcut.2
        have hle := hsuffix.length_le
        obtain ⟨left, hleft⟩ := ih (d :: behind).length (by omega)
          (fun hmem => hv (hsuffix.subset hmem))
          (fun h => hends (h.of_suffix (hsuffix.trans (List.suffix_cons _ _)))) rfl
        exact ⟨left, hleft.behind hcut.1 hd hsuffix hafter⟩
      · obtain ⟨left, hleft⟩ := ih v.length (by omega) hv
          (fun h => hends (h.of_suffix (List.suffix_cons _ _))) rfl
        exact ⟨c :: left, hleft.cons hname hc fun hblank hword => hcut ⟨hblank, hword⟩⟩

/-! ## Cutting a flag out of the pieces -/

/-- A value as it stands that is cut apart from what is behind it. -/
def Apart (name t : Text) : Prop :=
  ∀ rest, endsWord rest = true →
    withoutFlagBehind name (t ++ rest) = withoutFlagBehind name t ++ withoutFlagBehind name rest

theorem apart_of_freeBehind (hname : Plain name) (h : FreeBehind name t)
    (hlast : ∀ c, t.getLast? = some c → c.isBlank = false) : Apart name t := by
  intro rest hrest
  rw [withoutFlagBehind_append hname h hlast hrest, withoutFlagBehind_of_freeBehind hname h]

theorem Shortened.withoutFlagBehind_quoted {left rest : Text} (h : Shortened name value left)
    (hrest : endsWord rest = true) :
    withoutFlagBehind name (.char '"' :: (value ++ .char '"' :: rest)) =
      .char '"' :: (left ++ .char '"' :: withoutFlagBehind name rest) := by
  have hkeep : CodePoint.isBlank (.char '"') = true →
      afterFlag? name ((value ++ .char '"' :: rest).dropWhile CodePoint.isBlank) = none := nofun
  rw [withoutFlagBehind_keep hkeep, h.cut rest hrest]

theorem Shortened.apart {left : Text} (h : Shortened name value left) :
    Apart name (.char '"' :: (value ++ [.char '"'])) := by
  intro rest hrest
  have hnil := @Shortened.withoutFlagBehind_quoted _ _ _ [] h rfl
  rw [withoutFlagBehind_nil] at hnil
  rw [hnil, List.cons_append, List.append_assoc, List.singleton_append,
    h.withoutFlagBehind_quoted hrest, List.cons_append, List.append_assoc, List.singleton_append]

/-- The pieces of a flag are cut out, and what else is in quotes is cut apart. -/
theorem withoutFlagBehind_rendered (hname : Plain name) {pieces : List (Text × Text)}
    (h : ∀ p ∈ pieces, Unbroken p.1 ∧ (p.1 = name → Whole p.2) ∧ (p.1 ≠ name → Apart name p.2)) :
    withoutFlagBehind name (rendered pieces) =
      rendered ((pieces.filter fun p => p.1 ≠ name).map fun p =>
        (p.1, withoutFlagBehind name p.2)) := by
  induction pieces with
  | nil => exact withoutFlagBehind_nil name
  | cons p pieces ih =>
    obtain ⟨⟨hunbroken, hwhole, hapart⟩, hpieces⟩ := List.forall_mem_cons.mp h
    have hends := endsWord_rendered pieces
    have hword : ∀ rest, flagWord (dashed p.1 ++ .char '=' :: rest) = dashed p.1 := fun rest => by
      rw [flagWord_dashed_append hunbroken]
      exact List.append_nil _
    rw [rendered_cons]
    by_cases hp : p.1 = name
    · have hcut : afterFlag? name ((dashed p.1 ++ .char '=' :: (p.2 ++ rendered pieces)).dropWhile
          CodePoint.isBlank) = some (rendered pieces) := by
        rw [dropWhile_of_flagWord (hword _), hp, afterFlag?_value, (hwhole hp).afterValue hends]
      rw [withoutFlagBehind_cut rfl hcut, ih hpieces, List.filter_cons_of_neg]
      exact fun hne => of_decide_eq_true hne hp
    · have hkeep : CodePoint.isBlank (.char ' ') = true → afterFlag? name
          ((dashed p.1 ++ .char '=' :: (p.2 ++ rendered pieces)).dropWhile CodePoint.isBlank) =
            none := by
        intro _
        rw [dropWhile_of_flagWord (hword _), afterFlag?_eq_none hname, hword]
        exact fun heq => hp (dashed_injective heq)
      have hfront : ∀ c ∈ dashed p.1 ++ [.char '='], c.isBlank = false := by
        intro c hc
        rcases List.mem_append.mp hc with hc | hc
        · exact (hunbroken.dashed c hc).1
        · rw [List.mem_singleton.mp hc]
          rfl
      have hvalue := withoutFlagBehind_no_blank_append hfront name (p.2 ++ rendered pieces)
      rw [List.append_assoc, List.append_assoc, List.singleton_append, List.singleton_append,
        hapart hp _ hends, ih hpieces] at hvalue
      rw [withoutFlagBehind_keep hkeep, hvalue, List.filter_cons_of_pos (by simpa using hp),
        List.map_cons, rendered_cons]

/-- What the value of an argument has to be like for some flags to be cut out one after the other.
An argument of another name is free of them. One of their own names is cut out whole when it is its
turn, and no flag whose turn comes before stands at the end of its value. -/
inductive Ready (names : List Text) : Text × Text → Prop
  | free (other t : Text) (hnot : other ∉ names) (h : ∀ name ∈ names, FreeBehind name t)
      (hlast : ∀ c, t.getLast? = some c → c.isBlank = false) : Ready names (other, t)
  | bare (name t : Text) (hne : t ≠ []) (hquote : .char '"' ∉ t)
      (hblank : ∀ c ∈ t, c.isBlank = false) : Ready names (name, t)
  | inQuotes (name value : Text) (hmem : name ∈ names) (hquote : .char '"' ∉ value)
      (hends : ∀ first, [first, name].Sublist names → ¬ EndsInFlag first value) :
      Ready names (name, .char '"' :: (value ++ [.char '"']))

theorem Ready.whole {names : List Text} {p : Text × Text} (h : Ready names p) (hp : p.1 ∈ names) :
    Whole p.2 := by
  cases h with
  | free _ _ hnot => exact absurd hp hnot
  | bare _ _ hne hquote hblank => exact .bare _ hne hquote hblank
  | inQuotes _ _ _ hquote => exact .inQuotes _ hquote

/-- Cutting one flag out leaves an argument of another name ready for the flags that come next, and
changes it only if it is one of them. -/
theorem Ready.cut {names : List Text} {p : Text × Text} (h : Ready (name :: names) p)
    (hname : Plain name) (hp : p.1 ≠ name) :
    Apart name p.2 ∧ Ready names (p.1, withoutFlagBehind name p.2) ∧
      (p.1 ∉ names → withoutFlagBehind name p.2 = p.2) := by
  cases h with
  | free other t hnot hfree hlast =>
    obtain ⟨hfirst, hrest⟩ := List.forall_mem_cons.mp hfree
    have hsame := withoutFlagBehind_of_freeBehind hname hfirst
    refine ⟨apart_of_freeBehind hname hfirst hlast, ?_, fun _ => hsame⟩
    show Ready names (other, withoutFlagBehind name t)
    rw [hsame]
    exact .free other t (fun hmem => hnot (List.mem_cons_of_mem _ hmem)) hrest hlast
  | bare other t hne hquote hblank =>
    have hfree : FreeBehind name t := (clear_of_no_blank hblank).freeBehind
    have hsame := withoutFlagBehind_of_freeBehind hname hfree
    refine ⟨apart_of_freeBehind hname hfree fun c hc => hblank c (List.mem_of_getLast? hc), ?_,
      fun _ => hsame⟩
    show Ready names (other, withoutFlagBehind name t)
    rw [hsame]
    exact .bare other t hne hquote hblank
  | inQuotes other value hmem hquote hends =>
    have hlater : other ∈ names := (List.mem_cons.mp hmem).resolve_left hp
    obtain ⟨left, hleft⟩ := exists_shortened hname hquote (hends name
      ((List.singleton_sublist.mpr hlater).cons_cons name))
    have hcut := @Shortened.withoutFlagBehind_quoted _ _ _ [] hleft rfl
    rw [withoutFlagBehind_nil] at hcut
    refine ⟨hleft.apart, ?_, fun hnot => absurd hlater hnot⟩
    show Ready names (other, withoutFlagBehind name (.char '"' :: (value ++ [.char '"'])))
    rw [hcut]
    exact .inQuotes other left hlater hleft.quote fun first hfirst hend =>
      hends first (hfirst.cons name) (hleft.ends first hend)

/-- A word that is no flag, in front of arguments: a program. -/
structure IsProgram (program : Text) : Prop where
  ne_nil : program ≠ []
  blank : ∀ c ∈ program, c.isBlank = false
  noFlag : ¬ text "--" <+: program

theorem IsProgram.free {program : Text} (h : IsProgram program) (name : Text) :
    Free name program := by
  refine ⟨fun hword => h.noFlag ?_, (clear_of_no_blank h.blank).freeBehind⟩
  have hprefix : dashed name <+: program := hword ▸ List.takeWhile_prefix _
  exact (List.prefix_append _ _).trans hprefix

/-- Flags that are cut out one after the other take their arguments with them and leave the others
as they are. -/
theorem foldl_withoutFlag_rendered {names : List Text} (hnames : ∀ name ∈ names, Plain name)
    {program : Text} (hprogram : IsProgram program) {pieces : List (Text × Text)}
    (h : ∀ p ∈ pieces, Unbroken p.1 ∧ Ready names p) :
    names.foldl (fun command name => withoutFlag name command) (program ++ rendered pieces) =
      program ++ rendered (pieces.filter fun p => p.1 ∉ names) := by
  induction names generalizing pieces with
  | nil =>
    have hall : pieces.filter (fun p => p.1 ∉ ([] : List Text)) = pieces :=
      List.filter_eq_self.mpr fun p _ => decide_eq_true List.not_mem_nil
    rw [hall]
    rfl
  | cons name names ih =>
    obtain ⟨hname, hnames⟩ := List.forall_mem_cons.mp hnames
    have hfree := hprogram.free name
    have hends := endsWord_rendered pieces
    have hstart : afterFlag? name (program ++ rendered pieces) = none := by
      rw [afterFlag?_eq_none hname, flagWord_append _ hends]
      exact hfree.start
    have hlast : ∀ c, program.getLast? = some c → c.isBlank = false := fun c hc =>
      hprogram.blank c (List.mem_of_getLast? hc)
    have hcut := withoutFlagBehind_rendered hname fun p hp =>
      ⟨(h p hp).1, fun heq => (h p hp).2.whole (heq ▸ List.mem_cons_self), fun hne =>
        ((h p hp).2.cut hname hne).1⟩
    rw [List.foldl_cons, withoutFlag, hstart, Option.getD_none,
      withoutFlagBehind_append hname hfree.behind hlast hends, hcut, ih hnames]
    · have hkept : (pieces.filter fun p => p.1 ≠ name).filter (fun p => p.1 ∉ names) =
          pieces.filter fun p => p.1 ∉ name :: names := by
        rw [List.filter_filter]
        refine List.filter_congr fun p _ => ?_
        rw [← Bool.decide_and, decide_eq_decide, List.mem_cons, not_or, and_comm]
      have hsame : ∀ p ∈ pieces.filter (fun p => p.1 ∉ name :: names),
          (p.1, withoutFlagBehind name p.2) = id p := by
        intro p hp
        obtain ⟨hmem, hnot⟩ := List.mem_filter.mp hp
        obtain ⟨hne, hnot⟩ := not_or.mp (mt List.mem_cons.mpr (of_decide_eq_true hnot))
        exact Prod.ext rfl (((h p hmem).2.cut hname hne).2.2 hnot)
      rw [List.filter_map]
      refine congrArg (fun pieces => program ++ rendered pieces) ?_
      exact (congrArg (List.map _) hkept).trans ((List.map_congr_left hsame).trans (List.map_id _))
    · intro p hp
      obtain ⟨p, hfiltered, rfl⟩ := List.mem_map.mp hp
      obtain ⟨hmem, hne⟩ := List.mem_filter.mp hfiltered
      exact ⟨(h p hmem).1, ((h p hmem).2.cut hname (of_decide_eq_true hne)).2.1⟩

/-! ## Setting the flags of a command line -/

/-- A program and its arguments: names without the dashes, and values. -/
structure StartCommand where
  program : Text
  arguments : List (Text × Text)

namespace StartCommand

/-- The command in which a program and its arguments are written. -/
def written (line : StartCommand) : Text :=
  Text.join (text " ") (line.program :: line.arguments.map fun a => renderTextFlag a.1 a.2)

/-- What the arguments of a command need to be told apart: no part of it ends too early. -/
structure Legible (line : StartCommand) : Prop where
  program : IsProgram line.program
  names : ∀ a ∈ line.arguments, Unbroken a.1
  values : ∀ a ∈ line.arguments, .char '"' ∉ a.2

/-- The arguments that are no flags of the network plugins. -/
def others (line : StartCommand) : List (Text × Text) :=
  line.arguments.filter fun a => a.1 ∉ flagNames

/-- A command line with the flags for a layout in place of earlier ones. -/
def configured (line : StartCommand) (l : InstallLayout) : StartCommand :=
  ⟨line.program, line.others ++ flags l⟩

theorem written_eq (line : StartCommand) :
    line.written = line.program ++ appended line.arguments := by
  rw [written, Text.join_cons, List.flatMap_map]
  rfl

theorem written_configured (line : StartCommand) (l : InstallLayout) :
    (line.configured l).written = line.program ++ appended line.others ++ appended (flags l) := by
  rw [written_eq, configured, appended_append, List.append_assoc]

/-- A command has no blanks at its ends. -/
theorem trimmed {program : Text} (h : IsProgram program) (arguments : List (Text × Text)) :
    Text.Trimmed (program ++ appended arguments) := by
  refine ⟨fun c hc => ?_, fun c hc => ?_⟩
  · obtain ⟨d, rest, rfl⟩ := List.exists_cons_of_ne_nil h.ne_nil
    cases hc
    exact h.blank _ List.mem_cons_self
  · rw [List.getLast?_append] at hc
    rcases Option.or_eq_some_iff.mp hc with hc | ⟨-, hc⟩
    · exact last_appended _ c hc
    · exact h.blank c (List.mem_of_getLast? hc)

/-- The arguments of a command are ready for the flags to be cut out of it. -/
theorem ready {line : StartCommand} (h : line.Legible)
    (hends : ∀ a ∈ line.arguments, ∀ name, [name, a.1].Sublist flagNames →
      ¬ EndsInFlag name a.2)
    (hfree : ∀ a ∈ line.others, ∀ name ∈ flagNames, FreeBehind name (quoted a.2)) :
    ∀ p ∈ piecesOf line.arguments, Unbroken p.1 ∧ Ready flagNames p := by
  intro p hp
  obtain ⟨a, ha, rfl⟩ := List.mem_map.mp hp
  refine ⟨h.names a ha, ?_⟩
  by_cases hmem : a.1 ∈ flagNames
  · rcases quoted_cases a.2 with heq | ⟨hne, hblank, heq⟩ <;> rw [heq]
    · exact .inQuotes a.1 a.2 hmem (h.values a ha) (hends a ha)
    · exact .bare a.1 a.2 hne (h.values a ha) hblank
  · have hother : a ∈ line.others := List.mem_filter.mpr ⟨ha, decide_eq_true hmem⟩
    exact .free a.1 (quoted a.2) hmem (hfree a hother) fun c => last_quoted

end StartCommand

/-- If setting the flags of a command sets those of its arguments, the values of all others are free
of the flags. -/
theorem freeBehind_of_updatedCommand_written {l : InstallLayout} {line : StartCommand}
    (h : updatedCommand l line.written = (line.configured l).written) :
    ∀ a ∈ line.others, ∀ name ∈ flagNames, FreeBehind name (quoted a.2) := by
  intro a ha name hname
  rw [updatedCommand_eq, line.written_configured] at h
  have hfree : FreeBehind name (line.program ++ appended line.others) :=
    List.append_cancel_right h ▸ ((free_bareCommand line.written name hname).stripped).behind
  obtain ⟨before, after, hsplit⟩ := List.append_of_mem ha
  have hsuffix : quoted a.2 ++ appended after <:+ line.program ++ appended line.others := by
    refine ⟨line.program ++ (appended before ++ .char ' ' :: (dashed a.1 ++ [.char '='])), ?_⟩
    rw [hsplit, appended_append, appended_cons, renderTextFlag_eq]
    simp only [List.append_assoc, List.cons_append, List.nil_append]
  exact (hfree.of_suffix hsuffix).of_append (endsWord_appended after)

/-- A command out of which the flags can be cut loses the arguments that are flags, and keeps the
others. -/
theorem bareCommand_written {line : StartCommand} (h : line.Legible)
    (hends : ∀ a ∈ line.arguments, ∀ name, [name, a.1].Sublist flagNames →
      ¬ EndsInFlag name a.2)
    (hfree : ∀ a ∈ line.others, ∀ name ∈ flagNames, FreeBehind name (quoted a.2)) :
    bareCommand line.written = line.program ++ appended line.others := by
  have hcut := foldl_withoutFlag_rendered (fun _ => plain_of_mem_flagNames) h.program
    (line.ready h hends hfree)
  have hothers : (piecesOf line.arguments).filter (fun p => p.1 ∉ flagNames) =
      piecesOf line.others := List.filter_map
  rw [bareCommand, line.written_eq, appended_eq, hcut, hothers, ← appended_eq]

/-- **Setting the flags of the network plugins acts on the arguments of a command.** The arguments
that are such flags go with their values, whatever those were, the others stay as they are and in
their order, and the flags for the layout come last. It does so exactly if no flag stands behind a
blank in the value of another argument. A value of one of the flags may hold anything but one of
those that are cut out earlier as its last word, with a value of its own. -/
theorem updatedCommand_written (l : InstallLayout) {line : StartCommand} (h : line.Legible)
    (hends : ∀ a ∈ line.arguments, ∀ name, [name, a.1].Sublist flagNames →
      ¬ EndsInFlag name a.2) :
    updatedCommand l line.written = (line.configured l).written ↔
      ∀ a ∈ line.others, ∀ name ∈ flagNames, FreeBehind name (quoted a.2) := by
  refine ⟨freeBehind_of_updatedCommand_written, fun hfree => ?_⟩
  have htrimmed := StartCommand.trimmed h.program line.others
  rw [updatedCommand_eq, bareCommand_written h hends hfree, Text.stripped_of_trimmed htrimmed,
    line.written_configured]

/-- A command with two of the flags, one of them in quotes, and a flag that begins like another. -/
def StartCommand.brief : StartCommand where
  program := text "kubelet.exe"
  arguments := [(text "cni-bin-dir", text "D:\\old dir"), (text "v", text "3"),
    (text "resolv-conf", []), (text "node-labels", text "a b"), (text "network-plugin-mtu", text "9")]

theorem StartCommand.legible_brief : StartCommand.brief.Legible :=
  ⟨⟨by decide, by decide, by decide⟩, by decide, by decide⟩

theorem updatedCommand_written_brief :
    StartCommand.brief.Legible ∧
      (∀ a ∈ StartCommand.brief.arguments, ∀ name, [name, a.1].Sublist flagNames →
        ¬ EndsInFlag name a.2) ∧
      updatedCommand ⟨text "/k"⟩ StartCommand.brief.written =
        (StartCommand.brief.configured ⟨text "/k"⟩).written := by
  have hends : ∀ a ∈ StartCommand.brief.arguments, ∀ name, [name, a.1].Sublist flagNames →
      ¬ EndsInFlag name a.2 := by
    have hall : ∀ a ∈ StartCommand.brief.arguments, ∀ name ∈ flagNames, ¬ EndsInFlag name a.2 := by
      decide
    exact fun a ha name hname => hall a ha name (hname.subset List.mem_cons_self)
  have hclear : ∀ a ∈ StartCommand.brief.others, ∀ name ∈ flagNames, Clear name (quoted a.2) := by
    decide
  refine ⟨StartCommand.legible_brief, hends, ?_⟩
  exact (updatedCommand_written ⟨text "/k"⟩ StartCommand.legible_brief hends).mpr
    fun a ha name hname => (hclear a ha name hname).freeBehind

/-- Not every value of one of the flags goes with it. Here the quoted value ends in a flag that is
cut out earlier, with the closing quote; then the value is taken to end at its first blank, and the
word behind that stays. -/
theorem not_updatedCommand_written :
    ¬ ∀ (l : InstallLayout) (line : StartCommand), line.Legible →
      updatedCommand l line.written = (line.configured l).written := by
  intro h
  have hlegible : StartCommand.Legible
      ⟨text "k", [(text "cni-bin-dir", text "a b --resolv-conf=c")]⟩ :=
    ⟨⟨by decide, by decide, by decide⟩, by decide, by decide⟩
  have hleft : updatedCommand ⟨text "/k"⟩
      (StartCommand.written ⟨text "k", [(text "cni-bin-dir", text "a b --resolv-conf=c")]⟩) =
        text "k b" ++ appended (flags ⟨text "/k"⟩) := by decide +kernel
  have hwritten := hleft.symm.trans (h ⟨text "/k"⟩ _ hlegible)
  rw [StartCommand.written_configured] at hwritten
  exact absurd (List.append_cancel_right hwritten) (by decide)

end NodeBootstrap.Cni
