import NodeBootstrap.Flag.Command
import NodeBootstrap.Proofs.Text.Blank

/-!
# Flags cut out of a command

Whether a text begins with a flag is decided by what it has up to the first blank or equals sign
(`Command.flagWord`). A command is free of a flag if the word is not that of the flag at its start
and behind each of its blanks. Cutting a flag out leaves a command free of it
(`Command.free_withoutFlag`) and brings no other flag about (`Command.Free.withoutFlag`): a piece
that is cut out begins behind no blank and ends in front of one, so words stay what they were.

What a text is free of is not touched, also when another text follows behind a blank
(`Command.withoutFlagBehind_append`).
-/

set_option autoImplicit false

namespace NodeBootstrap.Command

/-! ## Words of flags -/

/-- The beginning of a text up to a blank or an equals sign. -/
def flagWord (t : Text) : Text := t.takeWhile fun c => !c.isBlank && c ≠ .char '='

/-- The word of a flag. -/
def dashed (name : Text) : Text := text "--" ++ name

/-- Whether a code point can stand in the name of a flag that is cut out: it ends no word, and it
neither opens a quoted value nor separates the names of a path. -/
def isPlain (c : CodePoint) : Bool :=
  !c.isBlank && c ≠ .char '=' && c ≠ .char '"' && c ≠ .char '/'

/-- A name of plain code points. -/
def Plain (name : Text) : Prop := name.all isPlain = true

/-- A name that no word of a flag ends in. -/
def Unbroken (name : Text) : Prop := ∀ c ∈ name, c.isBlank = false ∧ c ≠ .char '='

instance (name : Text) : Decidable (Unbroken name) :=
  inferInstanceAs (Decidable (∀ c ∈ name, c.isBlank = false ∧ c ≠ .char '='))

/-- No blank of a text has a flag behind it. -/
def FreeBehind (name t : Text) : Prop :=
  ∀ c v, (c :: v) <:+ t → c.isBlank = true → flagWord v ≠ dashed name

/-- A command that a flag does not occur in. -/
structure Free (name t : Text) : Prop where
  start : flagWord t ≠ dashed name
  behind : FreeBehind name t

variable {name other t rest behind : Text}

theorem not_blank_of_plain {c : CodePoint} (h : isPlain c = true) :
    c.isBlank = false ∧ c ≠ .char '=' ∧ c ≠ .char '"' ∧ c ≠ .char '/' := by
  simp only [isPlain, Bool.and_eq_true, Bool.not_eq_true', decide_eq_true_eq, ne_eq,
    and_assoc] at h
  exact h

theorem plain_dashed (hname : Plain name) : ∀ c ∈ dashed name, isPlain c = true := by
  intro c hc
  rcases List.mem_append.mp hc with hc | hc
  · have hdashes : (text "--").all isPlain = true := by decide
    exact List.all_eq_true.mp hdashes c hc
  · exact List.all_eq_true.mp hname c hc

theorem Plain.unbroken (hname : Plain name) : Unbroken name := by
  intro c hc
  obtain ⟨hblank, hequals, -, -⟩ := not_blank_of_plain (List.all_eq_true.mp hname c hc)
  exact ⟨hblank, hequals⟩

theorem Unbroken.dashed (hname : Unbroken name) :
    ∀ c ∈ dashed name, c.isBlank = false ∧ c ≠ .char '=' := by
  intro c hc
  rcases List.mem_append.mp hc with hc | hc
  · have hdashes : ∀ c ∈ text "--", c.isBlank = false ∧ c ≠ .char '=' := by decide
    exact hdashes c hc
  · exact hname c hc

theorem dashed_ne_nil (name : Text) : dashed name ≠ [] := List.cons_ne_nil _ _

theorem dashed_injective (h : dashed name = dashed other) : name = other :=
  List.append_cancel_left h

theorem endsWord_append_blanks (hends : endsWord t = true) (hrest : Text.AllBlank rest) :
    endsWord (t ++ rest) = true := by
  cases t with
  | cons c t => exact hends
  | nil =>
    cases rest with
    | nil => rfl
    | cons c rest => exact hrest c (List.mem_cons_self ..)

theorem endsWord_of_allBlank (h : Text.AllBlank t) : endsWord t = true :=
  endsWord_append_blanks (t := []) rfl h

theorem flagWord_of_endsWord (hends : endsWord t = true) : flagWord t = [] := by
  cases t with
  | nil => rfl
  | cons c t =>
    have hc : c.isBlank = true := hends
    rw [flagWord, List.takeWhile_cons, hc]
    rfl

/-- A text that ends words does not show in the word that it ends. -/
theorem flagWord_append (t : Text) (hrest : endsWord rest = true) :
    flagWord (t ++ rest) = flagWord t := by
  induction t with
  | nil => exact flagWord_of_endsWord hrest
  | cons c t ih =>
    simp only [flagWord, List.cons_append, List.takeWhile_cons] at ih ⊢
    rw [ih]

theorem flagWord_dashed_append (hname : Unbroken name) (rest : Text) :
    flagWord (dashed name ++ rest) = dashed name ++ flagWord rest := by
  rw [flagWord, List.takeWhile_append_of_pos, flagWord]
  intro c hc
  obtain ⟨hblank, hequals⟩ := hname.dashed c hc
  rw [hblank, Bool.not_false, Bool.true_and]
  exact decide_eq_true hequals

/-- A word that is a flag begins the text as it is: the blanks in front of it are gone. -/
theorem dropWhile_of_flagWord (h : flagWord t = dashed name) :
    t.dropWhile CodePoint.isBlank = t := by
  cases t with
  | nil => rfl
  | cons c t =>
    cases hc : c.isBlank with
    | false => rw [List.dropWhile_cons, hc]; rfl
    | true => exact absurd (h.symm.trans (flagWord_of_endsWord hc)) (dashed_ne_nil name)

/-! ## The flag that a text begins with -/

theorem afterStart?_append (start rest : Text) :
    Text.afterStart? (start ++ rest) start = some rest := by
  induction start with
  | nil => cases rest <;> rfl
  | cons c start ih =>
    rw [List.cons_append, Text.afterStart?, if_pos rfl]
    exact ih

theorem eq_of_afterStart? {start : Text} (h : t.afterStart? start = some rest) :
    t = start ++ rest := by
  induction start generalizing t with
  | nil =>
    have heq : t = rest := by cases t <;> exact Option.some.inj h
    exact heq
  | cons d start ih =>
    cases t with
    | nil => cases h
    | cons c t =>
      rw [Text.afterStart?] at h
      split at h
      next hc => rw [hc, ih h, List.cons_append]
      next => cases h

theorem afterStart?_eq_none {start : Text} : t.afterStart? start = none ↔ ¬ start <+: t := by
  constructor
  · rintro h ⟨rest, rfl⟩
    rw [afterStart?_append] at h
    cases h
  · intro h
    cases hrest : t.afterStart? start with
    | none => rfl
    | some rest => exact absurd ⟨rest, (eq_of_afterStart? hrest).symm⟩ h

theorem afterFlag?_value (name value : Text) :
    afterFlag? name (dashed name ++ .char '=' :: value) = some (afterValue value) := by
  rw [afterFlag?, ← dashed, afterStart?_append]
  rfl

theorem afterFlag?_alone (name : Text) (hends : endsWord rest = true) :
    afterFlag? name (dashed name ++ rest) = some rest := by
  rw [afterFlag?, ← dashed, afterStart?_append]
  split
  next h => exact nomatch h
  next value h =>
    rw [Option.some.inj h] at hends
    exact nomatch hends
  next rest' _ h => rw [← Option.some.inj h, if_pos hends]

/-- The two forms of a flag in front of a text: with a value, or alone. -/
theorem exists_of_afterFlag? (h : afterFlag? name t = some behind) :
    (∃ value, t = dashed name ++ .char '=' :: value ∧ behind = afterValue value) ∨
      (endsWord behind = true ∧ t = dashed name ++ behind) := by
  unfold afterFlag? at h
  split at h
  next => exact nomatch h
  next value hstart => exact .inl ⟨value, eq_of_afterStart? hstart, (Option.some.inj h).symm⟩
  next rest _ hstart =>
    split at h
    next hends =>
      cases h
      exact .inr ⟨hends, eq_of_afterStart? hstart⟩
    next => exact nomatch h

/-- What stands behind the word of a flag: an equals sign, or what ends the word. -/
theorem exists_of_flagWord (h : flagWord t = dashed name) :
    (∃ value, t = dashed name ++ .char '=' :: value) ∨
      ∃ rest, endsWord rest = true ∧ t = dashed name ++ rest := by
  have hsplit := List.takeWhile_append_dropWhile (p := fun c => !c.isBlank && c ≠ .char '=')
    (l := t)
  have hend := List.head?_dropWhile_not (fun c => !c.isBlank && c ≠ .char '=') t
  rw [← flagWord, h] at hsplit
  cases hdrop : t.dropWhile fun c => !c.isBlank && c ≠ .char '=' with
  | nil =>
    rw [hdrop] at hsplit
    exact .inr ⟨[], rfl, hsplit.symm⟩
  | cons c rest =>
    rw [hdrop] at hsplit hend
    have hc : (!c.isBlank && c ≠ .char '=') = false := hend
    cases hblank : c.isBlank with
    | true => exact .inr ⟨c :: rest, hblank, hsplit.symm⟩
    | false =>
      rw [hblank, Bool.not_false, Bool.true_and, decide_eq_false_iff_not, Decidable.not_not] at hc
      exact .inl ⟨rest, hc ▸ hsplit.symm⟩

/-- A text begins with a flag exactly if its word is that of the flag. -/
theorem afterFlag?_eq_none (hname : Plain name) :
    afterFlag? name t = none ↔ flagWord t ≠ dashed name := by
  constructor
  · intro h hword
    rcases exists_of_flagWord hword with ⟨value, rfl⟩ | ⟨rest, hends, rfl⟩
    · rw [afterFlag?_value] at h
      exact nomatch h
    · rw [afterFlag?_alone name hends] at h
      exact nomatch h
  · intro hword
    cases h : afterFlag? name t with
    | none => rfl
    | some behind =>
      refine absurd ?_ hword
      rcases exists_of_afterFlag? h with ⟨value, rfl, -⟩ | ⟨hends, rfl⟩
      · rw [flagWord_dashed_append hname.unbroken, flagWord, List.takeWhile_cons]
        exact List.append_nil _
      · rw [flagWord_dashed_append hname.unbroken, flagWord_of_endsWord hends, List.append_nil]

theorem afterFlag?_of_endsWord (hname : Plain name) (hends : endsWord t = true) :
    afterFlag? name t = none := by
  rw [afterFlag?_eq_none hname, flagWord_of_endsWord hends]
  exact (dashed_ne_nil name).symm

/-! ## Values -/

theorem endsWord_dropWhile (t : Text) :
    endsWord (t.dropWhile (!CodePoint.isBlank ·)) = true := by
  have hhead := List.head?_dropWhile_not (!CodePoint.isBlank ·) t
  cases h : t.dropWhile (!CodePoint.isBlank ·) with
  | nil => rfl
  | cons c rest =>
    rw [h] at hhead
    have hc : (!c.isBlank) = false := hhead
    rwa [Bool.not_eq_false'] at hc

theorem splitOnce_append {separator : CodePoint} {before : Text} (h : separator ∉ before) :
    Text.splitOnce separator (before ++ separator :: behind) = (before, some behind) := by
  induction before with
  | nil => rw [List.nil_append, Text.splitOnce, if_pos rfl]
  | cons c before ih =>
    obtain ⟨hc, hbefore⟩ := not_or.mp (mt List.mem_cons.mpr h)
    rw [List.cons_append, Text.splitOnce, if_neg (Ne.symm hc), ih hbefore]

theorem splitOnce_of_not_mem {separator : CodePoint} (h : separator ∉ t) :
    Text.splitOnce separator t = (t, none) := by
  induction t with
  | nil => rfl
  | cons c t ih =>
    obtain ⟨hc, ht⟩ := not_or.mp (mt List.mem_cons.mpr h)
    rw [Text.splitOnce, if_neg (Ne.symm hc), ih ht]

/-- What follows a value that is not quoted. -/
def afterBare (value : Text) : Text := value.dropWhile (!CodePoint.isBlank ·)

theorem afterValue_of_head? {value : Text} (h : value.head? ≠ some (.char '"')) :
    afterValue value = afterBare value := by
  unfold afterValue
  split
  next => exact absurd rfl h
  next => rfl

theorem afterValue_of_not_mem {body : Text} (h : .char '"' ∉ body) :
    afterValue (.char '"' :: body) = afterBare (.char '"' :: body) := by
  simp only [afterValue, splitOnce_of_not_mem h, afterBare]

theorem afterValue_quoted {before : Text} (h : .char '"' ∉ before) :
    afterValue (.char '"' :: (before ++ .char '"' :: behind)) =
      if endsWord behind then behind
      else afterBare (.char '"' :: (before ++ .char '"' :: behind)) := by
  simp only [afterValue, splitOnce_append h, afterBare]

/-- A value has no quote in front, none behind that, or a quoted text in front. -/
theorem value_cases (value : Text) :
    value.head? ≠ some (.char '"') ∨ (∃ body, .char '"' ∉ body ∧ value = .char '"' :: body) ∨
      ∃ before behind, .char '"' ∉ before ∧
        value = .char '"' :: (before ++ .char '"' :: behind) := by
  cases value with
  | nil => exact .inl nofun
  | cons c body =>
    by_cases hc : c = .char '"'
    · subst hc
      by_cases hbody : .char '"' ∈ body
      · obtain ⟨before, behind, rfl, hbefore⟩ := List.eq_append_cons_of_mem hbody
        exact .inr (.inr ⟨before, behind, hbefore, rfl⟩)
      · exact .inr (.inl ⟨body, hbody, rfl⟩)
    · exact .inl fun h => hc (Option.some.inj h)

/-- What follows a value ends a word. -/
theorem endsWord_afterValue (value : Text) : endsWord (afterValue value) = true := by
  rcases value_cases value with h | ⟨body, h, rfl⟩ | ⟨before, behind, h, rfl⟩
  · rw [afterValue_of_head? h]
    exact endsWord_dropWhile value
  · rw [afterValue_of_not_mem h]
    exact endsWord_dropWhile _
  · rw [afterValue_quoted h]
    split
    next hends => exact hends
    next => exact endsWord_dropWhile _

/-- What follows a value is what the value stands in front of. -/
theorem afterValue_suffix (value : Text) : afterValue value <:+ value := by
  rcases value_cases value with h | ⟨body, h, rfl⟩ | ⟨before, behind, h, rfl⟩
  · rw [afterValue_of_head? h]
    exact List.dropWhile_suffix _
  · rw [afterValue_of_not_mem h]
    exact List.dropWhile_suffix _
  · rw [afterValue_quoted h]
    split
    next =>
      refine ⟨.char '"' :: before ++ [.char '"'], ?_⟩
      rw [List.append_assoc]
      rfl
    next => exact List.dropWhile_suffix _

theorem afterBare_append_blanks (value : Text) (hrest : Text.AllBlank rest) :
    afterBare (value ++ rest) = afterBare value ++ rest := by
  rw [afterBare, List.dropWhile_append]
  split
  next hnil =>
    rw [afterBare, List.isEmpty_iff.mp hnil, List.nil_append]
    apply Text.dropWhile_eq_self
    intro c hc
    rw [hrest c (List.mem_of_mem_head? hc)]
    rfl
  next => rfl

/-- Blanks behind a value stay there. -/
theorem afterValue_append_blanks (value : Text) (hrest : Text.AllBlank rest) :
    afterValue (value ++ rest) = afterValue value ++ rest := by
  have hquote : .char '"' ∉ rest := fun h => nomatch hrest _ h
  rcases value_cases value with h | ⟨body, h, rfl⟩ | ⟨before, behind, h, rfl⟩
  · have hhead : (value ++ rest).head? ≠ some (.char '"') := by
      intro heq
      rw [List.head?_append] at heq
      cases hvalue : value.head? with
      | none =>
        rw [hvalue] at heq
        exact hquote (List.mem_of_mem_head? heq)
      | some c =>
        rw [hvalue] at heq
        exact h (hvalue.trans heq)
    rw [afterValue_of_head? hhead, afterValue_of_head? h, afterBare_append_blanks _ hrest]
  · have hbody : .char '"' ∉ body ++ rest := fun hmem =>
      (List.mem_append.mp hmem).elim h hquote
    rw [List.cons_append, afterValue_of_not_mem hbody, afterValue_of_not_mem h,
      ← List.cons_append, afterBare_append_blanks _ hrest]
  · have happend : (.char '"' :: (before ++ .char '"' :: behind)) ++ rest =
        .char '"' :: (before ++ .char '"' :: (behind ++ rest)) := by
      simp only [List.cons_append, List.append_assoc]
    rw [happend, afterValue_quoted h, afterValue_quoted h, ← happend,
      afterBare_append_blanks _ hrest]
    cases hbehind : endsWord behind with
    | true => rw [endsWord_append_blanks hbehind hrest, if_pos rfl, if_pos rfl]
    | false =>
      have hends : endsWord (behind ++ rest) = false := by
        cases behind with
        | nil => exact nomatch hbehind
        | cons c behind => exact hbehind
      rw [hends, if_neg Bool.false_ne_true, if_neg Bool.false_ne_true]

/-- What follows a flag ends a word, and it is what the text ends in. -/
theorem afterFlag?_spec (h : afterFlag? name t = some behind) :
    endsWord behind = true ∧ behind <:+ t := by
  rcases exists_of_afterFlag? h with ⟨value, rfl, rfl⟩ | ⟨hends, rfl⟩
  · exact ⟨endsWord_afterValue value,
      ((afterValue_suffix value).trans (List.suffix_cons _ _)).trans (List.suffix_append _ _)⟩
  · exact ⟨hends, List.suffix_append _ _⟩

/-- Blanks behind a flag stay there. -/
theorem afterFlag?_append_blanks (hname : Plain name) (hrest : Text.AllBlank rest) :
    afterFlag? name (t ++ rest) = (afterFlag? name t).map (· ++ rest) := by
  by_cases hword : flagWord t = dashed name
  · rcases exists_of_flagWord hword with ⟨value, rfl⟩ | ⟨behind, hends, rfl⟩
    · rw [List.append_assoc, List.cons_append, afterFlag?_value, afterFlag?_value,
        afterValue_append_blanks _ hrest]
      rfl
    · rw [List.append_assoc, afterFlag?_alone name (endsWord_append_blanks hends hrest),
        afterFlag?_alone name hends]
      rfl
  · have hends : endsWord rest = true := endsWord_of_allBlank hrest
    have happend : flagWord (t ++ rest) ≠ dashed name := by
      rwa [flagWord_append t hends]
    rw [(afterFlag?_eq_none hname).mpr hword, (afterFlag?_eq_none hname).mpr happend]
    rfl

/-! ## Cutting behind blanks -/

theorem withoutFlagBehind_nil (name : Text) : withoutFlagBehind name [] = [] := by
  unfold withoutFlagBehind
  rfl

theorem withoutFlagBehind_cut {c : CodePoint} (hc : c.isBlank = true)
    (h : afterFlag? name (rest.dropWhile CodePoint.isBlank) = some behind) :
    withoutFlagBehind name (c :: rest) = withoutFlagBehind name behind := by
  have hcut : (if c.isBlank then afterFlag? name (rest.dropWhile CodePoint.isBlank) else none) =
      some behind := by rw [if_pos hc, h]
  conv => lhs; unfold withoutFlagBehind
  split
  next behind' h' => rw [Option.some.inj (h'.symm.trans hcut)]
  next h' => exact absurd (h'.symm.trans hcut) (Option.some_ne_none behind).symm

theorem withoutFlagBehind_keep {c : CodePoint}
    (h : c.isBlank = true → afterFlag? name (rest.dropWhile CodePoint.isBlank) = none) :
    withoutFlagBehind name (c :: rest) = c :: withoutFlagBehind name rest := by
  have hkeep : (if c.isBlank then afterFlag? name (rest.dropWhile CodePoint.isBlank) else none) =
      none := by
    split
    next hc => exact h hc
    next => rfl
  conv => lhs; unfold withoutFlagBehind
  split
  next behind' h' => exact absurd (h'.symm.trans hkeep) (Option.some_ne_none behind')
  next => rfl

/-- A text is empty, or it begins with an occurrence behind blanks, or with a code point that is
kept: what holds of the three holds of every text and of what is left of it. -/
theorem withoutFlagBehind_induction (name : Text) {motive : Text → Text → Prop}
    (nil : motive [] [])
    (cut : ∀ c rest behind, c.isBlank = true →
      afterFlag? name (rest.dropWhile CodePoint.isBlank) = some behind →
        motive behind (withoutFlagBehind name behind) →
          motive (c :: rest) (withoutFlagBehind name behind))
    (keep : ∀ c rest, (c.isBlank = true →
        afterFlag? name (rest.dropWhile CodePoint.isBlank) = none) →
      motive rest (withoutFlagBehind name rest) →
        motive (c :: rest) (c :: withoutFlagBehind name rest))
    (t : Text) : motive t (withoutFlagBehind name t) := by
  fun_induction withoutFlagBehind name t with
  | case1 => exact nil
  | case2 c rest behind h ih =>
    obtain ⟨hc, hbehind⟩ := Option.ite_none_right_eq_some.mp h
    exact cut c rest behind hc hbehind ih
  | case3 c rest h ih =>
    refine keep c rest (fun hc => ?_) ih
    rw [dif_pos hc] at h
    exact h

/-- The word that a text begins with is kept. -/
theorem flagWord_withoutFlagBehind (name t : Text) :
    flagWord (withoutFlagBehind name t) = flagWord t := by
  induction t using withoutFlagBehind_induction name with
  | nil => rfl
  | cut c rest behind hc hbehind ih =>
    have hends : endsWord (c :: rest) = true := hc
    rw [ih, flagWord_of_endsWord (afterFlag?_spec hbehind).1, flagWord_of_endsWord hends]
  | keep c rest _ ih =>
    simp only [flagWord, List.takeWhile_cons] at ih ⊢
    rw [ih]

/-! ## Commands free of a flag -/

theorem freeBehind_nil (name : Text) : FreeBehind name [] := by
  intro c v hsuffix
  exact nomatch List.suffix_nil.mp hsuffix

theorem FreeBehind.cons {c : CodePoint} (hc : c.isBlank = true → flagWord t ≠ dashed name)
    (ht : FreeBehind name t) : FreeBehind name (c :: t) := by
  intro d v hsuffix hd
  rcases List.suffix_cons_iff.mp hsuffix with heq | hsuffix
  · obtain ⟨rfl, rfl⟩ := List.cons.inj heq
    exact hc hd
  · exact ht d v hsuffix hd

theorem FreeBehind.of_suffix (h : FreeBehind name t) (hrest : rest <:+ t) :
    FreeBehind name rest :=
  fun c v hsuffix hc => h c v (hsuffix.trans hrest) hc

/-- No flag begins behind the blanks that a text begins with. -/
theorem FreeBehind.dropWhile {c : CodePoint} (h : FreeBehind name (c :: t))
    (hc : c.isBlank = true) : flagWord (t.dropWhile CodePoint.isBlank) ≠ dashed name := by
  induction t generalizing c with
  | nil => exact (dashed_ne_nil name).symm
  | cons d t ih =>
    rw [List.dropWhile_cons]
    split
    next hd => exact ih (h.of_suffix (List.suffix_cons _ _)) hd
    next => exact h c (d :: t) (List.suffix_refl _) hc

/-- A text and one behind it that begins with a blank are free together. -/
theorem FreeBehind.append (ht : FreeBehind name t) (hrest : FreeBehind name rest)
    (hends : endsWord rest = true) : FreeBehind name (t ++ rest) := by
  induction t with
  | nil => exact hrest
  | cons c t ih =>
    show FreeBehind name (c :: (t ++ rest))
    refine FreeBehind.cons (fun hc => ?_) (ih (ht.of_suffix (List.suffix_cons _ _)))
    rw [flagWord_append t hends]
    exact ht c t (List.suffix_refl _) hc

/-- Something in front without blanks brings no flags about. -/
theorem FreeBehind.of_no_blank_append {front : Text} (hfront : ∀ c ∈ front, c.isBlank = false)
    (ht : FreeBehind name t) : FreeBehind name (front ++ t) := by
  induction front with
  | nil => exact ht
  | cons c front ih =>
    refine FreeBehind.cons (fun hc => ?_) (ih fun d hd => hfront d (List.mem_cons_of_mem c hd))
    exact absurd ((hfront c (List.mem_cons_self ..)).symm.trans hc) Bool.false_ne_true

/-- A text that blanks stand behind is free by itself. -/
theorem FreeBehind.of_append (h : FreeBehind name (t ++ rest)) (hends : endsWord rest = true) :
    FreeBehind name t := by
  induction t with
  | nil => exact freeBehind_nil name
  | cons c t ih =>
    refine FreeBehind.cons (fun hc => ?_) (ih (h.of_suffix (List.suffix_cons _ _)))
    rw [← flagWord_append t hends]
    exact h c (t ++ rest) (List.suffix_refl _) hc

/-- Blanks at the ends are no part of a flag. -/
theorem Free.stripped (h : Free name t) : Free name (Text.stripped t) := by
  obtain ⟨lead, trail, hlead, htrail, ht⟩ := Text.exists_stripped t
  have hends : endsWord trail = true := endsWord_of_allBlank htrail
  have hbehind : FreeBehind name (Text.stripped t ++ trail) :=
    h.behind.of_suffix ⟨lead, ht.symm⟩
  refine ⟨?_, hbehind.of_append hends⟩
  rw [← flagWord_append _ hends]
  rcases List.eq_nil_or_concat lead with rfl | ⟨init, c, hinit⟩
  · rw [← List.nil_append (Text.stripped t ++ trail), ← ht]
    exact h.start
  · -- the last blank in front stands in the text itself
    rw [List.concat_eq_append] at hinit
    subst hinit
    have hc : c.isBlank = true := hlead c (List.mem_append_right _ (List.mem_singleton.mpr rfl))
    exact h.behind c _ ⟨init, (ht.trans (List.append_assoc _ _ _)).symm⟩ hc

/-! ## Cutting leaves commands free -/

/-- A text that a flag was cut out of behind blanks has none left there. -/
theorem freeBehind_withoutFlagBehind (hname : Plain name) (t : Text) :
    FreeBehind name (withoutFlagBehind name t) := by
  induction t using withoutFlagBehind_induction name with
  | nil => exact freeBehind_nil name
  | cut _ _ _ _ _ ih => exact ih
  | keep c rest hkeep ih =>
    refine FreeBehind.cons (fun hc hword => ?_) ih
    rw [flagWord_withoutFlagBehind] at hword
    have hnone := hkeep hc
    rw [dropWhile_of_flagWord hword] at hnone
    exact (afterFlag?_eq_none hname).mp hnone hword

/-- Cutting one flag out behind blanks brings no other about. -/
theorem FreeBehind.withoutFlagBehind (h : FreeBehind other t) (name : Text) :
    FreeBehind other (withoutFlagBehind name t) := by
  induction t using withoutFlagBehind_induction name with
  | nil => exact h
  | cut c rest behind _ hbehind ih =>
    have hsuffix : behind <:+ c :: rest :=
      ((afterFlag?_spec hbehind).2.trans (List.dropWhile_suffix _)).trans (List.suffix_cons _ _)
    exact ih (h.of_suffix hsuffix)
  | keep c rest _ ih =>
    refine FreeBehind.cons (fun hc => ?_) (ih (h.of_suffix (List.suffix_cons _ _)))
    rw [flagWord_withoutFlagBehind]
    exact h c rest (List.suffix_refl _) hc

theorem flagWord_behind_ne (h : afterFlag? name t = some behind) :
    flagWord behind ≠ dashed other := by
  rw [flagWord_of_endsWord (afterFlag?_spec h).1]
  exact (dashed_ne_nil other).symm

/-- A command that a flag was cut out of is free of it. -/
theorem free_withoutFlag (hname : Plain name) (command : Text) :
    Free name (withoutFlag name command) := by
  refine ⟨?_, freeBehind_withoutFlagBehind hname _⟩
  rw [withoutFlag, flagWord_withoutFlagBehind]
  cases h : afterFlag? name command with
  | none => exact (afterFlag?_eq_none hname).mp h
  | some behind => exact flagWord_behind_ne h

/-- Cutting one flag out brings no other about. -/
theorem Free.withoutFlag {command : Text} (hother : Free other command) (name : Text) :
    Free other (withoutFlag name command) := by
  unfold Command.withoutFlag
  cases h : afterFlag? name command with
  | none =>
    refine ⟨?_, hother.behind.withoutFlagBehind name⟩
    rw [flagWord_withoutFlagBehind]
    exact hother.start
  | some behind =>
    refine ⟨?_, (hother.behind.of_suffix (afterFlag?_spec h).2).withoutFlagBehind name⟩
    rw [flagWord_withoutFlagBehind]
    exact flagWord_behind_ne h

/-- Cutting a flag out adds nothing. -/
theorem withoutFlagBehind_sublist (name t : Text) : (withoutFlagBehind name t).Sublist t := by
  induction t using withoutFlagBehind_induction name with
  | nil => exact .slnil
  | cut c rest behind _ hbehind ih =>
    have hsuffix : behind <:+ rest := (afterFlag?_spec hbehind).2.trans (List.dropWhile_suffix _)
    exact (ih.trans hsuffix.sublist).cons c
  | keep c rest _ ih => exact ih.cons_cons c

theorem withoutFlag_sublist (name command : Text) : (withoutFlag name command).Sublist command := by
  refine (withoutFlagBehind_sublist name _).trans ?_
  cases h : afterFlag? name command with
  | none => exact List.Sublist.refl command
  | some behind => exact (afterFlag?_spec h).2.sublist

/-! ## What cutting does not touch -/

/-- A text without an occurrence behind blanks stays. -/
theorem withoutFlagBehind_of_freeBehind (hname : Plain name) (h : FreeBehind name t) :
    withoutFlagBehind name t = t := by
  induction t with
  | nil => exact withoutFlagBehind_nil name
  | cons c t ih =>
    rw [withoutFlagBehind_keep fun hc => (afterFlag?_eq_none hname).mpr (h.dropWhile hc),
      ih (h.of_suffix (List.suffix_cons _ _))]

/-- A text without blanks stays, whatever is cut out behind it. -/
theorem withoutFlagBehind_no_blank_append {front : Text} (hfront : ∀ c ∈ front, c.isBlank = false)
    (name t : Text) : withoutFlagBehind name (front ++ t) = front ++ withoutFlagBehind name t := by
  induction front with
  | nil => rfl
  | cons c front ih =>
    obtain ⟨hc, hfront⟩ := List.forall_mem_cons.mp hfront
    rw [List.cons_append, withoutFlagBehind_keep fun hblank => absurd (hc.symm.trans hblank)
      Bool.false_ne_true, ih hfront, List.cons_append]

/-- A free text that does not end in a blank stays, whatever is cut out behind it. -/
theorem withoutFlagBehind_append (hname : Plain name) (h : FreeBehind name t)
    (hlast : ∀ c, t.getLast? = some c → c.isBlank = false) (hends : endsWord rest = true) :
    withoutFlagBehind name (t ++ rest) = t ++ withoutFlagBehind name rest := by
  induction t with
  | nil => rfl
  | cons c t ih =>
    have hlast' : ∀ d, t.getLast? = some d → d.isBlank = false := by
      intro d hd
      refine hlast d ?_
      cases t with
      | nil => exact nomatch hd
      | cons _ _ => rw [List.getLast?_cons_cons]; exact hd
    have hkeep : c.isBlank = true →
        afterFlag? name ((t ++ rest).dropWhile CodePoint.isBlank) = none := by
      intro hc
      -- the blank is not the last code point, so something of the text is behind the blanks
      have hne : t ≠ [] := by
        rintro rfl
        exact Bool.false_ne_true ((hlast c rfl).symm.trans hc)
      have hsome := Text.dropWhile_ne_nil hlast' hne
      rw [List.dropWhile_append, if_neg (mt List.isEmpty_iff.mp hsome), afterFlag?_eq_none hname,
        flagWord_append _ hends]
      exact h.dropWhile hc
    rw [List.cons_append, withoutFlagBehind_keep hkeep,
      ih (h.of_suffix (List.suffix_cons _ _)) hlast', List.cons_append]

/-! ## Blanks around a command -/

/-- Blanks behind a text stay behind what is left of it. -/
theorem withoutFlagBehind_append_blanks (hname : Plain name) (hrest : Text.AllBlank rest)
    (t : Text) : withoutFlagBehind name (t ++ rest) = withoutFlagBehind name t ++ rest := by
  induction t using withoutFlagBehind_induction name with
  | nil =>
    refine withoutFlagBehind_of_freeBehind hname ?_
    intro c v hsuffix _
    have hv : Text.AllBlank v := fun d hd =>
      hrest d (hsuffix.subset (List.mem_cons_of_mem c hd))
    rw [flagWord_of_endsWord (endsWord_of_allBlank hv)]
    exact (dashed_ne_nil name).symm
  | cut c t behind hc hbehind ih =>
    have hne : t.dropWhile CodePoint.isBlank ≠ [] := by
      intro hnil
      rw [hnil, afterFlag?_of_endsWord hname rfl] at hbehind
      exact nomatch hbehind
    have hcut : afterFlag? name ((t ++ rest).dropWhile CodePoint.isBlank) =
        some (behind ++ rest) := by
      rw [List.dropWhile_append, if_neg (mt List.isEmpty_iff.mp hne),
        afterFlag?_append_blanks hname hrest, hbehind]
      rfl
    rw [List.cons_append, withoutFlagBehind_cut hc hcut, ih]
  | keep c t hkeep ih =>
    have hkeep' : c.isBlank = true →
        afterFlag? name ((t ++ rest).dropWhile CodePoint.isBlank) = none := by
      intro hc
      rw [List.dropWhile_append]
      split
      next =>
        rw [Text.dropWhile_of_allBlank hrest]
        exact afterFlag?_of_endsWord hname rfl
      next => rw [afterFlag?_append_blanks hname hrest, hkeep hc]; rfl
    rw [List.cons_append, withoutFlagBehind_keep hkeep', ih, List.cons_append]

/-- Blanks in front of a text that begins with no flag stay in front of what is left of it. -/
theorem withoutFlagBehind_blanks_append (hname : Plain name) (hrest : Text.AllBlank rest)
    (hword : flagWord (t.dropWhile CodePoint.isBlank) ≠ dashed name) :
    withoutFlagBehind name (rest ++ t) = rest ++ withoutFlagBehind name t := by
  induction rest with
  | nil => rfl
  | cons c rest ih =>
    have hrest' : Text.AllBlank rest := fun d hd => hrest d (List.mem_cons_of_mem c hd)
    have hkeep : c.isBlank = true →
        afterFlag? name ((rest ++ t).dropWhile CodePoint.isBlank) = none := by
      intro _
      rw [List.dropWhile_append_of_pos hrest']
      exact (afterFlag?_eq_none hname).mpr hword
    rw [List.cons_append, withoutFlagBehind_keep hkeep, ih hrest', List.cons_append]

theorem withoutFlag_append_blanks (hname : Plain name) (hrest : Text.AllBlank rest)
    (command : Text) : withoutFlag name (command ++ rest) = withoutFlag name command ++ rest := by
  rw [withoutFlag, withoutFlag, afterFlag?_append_blanks hname hrest]
  cases afterFlag? name command with
  | none => exact withoutFlagBehind_append_blanks hname hrest command
  | some behind => exact withoutFlagBehind_append_blanks hname hrest behind

/-- A flag that blanks stand in front of is cut out with them. -/
theorem stripped_withoutFlag_blanks_append {command : Text} (hname : Plain name)
    (hrest : Text.AllBlank rest) (hcommand : Text.Trimmed command) :
    Text.stripped (withoutFlag name (rest ++ command)) =
      Text.stripped (withoutFlag name command) := by
  cases rest with
  | nil => rfl
  | cons c rest =>
    have hc : c.isBlank = true := hrest c (List.mem_cons_self ..)
    have hends : endsWord (c :: rest ++ command) = true := hc
    have hdrop : command.dropWhile CodePoint.isBlank = command :=
      Text.dropWhile_eq_self hcommand.head
    rw [withoutFlag, afterFlag?_of_endsWord hname hends, withoutFlag]
    cases h : afterFlag? name command with
    | none =>
      have hword : flagWord (command.dropWhile CodePoint.isBlank) ≠ dashed name := by
        rw [hdrop]
        exact (afterFlag?_eq_none hname).mp h
      rw [Option.getD_none, withoutFlagBehind_blanks_append hname hrest hword]
      exact Text.stripped_blanks_append hrest
    | some behind =>
      have hcut :
          afterFlag? name ((rest ++ command).dropWhile CodePoint.isBlank) = some behind := by
        rw [List.dropWhile_append_of_pos fun d hd => hrest d (List.mem_cons_of_mem c hd), hdrop, h]
      rw [Option.getD_none, List.cons_append, withoutFlagBehind_cut hc hcut, Option.getD_some]

/-- Blanks at the ends of a command do not change what is left of it but for blanks at its ends. -/
theorem stripped_withoutFlag_stripped (hname : Plain name) (command : Text) :
    Text.stripped (withoutFlag name (Text.stripped command)) =
      Text.stripped (withoutFlag name command) := by
  obtain ⟨lead, trail, hlead, htrail, hcommand⟩ := Text.exists_stripped command
  calc Text.stripped (withoutFlag name (Text.stripped command))
      = Text.stripped (withoutFlag name (lead ++ Text.stripped command)) :=
        (stripped_withoutFlag_blanks_append hname hlead (Text.trimmed_stripped command)).symm
    _ = Text.stripped (withoutFlag name (lead ++ Text.stripped command ++ trail)) := by
        rw [withoutFlag_append_blanks hname htrail, Text.stripped_append_blanks htrail]
    _ = Text.stripped (withoutFlag name command) := by
        rw [List.append_assoc, ← hcommand]

end NodeBootstrap.Command
