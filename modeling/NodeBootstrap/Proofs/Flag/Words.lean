import NodeBootstrap.Proofs.Flag.Command

/-!
# Flags cut out of the words of a command

Cutting a flag out works on the text of a command and knows nothing of its words. This module says
what it does to them. No word that is the flag is left, and none comes back when other flags are cut
out later (`Command.words_withoutFlag`). A command without quotes loses the words that are the flag
and keeps all others in their order.

A command with quotes can lose more: a quoted value goes with its flag, blanks and all.
-/

set_option autoImplicit false

namespace NodeBootstrap

namespace Text

/-! ## Words -/

/-- The words of a text: what stands between its blanks. -/
def words (t : Text) : List Text := (t.splitOnP CodePoint.isBlank).filter (!·.isEmpty)

variable {t : Text}

/-- Words end at a blank, whatever stands around it. -/
theorem words_append_blank {c : CodePoint} (hc : c.isBlank = true) (s t : Text) :
    words (s ++ c :: t) = words s ++ words t := by
  rw [words, List.splitOnP_append_cons s t hc, List.filter_append]
  rfl

theorem words_cons_blank {c : CodePoint} (hc : c.isBlank = true) (t : Text) :
    words (c :: t) = words t := words_append_blank hc [] t

/-- A text without blanks is one word. -/
theorem words_of_no_blank (h : ∀ c ∈ t, c.isBlank = false) (hne : t ≠ []) : words t = [t] := by
  rw [words, List.splitOnP_eq_singleton h]
  cases t with
  | nil => exact absurd rfl hne
  | cons c t => rfl

end Text

namespace Command

open Text

variable {name t word behind : Text}

/-- A word in front of a text that ends it. -/
theorem words_append (hword : ∀ c ∈ word, c.isBlank = false) (hne : word ≠ [])
    (hends : endsWord behind = true) : words (word ++ behind) = word :: words behind := by
  have hone := words_of_no_blank hword hne
  cases behind with
  | nil => rw [List.append_nil, hone]; rfl
  | cons c behind =>
    have hc : c.isBlank = true := hends
    rw [words_append_blank hc, hone, words_cons_blank hc, List.singleton_append]

/-- Every text is a word, or nothing, and a text that ends it. -/
theorem exists_word (t : Text) :
    ∃ word behind, t = word ++ behind ∧ (∀ c ∈ word, c.isBlank = false) ∧
      endsWord behind = true := by
  refine ⟨t.takeWhile (!CodePoint.isBlank ·), t.dropWhile (!CodePoint.isBlank ·),
    List.takeWhile_append_dropWhile.symm, fun c hc => ?_, endsWord_dropWhile t⟩
  have hnot := List.all_eq_true.mp List.all_takeWhile c hc
  rwa [Bool.not_eq_true'] at hnot

/-- A text that ends words is empty, or it goes on behind its first blank with another such text or
with a word in front of one. -/
theorem words_induction {motive : (t : Text) → endsWord t = true → Prop} (nil : motive [] rfl)
    (blank : ∀ c t (hc : c.isBlank = true) (hends : endsWord t = true), motive t hends →
      motive (c :: t) hc)
    (word : ∀ c word behind (hc : c.isBlank = true), (∀ d ∈ word, d.isBlank = false) →
      word ≠ [] → ∀ hends : endsWord behind = true, motive behind hends →
        motive (c :: (word ++ behind)) hc)
    (t : Text) (hends : endsWord t = true) : motive t hends := by
  induction hlength : t.length using Nat.strongRecOn generalizing t with
  | ind n ih =>
    cases t with
    | nil => exact nil
    | cons c t =>
      rw [List.length_cons] at hlength
      obtain ⟨w, behind, rfl, hword, hbehind⟩ := exists_word t
      rw [List.length_append] at hlength
      have hrest := ih behind.length (by omega) behind hbehind rfl
      by_cases hne : w = []
      · subst hne
        exact blank c behind hends hbehind hrest
      · exact word c w behind hends hword hne hbehind hrest

/-! ## Words that are a flag -/

/-- A word that is a flag: the flag alone, or with an equals sign and a value. -/
def IsFlag (name word : Text) : Prop := word = dashed name ∨ dashed name ++ [.char '='] <+: word

instance (name word : Text) : Decidable (IsFlag name word) :=
  inferInstanceAs (Decidable (_ ∨ _))

/-- A word is told to be a flag by what stands before its equals sign. -/
theorem isFlag_iff (hname : Unbroken name) (hword : ∀ c ∈ word, c.isBlank = false) :
    IsFlag name word ↔ flagWord word = dashed name := by
  constructor
  · rintro (rfl | ⟨value, rfl⟩)
    · have hwhole := flagWord_dashed_append hname []
      rw [List.append_nil] at hwhole
      exact hwhole.trans (List.append_nil _)
    · have hequals : flagWord (.char '=' :: value) = [] := rfl
      rw [List.append_assoc, List.singleton_append, flagWord_dashed_append hname, hequals,
        List.append_nil]
  · intro h
    rcases exists_of_flagWord h with ⟨value, rfl⟩ | ⟨rest, hends, rfl⟩
    · exact .inr ⟨value, by rw [List.append_assoc]; rfl⟩
    · cases rest with
      | nil => exact .inl (List.append_nil _)
      | cons c rest =>
        have hc : c.isBlank = true := hends
        have hnot := hword c (List.mem_append_right _ List.mem_cons_self)
        exact absurd (hnot.symm.trans hc) Bool.false_ne_true

/-- A command that is free of a flag behind its blanks has no word there that is the flag. -/
theorem FreeBehind.not_isFlag (hname : Unbroken name) (h : FreeBehind name t)
    (hends : endsWord t = true) : ∀ w ∈ words t, ¬ IsFlag name w := by
  induction t, hends using words_induction with
  | nil => exact nofun
  | blank c t hc _ ih =>
    rw [words_cons_blank hc]
    exact ih (h.of_suffix (List.suffix_cons _ _))
  | word c word behind hc hword hne hends ih =>
    rw [words_cons_blank hc, words_append hword hne hends]
    refine List.forall_mem_cons.mpr ⟨fun hflag => ?_,
      ih (h.of_suffix ((List.suffix_append _ _).trans (List.suffix_cons _ _)))⟩
    refine h c (word ++ behind) (List.suffix_refl _) hc ?_
    rw [flagWord_append _ hends]
    exact (isFlag_iff hname hword).mp hflag

/-- A command that is free of a flag has no word that is the flag. -/
theorem Free.not_isFlag (hname : Unbroken name) (h : Free name t) :
    ∀ w ∈ words t, ¬ IsFlag name w := by
  obtain ⟨word, behind, rfl, hword, hends⟩ := exists_word t
  have hrest := (h.behind.of_suffix (List.suffix_append _ _)).not_isFlag hname hends
  by_cases hne : word = []
  · rwa [hne]
  · rw [words_append hword hne hends]
    refine List.forall_mem_cons.mpr ⟨fun hflag => h.start ?_, hrest⟩
    rw [flagWord_append _ hends]
    exact (isFlag_iff hname hword).mp hflag

/-! ## Cutting words out -/

/-- A word without quotes that is a flag is cut out whole. -/
theorem afterFlag?_isFlag (hflag : IsFlag name word) (hword : ∀ c ∈ word, c.isBlank = false)
    (hquote : .char '"' ∉ word) (hends : endsWord behind = true) :
    afterFlag? name (word ++ behind) = some behind := by
  rcases hflag with rfl | ⟨value, rfl⟩
  · exact afterFlag?_alone name hends
  · have hblank : ∀ c ∈ behind.head?, c.isBlank = true := by
      intro c hc
      cases behind with
      | nil => cases hc
      | cons d behind => cases hc; exact hends
    have hhead : (value ++ behind).head? ≠ some (.char '"') := by
      intro heq
      rw [List.head?_append] at heq
      rcases Option.or_eq_some_iff.mp heq with heq | ⟨-, heq⟩
      · exact hquote (List.mem_append_right _ (List.mem_of_mem_head? heq))
      · cases hblank _ heq
    have hvalue : ∀ c ∈ value, (!c.isBlank) = true := fun c hc =>
      congrArg not (hword c (List.mem_append_right _ hc))
    rw [List.append_assoc, List.append_assoc, List.singleton_append, afterFlag?_value,
      afterValue_of_head? hhead, afterBare, List.dropWhile_append_of_pos hvalue]
    exact congrArg some (dropWhile_eq_self fun c hc => congrArg not (hblank c hc))

/-- A word that is no flag is none in front of what ends it. -/
theorem afterFlag?_not_isFlag (hname : Plain name) (hflag : ¬ IsFlag name word)
    (hword : ∀ c ∈ word, c.isBlank = false) (hends : endsWord behind = true) :
    afterFlag? name (word ++ behind) = none := by
  rw [afterFlag?_eq_none hname, flagWord_append _ hends]
  exact mt (isFlag_iff hname.unbroken hword).mpr hflag

theorem endsWord_withoutFlagBehind (name : Text) (hends : endsWord t = true) :
    endsWord (withoutFlagBehind name t) = true := by
  induction t using withoutFlagBehind_induction name with
  | nil => rfl
  | cut _ _ _ _ hbehind ih => exact ih (afterFlag?_spec hbehind).1
  | keep _ _ _ _ => exact hends

/-- One more blank in front of blanks goes with them or stays with them. -/
theorem words_withoutFlagBehind_cons_blank {c : CodePoint} (hname : Plain name)
    (hc : c.isBlank = true) (hends : endsWord t = true) :
    words (withoutFlagBehind name (c :: t)) = words (withoutFlagBehind name t) := by
  cases h : afterFlag? name (t.dropWhile CodePoint.isBlank) with
  | none => rw [withoutFlagBehind_keep fun _ => h, words_cons_blank hc]
  | some behind =>
    cases t with
    | nil =>
      rw [List.dropWhile_nil, afterFlag?_of_endsWord hname rfl] at h
      cases h
    | cons d t =>
      have hd : d.isBlank = true := hends
      rw [withoutFlagBehind_cut hc h]
      rw [List.dropWhile_cons, if_pos hd] at h
      rw [withoutFlagBehind_cut hd h]

/-- Behind a blank a word is looked at as at the start of a command. -/
theorem words_withoutFlagBehind_cons {c : CodePoint} (hc : c.isBlank = true)
    (ht : t.dropWhile CodePoint.isBlank = t) :
    words (withoutFlagBehind name (c :: t)) = words (withoutFlag name t) := by
  cases h : afterFlag? name t with
  | none =>
    have hkeep : afterFlag? name (t.dropWhile CodePoint.isBlank) = none := by rw [ht, h]
    rw [withoutFlagBehind_keep fun _ => hkeep, words_cons_blank hc, withoutFlag, h,
      Option.getD_none]
  | some behind =>
    have hcut : afterFlag? name (t.dropWhile CodePoint.isBlank) = some behind := by rw [ht, h]
    rw [withoutFlagBehind_cut hc hcut, withoutFlag, h, Option.getD_some]

/-- The first word is cut out if it is the flag, and behind it the others are looked at. -/
theorem words_withoutFlag_append (hname : Plain name) (hword : ∀ c ∈ word, c.isBlank = false)
    (hne : word ≠ []) (hquote : .char '"' ∉ word) (hends : endsWord behind = true)
    (hrest : words (withoutFlagBehind name behind) = (words behind).filter (¬ IsFlag name ·)) :
    words (withoutFlag name (word ++ behind)) =
      (words (word ++ behind)).filter (¬ IsFlag name ·) := by
  rw [words_append hword hne hends]
  by_cases hflag : IsFlag name word
  · rw [withoutFlag, afterFlag?_isFlag hflag hword hquote hends, Option.getD_some, hrest,
      List.filter_cons_of_neg (by simpa using hflag)]
  · rw [withoutFlag, afterFlag?_not_isFlag hname hflag hword hends, Option.getD_none,
      withoutFlagBehind_no_blank_append hword,
      words_append hword hne (endsWord_withoutFlagBehind name hends), hrest,
      List.filter_cons_of_pos (by simpa using hflag)]

/-- Without quotes the words behind blanks that are a flag are cut out, and no others. -/
theorem words_withoutFlagBehind (hname : Plain name) (hends : endsWord t = true)
    (hquote : .char '"' ∉ t) :
    words (withoutFlagBehind name t) = (words t).filter (¬ IsFlag name ·) := by
  induction t, hends using words_induction with
  | nil =>
    rw [withoutFlagBehind_nil]
    rfl
  | blank c t hc hends ih =>
    rw [words_withoutFlagBehind_cons_blank hname hc hends, words_cons_blank hc]
    exact ih fun hmem => hquote (List.mem_cons_of_mem c hmem)
  | word c word behind hc hword hne hends ih =>
    have hfirst : (word ++ behind).dropWhile CodePoint.isBlank = word ++ behind := by
      refine dropWhile_eq_self fun d hd => ?_
      obtain ⟨first, rest, rfl⟩ := List.exists_cons_of_ne_nil hne
      cases hd
      exact hword _ List.mem_cons_self
    obtain ⟨hquoteWord, hquoteBehind⟩ : .char '"' ∉ word ∧ .char '"' ∉ behind :=
      not_or.mp fun hmem => hquote (List.mem_cons_of_mem c (List.mem_append.mpr hmem))
    rw [words_withoutFlagBehind_cons hc hfirst, words_cons_blank hc]
    exact words_withoutFlag_append hname hword hne hquoteWord hends (ih hquoteBehind)

/-- A command without quotes loses the words that are the flag, and no others. -/
theorem words_withoutFlag_of_no_quote {command : Text} (hname : Plain name)
    (hquote : .char '"' ∉ command) :
    words (withoutFlag name command) = (words command).filter (¬ IsFlag name ·) := by
  obtain ⟨word, behind, rfl, hword, hends⟩ := exists_word command
  obtain ⟨hquoteWord, hquoteBehind⟩ : .char '"' ∉ word ∧ .char '"' ∉ behind :=
    not_or.mp fun hmem => hquote (List.mem_append.mpr hmem)
  have hrest := words_withoutFlagBehind hname hends hquoteBehind
  by_cases hne : word = []
  · subst hne
    rw [withoutFlag, List.nil_append, afterFlag?_of_endsWord hname hends]
    exact hrest
  · exact words_withoutFlag_append hname hword hne hquoteWord hends hrest

/-- Cutting other flags out of a command that is free of one leaves it free. -/
theorem Free.foldl_withoutFlag {command : Text} (h : Free name command) (later : List Text) :
    Free name (later.foldl (fun command other => Command.withoutFlag other command) command) := by
  induction later generalizing command with
  | nil => exact h
  | cons other later ih => exact ih (h.withoutFlag other)

/-- **Cutting a flag out takes the words that are the flag.** None of them is left, whatever the
command holds and whichever flags are cut out of it later. A command without quotes keeps all other
words in their order, those that only begin like the flag too. -/
theorem words_withoutFlag (hname : Plain name) (command : Text) :
    (∀ later : List Text, ∀ w ∈ words (later.foldl (fun command other => withoutFlag other command)
        (withoutFlag name command)), ¬ IsFlag name w) ∧
      (.char '"' ∉ command →
        words (withoutFlag name command) = (words command).filter (¬ IsFlag name ·)) :=
  ⟨fun later => ((free_withoutFlag hname command).foldl_withoutFlag later).not_isFlag
    hname.unbroken, words_withoutFlag_of_no_quote hname⟩

/-- The flag at both ends of a command, twice in a row and as the beginning of another. -/
theorem words_withoutFlag_brief :
    Plain (text "v") ∧ .char '"' ∉ text "--v k --v=1\t --v --vmodule=2\u3000--v=--v" ∧
      words (withoutFlag (text "v") (text "--v k --v=1\t --v --vmodule=2\u3000--v=--v")) =
        [text "k", text "--vmodule=2"] := by
  have hname : Plain (text "v") := rfl
  have hquote : .char '"' ∉ text "--v k --v=1\t --v --vmodule=2\u3000--v=--v" := by decide
  refine ⟨hname, hquote, ?_⟩
  rw [(words_withoutFlag hname _).2 hquote]
  decide

end Command

end NodeBootstrap
