import NodeBootstrap.Node.Cni
import NodeBootstrap.Proofs.Flag.Command
import NodeBootstrap.Proofs.Path

/-!
# The flags of the network plugins in a start command

Setting the flags cuts the earlier ones out and puts new ones behind the command. The new ones are
rendered so that they are cut out whole the next time, provided the install directory has no quote
and no blank with one of the flags behind it (`Cni.Quotable`). What is left of a command is free of
the flags, so nothing in it takes part in a later cut. Hence the last directory that is set counts,
whatever was set before (`Cni.updatedCommand_updatedCommand`).
-/

set_option autoImplicit false

namespace NodeBootstrap.Cni

open Command

/-! ## Values that are cut out whole -/

/-- No blank of a value has the dashes and the name of a flag behind it. -/
def Clear (name value : Text) : Prop :=
  ∀ c v, (c :: v) <:+ value → c.isBlank = true → ¬ dashed name <+: v

/-- A path whose flags are cut out whole: it has no quote, and no flag behind a blank. -/
structure Quotable (path : Text) : Prop where
  quote : .char '"' ∉ path
  clear : ∀ name ∈ flagNames, Clear name path

variable {name other value t : Text}

/-- A suffix that begins with something that the second part does not have ends in that part. -/
theorem exists_of_suffix_append {c : CodePoint} {u v w : Text} (h : (c :: v) <:+ u ++ w)
    (hc : c ∉ w) : ∃ v', v = v' ++ w ∧ (c :: v') <:+ u := by
  obtain ⟨front, hfront⟩ := h
  rcases List.suffix_or_suffix_of_suffix ⟨front, hfront⟩ (List.suffix_append u w) with hw | hw
  · exact absurd (hw.subset (List.mem_cons_self ..)) hc
  · obtain ⟨x, hx⟩ := hw
    cases x with
    | nil =>
      rw [List.nil_append] at hx
      exact absurd (hx ▸ List.mem_cons_self ..) hc
    | cons d v' =>
      obtain ⟨rfl, rfl⟩ := List.cons.inj hx
      have hwhole : (front ++ d :: v') ++ w = u ++ w := by
        rw [List.append_assoc]
        exact hfront
      exact ⟨v', rfl, front, List.append_cancel_right hwhole⟩

/-- A beginning that the second part cannot go on with lies in the first. -/
theorem prefix_of_prefix_append {u v w : Text} (h : u <+: v ++ w)
    (hw : ∀ c, w.head? = some c → c ∉ u) : u <+: v := by
  rcases List.prefix_or_prefix_of_prefix h (List.prefix_append v w) with huv | ⟨x, rfl⟩
  · exact huv
  · cases x with
    | nil => exact (List.append_nil v).symm ▸ List.prefix_refl v
    | cons c x =>
      obtain ⟨y, hy⟩ := h
      rw [List.append_assoc] at hy
      have hhead : w.head? = some c :=
        (congrArg List.head? (List.append_cancel_left hy)).symm
      exact absurd (List.mem_append_right v (List.mem_cons_self ..)) (hw c hhead)

theorem Clear.append {w : Text} (h : Clear name value) (hblank : ∀ c ∈ w, c.isBlank = false)
    (hhead : ∀ c, w.head? = some c → c ∉ dashed name) : Clear name (value ++ w) := by
  intro c v hsuffix hc hdashed
  have hmem : c ∉ w := fun hmem => Bool.false_ne_true ((hblank c hmem).symm.trans hc)
  obtain ⟨v', rfl, hsuffix'⟩ := exists_of_suffix_append hsuffix hmem
  exact h c v' hsuffix' hc (prefix_of_prefix_append hdashed hhead)

theorem Clear.front {u : Text} (h : Clear name value) (hu : u <+: value) : Clear name u := by
  obtain ⟨w, rfl⟩ := hu
  intro c v hsuffix hc hdashed
  obtain ⟨front, rfl⟩ := hsuffix
  exact h c (v ++ w) ⟨front, by rw [List.append_assoc]; rfl⟩ hc
    (hdashed.trans (List.prefix_append v w))

theorem clear_of_no_blank (h : ∀ c ∈ value, c.isBlank = false) : Clear name value :=
  fun c _ hsuffix hc =>
    absurd (h c (hsuffix.subset (List.mem_cons_self ..))) (Bool.not_eq_false _ ▸ hc)

theorem clear_cons {c : CodePoint} {v : Text} :
    Clear name (c :: v) ↔ (c.isBlank = true → ¬ dashed name <+: v) ∧ Clear name v := by
  constructor
  · intro h
    exact ⟨h c v (List.suffix_refl _), fun d w hsuffix =>
      h d w (hsuffix.trans (List.suffix_cons _ _))⟩
  · rintro ⟨hc, hv⟩ d w hsuffix
    rcases List.suffix_cons_iff.mp hsuffix with heq | hsuffix
    · obtain ⟨rfl, rfl⟩ := List.cons.inj heq
      exact hc
    · exact hv d w hsuffix

instance decidableClear (name : Text) : (value : Text) → Decidable (Clear name value)
  | [] => isTrue (clear_of_no_blank nofun)
  | _ :: v => @decidable_of_iff _ _ clear_cons.symm
    (@instDecidableAnd _ _ _ (decidableClear name v))

instance (path : Text) : Decidable (Quotable path) :=
  decidable_of_iff (.char '"' ∉ path ∧ ∀ name ∈ flagNames, Clear name path)
    ⟨fun h => ⟨h.1, h.2⟩, fun h => ⟨h.quote, h.clear⟩⟩

theorem not_mem_dashed {c : CodePoint} (hname : Plain name) (hc : isPlain c = false) :
    c ∉ dashed name :=
  fun hmem => Bool.false_ne_true (hc.symm.trans (plain_dashed hname c hmem))

/-- The names of the flags can be told in a command. -/
theorem plain_of_mem_flagNames (h : name ∈ flagNames) : Plain name := by
  have hall : ∀ name ∈ flagNames, name.all isPlain = true := by decide
  exact hall name h

theorem quotable_of_no_blank (hquote : .char '"' ∉ value)
    (hblank : ∀ c ∈ value, c.isBlank = false) : Quotable value :=
  ⟨hquote, fun _ _ => clear_of_no_blank hblank⟩

/-- Below a directory that can be quoted everything without quotes and blanks can. -/
theorem Quotable.join {directory path : Text} (h : Quotable directory)
    (hpath : Path.isAbsolute path = false) (hquote : .char '"' ∉ path)
    (hblank : ∀ c ∈ path, c.isBlank = false) : Quotable (Path.join directory path) := by
  rcases Path.join_cases directory hpath with ⟨-, hjoin⟩ | ⟨front, hfront, -, -, hjoin⟩
  · rw [hjoin]
    exact quotable_of_no_blank hquote hblank
  · rw [hjoin]
    constructor
    · intro hmem
      rcases List.mem_append.mp hmem with hmem | hmem
      · exact h.quote (hfront.subset hmem)
      · rcases List.mem_cons.mp hmem with heq | hmem
        · exact nomatch heq
        · exact hquote hmem
    · intro name hname
      refine Clear.append ((h.clear name hname).front hfront) ?_ ?_
      · intro c hc
        rcases List.mem_cons.mp hc with rfl | hc
        · rfl
        · exact hblank c hc
      · intro c hc
        cases hc
        exact not_mem_dashed (plain_of_mem_flagNames hname) rfl

/-! ## One flag behind a command -/

/-- Flags as they are put behind a command, each with a space in front. -/
def appended (flags : List (Text × Text)) : Text :=
  flags.flatMap fun f => text " " ++ renderTextFlag f.1 f.2

theorem appended_cons (f : Text × Text) (flags : List (Text × Text)) :
    appended (f :: flags) = .char ' ' :: (renderTextFlag f.1 f.2 ++ appended flags) := by
  rw [appended, List.flatMap_cons]
  rfl

theorem endsWord_appended (flags : List (Text × Text)) : endsWord (appended flags) = true := by
  cases flags <;> rfl

/-- A value as it stands in a command. -/
def quoted (value : Text) : Text :=
  if value.isEmpty || value.any CodePoint.isBlank then .char '"' :: (value ++ [.char '"']) else value

theorem renderTextFlag_eq (name value : Text) :
    renderTextFlag name value = dashed name ++ .char '=' :: quoted value := by
  rw [renderTextFlag, quoted]
  split <;> simp only [dashed, List.append_assoc] <;> rfl

/-- A value stands in quotes, or it is as it is, with neither blanks nor an end. -/
theorem quoted_cases (value : Text) :
    quoted value = .char '"' :: (value ++ [.char '"']) ∨
      (value ≠ [] ∧ (∀ c ∈ value, c.isBlank = false) ∧ quoted value = value) := by
  rw [quoted]
  split
  next => exact .inl rfl
  next h =>
    rw [Bool.or_eq_true, not_or, List.isEmpty_iff, List.any_eq_true] at h
    exact .inr ⟨h.1, fun c hc => Bool.eq_false_iff.mpr fun hblank => h.2 ⟨c, hc, hblank⟩, rfl⟩

/-- What stands behind an equals sign and is cut out whole: a text in quotes, or one with neither
blanks nor an end. -/
inductive Whole : Text → Prop
  | inQuotes (value : Text) (hquote : .char '"' ∉ value) : Whole (.char '"' :: (value ++ [.char '"']))
  | bare (value : Text) (hne : value ≠ []) (hquote : .char '"' ∉ value)
      (hblank : ∀ c ∈ value, c.isBlank = false) : Whole value

theorem whole_quoted (hquote : .char '"' ∉ value) : Whole (quoted value) := by
  rcases quoted_cases value with h | ⟨hne, hblank, h⟩ <;> rw [h]
  · exact .inQuotes value hquote
  · exact .bare value hne hquote hblank

/-- A value ends where its text ends, if a word ends there. -/
theorem Whole.afterValue (h : Whole value) {rest : Text} (hrest : endsWord rest = true) :
    afterValue (value ++ rest) = rest := by
  cases h with
  | inQuotes value hquote =>
    rw [List.cons_append, List.append_assoc, List.singleton_append, afterValue_quoted hquote,
      if_pos hrest]
  | bare _ hne hquote hblank =>
    have hhead : (value ++ rest).head? ≠ some (.char '"') := by
      cases value with
      | nil => exact absurd rfl hne
      | cons c value =>
        intro heq
        exact hquote (Option.some.inj heq ▸ List.mem_cons_self ..)
    rw [afterValue_of_head? hhead, afterBare, List.dropWhile_append_of_pos]
    · refine Text.dropWhile_eq_self fun c hc => ?_
      cases rest with
      | nil => cases hc
      | cons d rest =>
        cases hc
        have hc : c.isBlank = true := hrest
        rw [hc]
        rfl
    · intro c hc
      rw [hblank c hc]
      rfl

/-- A rendered flag is cut out whole. -/
theorem afterFlag?_renderTextFlag (name : Text) {rest : Text} (hquote : .char '"' ∉ value)
    (hrest : endsWord rest = true) :
    afterFlag? name (renderTextFlag name value ++ rest) = some rest := by
  rw [renderTextFlag_eq, List.append_assoc, List.cons_append, afterFlag?_value,
    (whole_quoted hquote).afterValue hrest]

theorem flagWord_renderTextFlag (hname : Plain name) (value : Text) :
    flagWord (renderTextFlag name value) = dashed name := by
  have hequals : ∀ rest, flagWord (.char '=' :: rest) = [] := fun _ => rfl
  rw [renderTextFlag_eq, flagWord_dashed_append hname.unbroken, hequals, List.append_nil]

theorem Clear.freeBehind (h : Clear name value) : FreeBehind name value :=
  fun c v hsuffix hc hword => h c v hsuffix hc (hword ▸ List.takeWhile_prefix _)

/-- A rendered flag is free of every other one. -/
theorem freeBehind_renderTextFlag (hname : Plain name) (hother : Plain other) (hne : other ≠ name)
    (hclear : Clear name value) : FreeBehind name (.char ' ' :: renderTextFlag other value) := by
  refine FreeBehind.cons (fun _ => ?_) ?_
  · rw [flagWord_renderTextFlag hother]
    intro heq
    exact hne (dashed_injective heq)
  have hdashed : ∀ c ∈ dashed other, c.isBlank = false := fun c hc =>
    (not_blank_of_plain (plain_dashed hother c hc)).1
  rw [renderTextFlag_eq]
  refine FreeBehind.of_no_blank_append hdashed (FreeBehind.cons nofun ?_)
  rcases quoted_cases value with h | ⟨-, -, h⟩ <;> rw [h]
  · refine FreeBehind.cons nofun (hclear.append ?_ ?_).freeBehind
    · intro c hc
      rw [List.mem_singleton.mp hc]
      rfl
    · intro c hc
      cases hc
      exact not_mem_dashed hname rfl
  · exact hclear.freeBehind

/-! ## All flags behind a command -/

theorem freeBehind_appended (hname : Plain name) {flags : List (Text × Text)}
    (h : ∀ f ∈ flags, Plain f.1 ∧ f.1 ≠ name ∧ Clear name f.2) :
    FreeBehind name (appended flags) := by
  induction flags with
  | nil => exact freeBehind_nil name
  | cons f flags ih =>
    obtain ⟨⟨hf, hne, hclear⟩, hflags⟩ := List.forall_mem_cons.mp h
    rw [appended_cons]
    exact (freeBehind_renderTextFlag hname hf hne hclear).append (ih hflags)
      (endsWord_appended flags)

/-- The first flag behind a command that is free of it is cut out, and nothing else. -/
theorem withoutFlag_appended {f : Text × Text} {flags : List (Text × Text)} (hname : Plain f.1)
    (hquote : .char '"' ∉ f.2) (ht : Free f.1 t)
    (hlast : ∀ c, t.getLast? = some c → c.isBlank = false)
    (hflags : FreeBehind f.1 (appended flags)) :
    withoutFlag f.1 (t ++ appended (f :: flags)) = t ++ appended flags := by
  have hends := endsWord_appended (f :: flags)
  have hstart : afterFlag? f.1 (t ++ appended (f :: flags)) = none := by
    rw [afterFlag?_eq_none hname, flagWord_append t hends]
    exact ht.start
  have hcut : afterFlag? f.1 ((renderTextFlag f.1 f.2 ++ appended flags).dropWhile
      CodePoint.isBlank) = some (appended flags) := by
    have hword : flagWord (renderTextFlag f.1 f.2 ++ appended flags) = dashed f.1 := by
      rw [flagWord_append _ (endsWord_appended flags), flagWord_renderTextFlag hname]
    rw [dropWhile_of_flagWord hword]
    exact afterFlag?_renderTextFlag f.1 hquote (endsWord_appended flags)
  rw [withoutFlag, hstart, Option.getD_none, withoutFlagBehind_append hname ht.behind hlast hends,
    appended_cons, withoutFlagBehind_cut rfl hcut, withoutFlagBehind_of_freeBehind hname hflags]

/-- Flags that are put behind a command free of them are cut out one after the other. -/
theorem foldl_withoutFlag_appended {flags : List (Text × Text)}
    (hplain : ∀ f ∈ flags, Plain f.1) (hquote : ∀ f ∈ flags, .char '"' ∉ f.2)
    (hclear : flags.Pairwise fun f g => g.1 ≠ f.1 ∧ Clear f.1 g.2)
    (ht : ∀ f ∈ flags, Free f.1 t) (hlast : ∀ c, t.getLast? = some c → c.isBlank = false) :
    (flags.map Prod.fst).foldl (fun command name => withoutFlag name command)
      (t ++ appended flags) = t := by
  induction flags with
  | nil => exact List.append_nil t
  | cons f flags ih =>
    obtain ⟨hf, hplain⟩ := List.forall_mem_cons.mp hplain
    obtain ⟨hfquote, hquote⟩ := List.forall_mem_cons.mp hquote
    obtain ⟨hfclear, hclear⟩ := List.pairwise_cons.mp hclear
    obtain ⟨hft, ht⟩ := List.forall_mem_cons.mp ht
    have hrest : FreeBehind f.1 (appended flags) :=
      freeBehind_appended hf fun g hg => ⟨hplain g hg, hfclear g hg⟩
    rw [List.map_cons, List.foldl_cons, withoutFlag_appended hf hfquote hft hlast hrest]
    exact ih hplain hquote hclear ht

/-! ## Setting the flags -/

/-- A command without the flags of the network plugins. -/
def bareCommand (command : Text) : Text :=
  flagNames.foldl (fun command name => withoutFlag name command) command

theorem updatedCommand_eq (l : InstallLayout) (command : Text) :
    updatedCommand l command = Text.stripped (bareCommand command) ++ appended (flags l) := by
  simp only [updatedCommand, bareCommand, appended, flags, Text.join, List.map_cons, List.map_nil,
    List.flatMap_cons, List.flatMap_nil, List.append_nil, List.append_assoc, List.intercalate,
    List.intersperse, List.flatten_cons, List.flatten_nil]

/-- Blanks at the ends of a command do not show when flags are cut out of it. -/
theorem stripped_foldl_withoutFlag_stripped {names : List Text}
    (hnames : ∀ name ∈ names, Plain name) (command : Text) :
    Text.stripped (names.foldl (fun command name => withoutFlag name command)
        (Text.stripped command)) =
      Text.stripped (names.foldl (fun command name => withoutFlag name command) command) := by
  induction names generalizing command with
  | nil => exact Text.stripped_stripped command
  | cons first names ih =>
    obtain ⟨hfirst, hnames⟩ := List.forall_mem_cons.mp hnames
    rw [List.foldl_cons, List.foldl_cons, ← ih hnames (withoutFlag first (Text.stripped command)),
      stripped_withoutFlag_stripped hfirst, ih hnames]

/-- Blanks at the ends of a command do not show when its flags are set. -/
theorem updatedCommand_stripped (l : InstallLayout) (command : Text) :
    updatedCommand l (Text.stripped command) = updatedCommand l command := by
  rw [updatedCommand_eq, updatedCommand_eq, bareCommand,
    stripped_foldl_withoutFlag_stripped (fun _ => plain_of_mem_flagNames) command, bareCommand]

/-- What is left of a command is free of all flags that were cut out. -/
theorem free_foldl_withoutFlag {names : List Text} (hnames : ∀ name ∈ names, Plain name)
    (command : Text) (done : List Text) (hdone : ∀ name ∈ done, Free name command) :
    ∀ name ∈ done ++ names,
      Free name (names.foldl (fun command name => withoutFlag name command) command) := by
  induction names generalizing command done with
  | nil =>
    rw [List.append_nil]
    exact hdone
  | cons first names ih =>
    obtain ⟨hfirst, hnames⟩ := List.forall_mem_cons.mp hnames
    have hstep : ∀ name ∈ done ++ [first], Free name (withoutFlag first command) := by
      intro name hname
      rcases List.mem_append.mp hname with hname | hname
      · exact (hdone name hname).withoutFlag first
      · rw [List.mem_singleton.mp hname]
        exact free_withoutFlag hfirst command
    have hall := ih hnames (withoutFlag first command) (done ++ [first]) hstep
    rw [List.append_assoc] at hall
    exact hall

theorem free_bareCommand (command : Text) : ∀ name ∈ flagNames, Free name (bareCommand command) :=
  free_foldl_withoutFlag (fun _ => plain_of_mem_flagNames) command [] nofun

/-- The values of the flags for a directory can be quoted if it can. -/
theorem quotable_of_mem_flags {l : InstallLayout} (h : Quotable l.installDirectory) :
    ∀ f ∈ flags l, Quotable f.2 := by
  have hcni : Quotable l.cniDirectory := h.join rfl (by decide) (by decide)
  have hconfig : Quotable l.cniConfigDirectory := hcni.join rfl (by decide) (by decide)
  intro f hf
  simp only [flags, List.mem_cons, List.not_mem_nil, or_false] at hf
  rcases hf with rfl | rfl | rfl | rfl
  · exact quotable_of_no_blank (by decide) (by decide)
  · exact quotable_of_no_blank (by decide) (by decide)
  · exact hcni
  · exact hconfig

theorem map_fst_flags (l : InstallLayout) : (flags l).map Prod.fst = flagNames := rfl

theorem nodup_flagNames : flagNames.Nodup := by decide

/-- The flags for a directory that can be quoted are cut out of a command as they were put in. -/
theorem bareCommand_appended {l : InstallLayout} (h : Quotable l.installDirectory)
    (ht : ∀ name ∈ flagNames, Free name t)
    (hlast : ∀ c, t.getLast? = some c → c.isBlank = false) :
    bareCommand (t ++ appended (flags l)) = t := by
  have hmem : ∀ f ∈ flags l, f.1 ∈ flagNames := fun f hf =>
    map_fst_flags l ▸ List.mem_map_of_mem hf
  have hvalues := quotable_of_mem_flags h
  have hnames : (flags l).Pairwise fun f g => f.1 ≠ g.1 :=
    List.pairwise_map.mp (map_fst_flags l ▸ nodup_flagNames)
  rw [bareCommand, ← map_fst_flags l]
  refine foldl_withoutFlag_appended (fun f hf => plain_of_mem_flagNames (hmem f hf))
    (fun f hf => (hvalues f hf).quote) ?_ (fun f hf => ht f.1 (hmem f hf)) hlast
  refine hnames.imp_of_mem fun {f g} hf hg hne => ⟨Ne.symm hne, ?_⟩
  exact (hvalues g hg).clear f.1 (hmem f hf)

/-- What an update put in is cut out whole by the next. -/
theorem bareCommand_updatedCommand {l : InstallLayout} (h : Quotable l.installDirectory)
    (command : Text) :
    bareCommand (updatedCommand l command) = Text.stripped (bareCommand command) := by
  have hfree : ∀ name ∈ flagNames, Free name (Text.stripped (bareCommand command)) :=
    fun name hname => (free_bareCommand command name hname).stripped
  rw [updatedCommand_eq l]
  exact bareCommand_appended h hfree (Text.trimmed_stripped _).last

/-- The directory that is set last counts, whatever was set before: a first directory that can be
quoted leaves no trace. -/
theorem updatedCommand_updatedCommand (first last : InstallLayout) (command : Text)
    (h : Quotable first.installDirectory) :
    updatedCommand last (updatedCommand first command) = updatedCommand last command := by
  rw [updatedCommand_eq last, bareCommand_updatedCommand h command, Text.stripped_stripped,
    ← updatedCommand_eq last]

theorem updatedCommand_updatedCommand_spaces :
    Quotable (text "/Program Files/k") ∧
      updatedCommand ⟨text "/k"⟩ (updatedCommand ⟨text "/Program Files/k"⟩ (text "kubelet")) =
        updatedCommand ⟨text "/k"⟩ (text "kubelet") :=
  ⟨by decide, updatedCommand_updatedCommand _ _ _ (by decide)⟩

/-! ## What is in the command -/

/-- Cutting the flags out adds nothing. -/
theorem bareCommand_sublist (command : Text) : (bareCommand command).Sublist command := by
  have hall : ∀ (names : List Text) (t : Text),
      (names.foldl (fun command name => withoutFlag name command) t).Sublist t := by
    intro names
    induction names with
    | nil => exact List.Sublist.refl
    | cons name names ih => exact fun t => (ih _).trans (withoutFlag_sublist name t)
  exact hall flagNames command

theorem mem_renderTextFlag {c : CodePoint} (h : c ∈ renderTextFlag name value) :
    c ∈ dashed name ∨ c ∈ value ∨ c ∈ text "=\"" := by
  rw [renderTextFlag_eq, List.mem_append, List.mem_cons] at h
  rcases h with h | rfl | h
  · exact .inl h
  · exact .inr (.inr (by decide))
  rcases quoted_cases value with heq | ⟨-, -, heq⟩ <;> rw [heq] at h
  · rw [List.mem_cons, List.mem_append, List.mem_singleton] at h
    rcases h with rfl | h | rfl
    · exact .inr (.inr (by decide))
    · exact .inr (.inl h)
    · exact .inr (.inr (by decide))
  · exact .inr (.inl h)

/-- A code point of a value is one of the directory, or plain, or a slash. -/
theorem mem_value {l : InstallLayout} {c : CodePoint} {f : Text × Text} (hf : f ∈ flags l)
    (h : c ∈ f.2) : c ∈ l.installDirectory ∨ isPlain c = true ∨ c = Path.slash := by
  have hplain : ∀ c ∈ text "cni", isPlain c = true := by decide
  have hcni : c ∈ l.cniDirectory →
      c ∈ l.installDirectory ∨ isPlain c = true ∨ c = Path.slash := by
    intro hmem
    rcases Path.mem_join hmem with hmem | heq | hmem
    · exact .inl hmem
    · exact .inr (.inr heq)
    · exact .inr (.inl (hplain c hmem))
  simp only [flags, List.mem_cons, List.not_mem_nil, or_false] at hf
  rcases hf with rfl | rfl | rfl | rfl
  · exact absurd h List.not_mem_nil
  · exact .inr (.inl (hplain c h))
  · exact hcni h
  · have hplain' : ∀ c ∈ text "config", isPlain c = true := by decide
    have hmem : c ∈ Path.join l.cniDirectory (text "config") := h
    rcases Path.mem_join hmem with hmem | heq | hmem
    · exact hcni hmem
    · exact .inr (.inr heq)
    · exact .inr (.inl (hplain' c hmem))

/-- What an update puts into a command is from the directory, or plain, or a space, an equals sign,
a quote or a slash. -/
theorem mem_updatedCommand {l : InstallLayout} {command : Text} {c : CodePoint}
    (h : c ∈ updatedCommand l command) :
    c ∈ command ∨ c ∈ l.installDirectory ∨ isPlain c = true ∨ c ∈ text " =\"/" := by
  rw [updatedCommand_eq, List.mem_append] at h
  rcases h with h | h
  · exact .inl ((bareCommand_sublist command).subset ((Text.stripped_sublist _).subset h))
  refine .inr ?_
  obtain ⟨f, hf, hmem⟩ := List.mem_flatMap.mp h
  have hname : f.1 ∈ flagNames := map_fst_flags l ▸ List.mem_map_of_mem hf
  rcases List.mem_append.mp hmem with hspace | hmem
  · rw [List.mem_singleton.mp hspace]
    exact .inr (.inr (by decide))
  · rcases mem_renderTextFlag hmem with hmem | hmem | hmem
    · exact .inr (.inl (plain_dashed (plain_of_mem_flagNames hname) c hmem))
    · rcases mem_value hf hmem with hmem | hplain | rfl
      · exact .inl hmem
      · exact .inr (.inl hplain)
      · exact .inr (.inr (by decide))
    · refine .inr (.inr ?_)
      have hall : ∀ c ∈ text "=\"", c ∈ text " =\"/" := by decide
      exact hall c hmem

end NodeBootstrap.Cni
