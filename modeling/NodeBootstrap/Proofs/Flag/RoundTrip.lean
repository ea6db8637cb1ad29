import NodeBootstrap.Flag.Basic
import NodeBootstrap.Proofs.Node.CniFlags
import NodeBootstrap.Proofs.OrderedMap
import NodeBootstrap.Proofs.Outcome

/-!
# Rendered flags are read back

Flags are rendered in the rules of Unicode: a value with a blank of any kind stands in quotes. They
are read in the rules of a shell, for which four code points separate words. The two agree because
each of the four is a blank, and because nothing else in a rendered flag means anything to the
shell: between the quotes it is only the closing one and the backslash, outside of them also the
other quote (`ShellWords.splitFrom_ordinary`, `ShellWords.splitFrom_quoted`). So every rendered flag
is one word, and the word is cut at its first equals sign, which is not in the name
(`Command.flagsOf_render`).
-/

set_option autoImplicit false

namespace NodeBootstrap

namespace ShellWords

/-- Whether a code point stands for itself outside of quotes. -/
def isOrdinary (c : CodePoint) : Bool :=
  !isSeparator c && c ≠ .char '\\' && c ≠ .char '\'' && c ≠ .char '"'

variable {s : Text}

/-- What separates words is a blank. -/
theorem isSeparator_of_not_blank {c : CodePoint} (h : c.isBlank = false) :
    isSeparator c = false := by
  refine Bool.eq_false_iff.mpr fun hseparator => ?_
  simp only [isSeparator, Bool.or_eq_true, decide_eq_true_eq] at hseparator
  rcases hseparator with ((rfl | rfl) | rfl) | rfl <;> cases h

/-- Ordinary code points are read into the word. -/
theorem splitFrom_ordinary (h : ∀ c ∈ s, isOrdinary c = true) (word rest : Text) :
    splitFrom .bare word (s ++ rest) = splitFrom .bare (word ++ s) rest := by
  induction s generalizing word with
  | nil => rw [List.append_nil, List.nil_append]
  | cons c s ih =>
    obtain ⟨hc, hs⟩ := List.forall_mem_cons.mp h
    simp only [isOrdinary, Bool.and_eq_true, Bool.not_eq_true', decide_eq_true_eq] at hc
    obtain ⟨⟨⟨hseparator, hback⟩, hsingle⟩, hdouble⟩ := hc
    rw [List.cons_append, splitFrom, hseparator, if_neg Bool.false_ne_true, if_neg hback,
      if_neg hsingle, if_neg hdouble, ih hs, List.append_assoc, List.singleton_append]

/-- Ordinary code points begin a word. -/
theorem splitFrom_between (h : ∀ c ∈ s, isOrdinary c = true) (hne : s ≠ []) (rest : Text) :
    splitFrom .between [] (s ++ rest) = splitFrom .bare s rest := by
  obtain ⟨c, s, rfl⟩ := List.exists_cons_of_ne_nil hne
  obtain ⟨hc, hs⟩ := List.forall_mem_cons.mp h
  simp only [isOrdinary, Bool.and_eq_true, Bool.not_eq_true', decide_eq_true_eq] at hc
  obtain ⟨⟨⟨hseparator, hback⟩, hsingle⟩, hdouble⟩ := hc
  rw [List.cons_append, splitFrom, hseparator, if_neg Bool.false_ne_true, if_neg hback,
    if_neg hsingle, if_neg hdouble]
  exact splitFrom_ordinary hs [c] rest

/-- What stands between quotes is read into the word, separators and all. -/
theorem splitFrom_quoted (h : ∀ c ∈ s, c ≠ .char '"' ∧ c ≠ .char '\\') (word rest : Text) :
    splitFrom .bare word (.char '"' :: (s ++ .char '"' :: rest)) =
      splitFrom .bare (word ++ s) rest := by
  show splitFrom .double word (s ++ .char '"' :: rest) = _
  induction s generalizing word with
  | nil =>
    rw [List.append_nil]
    rfl
  | cons c s ih =>
    obtain ⟨⟨hquote, hback⟩, hs⟩ := List.forall_mem_cons.mp h
    rw [List.cons_append, splitFrom, if_neg hquote, if_neg hback, ih hs, List.append_assoc,
      List.singleton_append]

end ShellWords

namespace Command

open Cni ShellWords

/-- A flag whose text can be read back: the name does not end early, and nothing in it opens or
closes quotes. -/
structure LegibleFlag (f : Text × Text) : Prop where
  name : ∀ c ∈ f.1,
    c.isBlank = false ∧ c ≠ .char '=' ∧ c ≠ .char '"' ∧ c ≠ .char '\'' ∧ c ≠ .char '\\'
  value : ∀ c ∈ f.2, c ≠ .char '"' ∧ c ≠ .char '\'' ∧ c ≠ .char '\\'

/-- Flags that can be read back, each with a name of its own. -/
structure Legible (flags : OrderedMap Text Text) : Prop where
  distinct : flags.keys.Nodup
  flag : ∀ f ∈ flags, LegibleFlag f

/-- The word that a shell makes of a flag: the value is no longer in quotes. -/
def wordOf (f : Text × Text) : Text := dashed f.1 ++ [.char '='] ++ f.2

variable {flags : OrderedMap Text Text} {f : Text × Text}

/-- What is in front of the value is ordinary. -/
theorem LegibleFlag.isOrdinary_name (h : LegibleFlag f) :
    ∀ c ∈ dashed f.1 ++ [.char '='], isOrdinary c = true := by
  refine List.forall_mem_append.mpr ⟨List.forall_mem_append.mpr ⟨by decide, fun c hc => ?_⟩,
    List.forall_mem_singleton.mpr rfl⟩
  obtain ⟨hblank, -, hdouble, hsingle, hback⟩ := h.name c hc
  simp [isOrdinary, isSeparator_of_not_blank hblank, hdouble, hsingle, hback]

/-- A flag is read into one word, whatever follows it. -/
theorem LegibleFlag.splitFrom (h : LegibleFlag f) (rest : Text) :
    splitFrom .between [] (renderTextFlag f.1 f.2 ++ rest) = splitFrom .bare (wordOf f) rest := by
  have hfront : renderTextFlag f.1 f.2 ++ rest =
      (dashed f.1 ++ [.char '=']) ++ (quoted f.2 ++ rest) := by
    simp only [renderTextFlag_eq, List.append_assoc, List.cons_append, List.nil_append]
  rw [hfront, splitFrom_between h.isOrdinary_name (List.concat_ne_nil _ _), wordOf]
  rcases quoted_cases f.2 with hquoted | ⟨-, hblank, hquoted⟩ <;> rw [hquoted]
  · have hbetween : .char '"' :: (f.2 ++ [.char '"']) ++ rest =
        .char '"' :: (f.2 ++ .char '"' :: rest) := by
      simp only [List.append_assoc, List.cons_append, List.nil_append]
    rw [hbetween]
    exact splitFrom_quoted (fun c hc => ⟨(h.value c hc).1, (h.value c hc).2.2⟩) _ rest
  · refine splitFrom_ordinary (fun c hc => ?_) _ rest
    obtain ⟨hdouble, hsingle, hback⟩ := h.value c hc
    simp [isOrdinary, isSeparator_of_not_blank (hblank c hc), hdouble, hsingle, hback]

/-- Behind a word the other flags are one word each. -/
theorem splitFrom_appended (h : ∀ f ∈ flags, LegibleFlag f) (word : Text) :
    splitFrom .bare word (appended flags) = .ok (word :: flags.map wordOf) := by
  induction flags generalizing word with
  | nil => rfl
  | cons f flags ih =>
    obtain ⟨hf, hflags⟩ := List.forall_mem_cons.mp h
    have hblank : ∀ t, splitFrom .bare word (.char ' ' :: t) =
        (splitFrom .between [] t).map (word :: ·) := fun _ => rfl
    rw [appended_cons, hblank, hf.splitFrom, ih hflags]
    rfl

/-- Flags are joined to one word each. -/
theorem split_join (h : ∀ f ∈ flags, LegibleFlag f) :
    split (Text.join (text " ") (flags.map fun f => renderTextFlag f.1 f.2)) =
      .ok (flags.map wordOf) := by
  cases flags with
  | nil => rfl
  | cons f flags =>
    obtain ⟨hf, hflags⟩ := List.forall_mem_cons.mp h
    have hjoined : Text.join (text " ") ((f :: flags).map fun f => renderTextFlag f.1 f.2) =
        renderTextFlag f.1 f.2 ++ appended flags := by
      rw [List.map_cons, Text.join_cons, List.flatMap_map]
      rfl
    rw [hjoined, split, hf.splitFrom, splitFrom_appended hflags]
    rfl

/-- The word of a flag is cut into its name and its value. -/
theorem LegibleFlag.flagOf? (h : LegibleFlag f) : flagOf? (wordOf f) = some f := by
  have hequals : .char '=' ∉ f.1 := fun hmem => (h.name _ hmem).2.1 rfl
  have hword : wordOf f = text "--" ++ (f.1 ++ .char '=' :: f.2) := by
    simp only [wordOf, dashed, List.append_assoc, List.cons_append, List.nil_append]
  rw [Command.flagOf?, hword, afterStart?_append, Option.map_some, splitOnce_append hequals]
  rfl

theorem filterMap_wordOf (h : ∀ f ∈ flags, LegibleFlag f) :
    (flags.map wordOf).filterMap Command.flagOf? = flags := by
  induction flags with
  | nil => rfl
  | cons f flags ih =>
    obtain ⟨hf, hflags⟩ := List.forall_mem_cons.mp h
    rw [List.map_cons, List.filterMap_cons, hf.flagOf?, ih hflags]

/-- Flags with texts for values can always be rendered. -/
theorem render_texts (flags : OrderedMap Text Text) :
    Flags.render (flags.map fun f => (f.1, .text f.2)) =
      .ok (Text.join (text " ") (flags.map fun f => renderTextFlag f.1 f.2)) := by
  have hone : ∀ name value : Text,
      renderFlag name (.text value) = .ok (renderTextFlag name value) := by
    intro name value
    rw [renderFlag, renderTextFlag, Value.needsQuotes, ok_bind]
    split <;> rfl
  have hall : (flags.map fun f => (f.1, Value.text f.2)).mapM
      (fun f => renderFlag f.1 f.2) = .ok (flags.map fun f => renderTextFlag f.1 f.2) := by
    induction flags with
    | nil => rfl
    | cons f flags ih =>
      rw [List.map_cons, List.mapM_cons, hone, ok_bind, ih, ok_bind]
      rfl
  exact congrArg (fun parts => parts >>= fun parts => .ok (Text.join (text " ") parts)) hall

/-- **Rendered flags are read back**, names and values in their order, whatever blanks and equals
signs the values hold and also if they are empty. -/
theorem flagsOf_render (h : Legible flags) :
    ∃ command, Flags.render (flags.map fun f => (f.1, .text f.2)) = .ok command ∧
      (flagsOf command).map OrderedMap.ofList = .ok flags := by
  refine ⟨_, render_texts flags, ?_⟩
  rw [flagsOf, split_join h.flag, ok_bind, filterMap_wordOf h.flag]
  exact congrArg Except.ok (OrderedMap.ofList_of_nodup h.distinct)

/-- An empty value, one with a blank that only Unicode knows and one with equals signs. -/
def briefFlags : OrderedMap Text Text :=
  [(text "v", []), (text "node-labels", text "a=b\u3000c=d"), (text "-x", text "=1")]

theorem flagsOf_render_brief :
    Legible briefFlags ∧
      ∃ command, Flags.render (briefFlags.map fun f => (f.1, .text f.2)) = .ok command ∧
        (flagsOf command).map OrderedMap.ofList = .ok briefFlags := by
  have hname : ∀ f ∈ briefFlags, ∀ c ∈ f.1, c.isBlank = false ∧ c ≠ .char '=' ∧ c ≠ .char '"' ∧
      c ≠ .char '\'' ∧ c ≠ .char '\\' := by decide
  have hvalue : ∀ f ∈ briefFlags, ∀ c ∈ f.2, c ≠ .char '"' ∧ c ≠ .char '\'' ∧ c ≠ .char '\\' := by
    decide
  have hlegible : Legible briefFlags := ⟨by decide, fun f hf => ⟨hname f hf, hvalue f hf⟩⟩
  exact ⟨hlegible, flagsOf_render hlegible⟩

end Command

end NodeBootstrap
