import NodeBootstrap.Flag.ShellWords
import NodeBootstrap.OrderedMap
import NodeBootstrap.Text.Blank

/-!
# Flags in a command

A command is read in two ways. `flagsOf` splits it into words and takes every word that begins with
two dashes for a flag, its value behind the first equals sign. `withoutFlag` works on the text: it
cuts out every occurrence of one flag with the blanks in front of it and leaves the rest untouched,
so it needs no quotes to be closed.

An occurrence stands at the start of the command or behind blanks. It is the flag alone, up to a
blank or the end, or the flag with an equals sign and a value. A value is a quoted text with a blank
or the end behind its closing quote, or else everything up to the next blank.
-/

set_option autoImplicit false

namespace NodeBootstrap.Command

/-! ## Reading flags -/

/-- The name and the value of a word that is a flag. -/
def flagOf? (word : Text) : Option (Text × Text) :=
  (word.afterStart? (text "--")).map fun flag =>
    let (name, value) := Text.splitOnce (.char '=') flag
    (name, value.getD [])

/-- The flags of a command in order, repeated ones too. -/
def flagsOf (command : Text) : Except ShellWords.Fault (List (Text × Text)) := do
  return (← ShellWords.split command).filterMap flagOf?

/-! ## Cutting a flag out -/

/-- Whether a word ends here. -/
def endsWord : Text → Bool
  | [] => true
  | c :: _ => c.isBlank

/-- What follows a value. -/
def afterValue (value : Text) : Text :=
  let bare := value.dropWhile (!CodePoint.isBlank ·)
  match value with
  | .char '"' :: body =>
    match Text.splitOnce (.char '"') body with
    | (_, some behind) => if endsWord behind then behind else bare
    | (_, none) => bare
  | _ => bare

/-- What follows the flag that a text begins with. -/
def afterFlag? (name t : Text) : Option Text :=
  match t.afterStart? (text "--" ++ name) with
  | none => none
  | some (.char '=' :: value) => some (afterValue value)
  | some rest => if endsWord rest then some rest else none

private theorem length_of_afterStart? {t start rest : Text} (h : t.afterStart? start = some rest) :
    rest.length ≤ t.length := by
  induction t generalizing start with
  | nil => cases start <;> simp_all [Text.afterStart?]
  | cons c t ih =>
    cases start with
    | nil => simp_all [Text.afterStart?]
    | cons d start =>
      simp only [Text.afterStart?] at h
      split at h
      · exact Nat.le_succ_of_le (ih h)
      · simp at h

private theorem length_of_splitOnce {separator : CodePoint} {t behind : Text}
    (h : (Text.splitOnce separator t).2 = some behind) : behind.length ≤ t.length := by
  induction t generalizing behind with
  | nil => simp [Text.splitOnce] at h
  | cons c t ih =>
    simp only [Text.splitOnce] at h
    split at h
    · simp_all
    · exact Nat.le_succ_of_le (ih h)

private theorem length_afterValue (value : Text) : (afterValue value).length ≤ value.length := by
  have hbare : (value.dropWhile (!CodePoint.isBlank ·)).length ≤ value.length :=
    (List.dropWhile_suffix _).length_le
  unfold afterValue
  split
  · split
    · rename_i hs
      split
      · have := length_of_splitOnce (congrArg Prod.snd hs)
        simp only [List.length_cons]
        omega
      · exact hbare
    · exact hbare
  · exact hbare

/-- What follows a flag is no longer than what the flag was in. -/
theorem length_of_afterFlag? {name t rest : Text} (h : afterFlag? name t = some rest) :
    rest.length ≤ t.length := by
  unfold afterFlag? at h
  split at h
  · simp at h
  · rename_i value hs
    have := length_of_afterStart? hs
    have := length_afterValue value
    simp only [Option.some.injEq] at h
    subst h
    simp only [List.length_cons] at *
    omega
  · rename_i rest' _ hs
    split at h
    · simp only [Option.some.injEq] at h
      subst h
      exact length_of_afterStart? hs
    · simp at h

/-- The rest of a command without the occurrences of a flag that stand behind blanks. -/
def withoutFlagBehind (name : Text) : Text → Text
  | [] => []
  | c :: rest =>
    match _h : if c.isBlank then afterFlag? name (rest.dropWhile CodePoint.isBlank) else none with
    | some behind => withoutFlagBehind name behind
    | none => c :: withoutFlagBehind name rest
termination_by t => t.length
decreasing_by
  · simp_wf
    split at _h
    · have := length_of_afterFlag? _h
      have : (rest.dropWhile CodePoint.isBlank).length ≤ rest.length :=
        (List.dropWhile_suffix _).length_le
      omega
    · simp at _h
  · simp_wf

/-- A command without the occurrences of a flag. -/
def withoutFlag (name command : Text) : Text :=
  withoutFlagBehind name ((afterFlag? name command).getD command)

end NodeBootstrap.Command
