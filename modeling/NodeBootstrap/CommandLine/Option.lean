import NodeBootstrap.OrderedMap
import NodeBootstrap.Text.Word

/-!
# Options

The words of a command line as options and arguments. An option is written in full, or by any
beginning that no other option shares; its value is the next word, or stands behind an equals sign.
Every set of options has one for help, with a short name of one letter.

A word that looks like a negative number, or that holds a space, is an argument even if it begins
with a dash, and behind a word of two dashes there are only arguments. All words are classified
before any takes effect, so an option that could be two is refused before an earlier one asks for
help.
-/

set_option autoImplicit false

namespace NodeBootstrap.CommandLine

/-- An option by its name, dashes included. -/
structure OptionSpec where
  name : Text
  takesValue : Bool
  isRequired : Bool
  deriving DecidableEq, Repr

/-- What a command line comes to that is not carried out. -/
inductive Refusal
  /-- Help was asked for. -/
  | help
  /-- The command line is none of those that are understood. -/
  | misuse
  deriving DecidableEq, Repr

/-- The exit status of a refusal. -/
def Refusal.status : Refusal → Nat
  | .help => 0
  | .misuse => 2

/-- A word of a command line. -/
inductive Word
  /-- What can be a value, or the name of a command. -/
  | argument
  /-- Two dashes. -/
  | separator
  | option (spec : OptionSpec) (value : Option Text)
  /-- An option for help, and what it comes to. -/
  | help (outcome : Refusal)
  | unknown
  deriving DecidableEq, Repr

/-- The mark that options begin with. -/
def dash : CodePoint := .char '-'

/-- The names of the option for help. -/
def shortHelp : Text := text "-h"

def longHelp : Text := text "--help"

/-- Whether a word is spelled like a negative number: a dash and digits, or one with a point and
digits behind it. -/
def isNegativeNumber (word : Text) : Bool :=
  match word with
  | c :: number =>
    let (_, rest) := number.span CodePoint.isDecimalDigit
    c = dash && !number.isEmpty &&
      match rest with
      | [] => true
      | .char '.' :: fraction => !fraction.isEmpty && fraction.all CodePoint.isDecimalDigit
      | _ => false
  | [] => false

/-- What the short name of the help option comes to with letters behind it. The letters are short
names too: help is given, unless one of them is given a value or a dash. -/
def helpWithLetters (letters : Text) : Refusal :=
  match letters.dropWhile (· = .char 'h') with
  | .char '=' :: _ | .char '-' :: _ => .misuse
  | _ => .help

/-- The options whose names begin with a text. -/
def startingWith (options : List OptionSpec) (start : Text) : List OptionSpec :=
  options.filter fun o => (Text.afterStart? o.name start).isSome

/-- What a word is that is written in full, with a value behind an equals sign if there is one. -/
def fullWord? (options : List OptionSpec) (name : Text) (value : Option Text) : Option Word :=
  if name = shortHelp ∨ name = longHelp then
    some (.help (if value.isNone then .help else .misuse))
  else (options.find? fun o => o.name = name).map (.option · value)

/-- What a word is that begins with two dashes: an option by a beginning of its name, as long as it
is the beginning of no other. -/
def shortenedWord? (options : List OptionSpec) (start : Text) (value : Option Text) :
    Except Refusal (Option Word) :=
  let help :=
    if (Text.afterStart? longHelp start).isSome then fullWord? options longHelp value else none
  match help.toList ++ (startingWith options start).map (.option · value) with
  | [] => .ok none
  | [word] => .ok (some word)
  | _ => .error .misuse

/-- What a word is that names no option. -/
def otherWord (word : Text) : Word :=
  if isNegativeNumber word || word.contains (.char ' ') then .argument else .unknown

/-- What a word is. -/
def classify (options : List OptionSpec) (word : Text) : Except Refusal Word := do
  if word.head? ≠ some dash ∨ word.length = 1 then return .argument
  if let some w := fullWord? options word none then return w
  let (name, value) := Text.splitOnce (.char '=') word
  if let some w := fullWord? options name value then return w
  if word[1]? = some dash then
    return (← shortenedWord? options name value).getD (otherWord word)
  match Text.afterStart? word shortHelp with
  | some letters => return .help (helpWithLetters letters)
  | none => return otherWord word

/-- The words of a command line, each with its text. -/
def classifyAll (options : List OptionSpec) : List Text → Except Refusal (List (Word × Text))
  | [] => .ok []
  | word :: rest =>
    if word = text "--" then .ok ((.separator, word) :: rest.map ((Word.argument, ·)))
    else do
      let w ← classify options word
      return (w, word) :: (← classifyAll options rest)

/-- The options that a command line gives, by name; one that takes no value has an empty one. -/
abbrev Given := OrderedMap Text Text

/-- What was read of a command line. -/
structure Progress where
  given : Given
  /-- Whether there was a word that nothing takes. -/
  hasExtras : Bool
  /-- The words that are left, the first of which is an argument. -/
  rest : List Text
  deriving DecidableEq, Repr

/-- Takes words up to the end, or up to the first argument that no option takes if `toArgument`. -/
def take (toArgument : Bool) (given : Given) (hasExtras : Bool) :
    List (Word × Text) → Except Refusal Progress
  | [] => .ok ⟨given, hasExtras, []⟩
  | (.argument, word) :: rest =>
    if toArgument then .ok ⟨given, hasExtras, word :: rest.map (·.2)⟩
    else take toArgument given true rest
  | (.separator, _) :: rest =>
    if toArgument then .error .misuse else take toArgument given true rest
  | (.unknown, _) :: rest => take toArgument given true rest
  | (.help outcome, _) :: _ => .error outcome
  | (.option spec (some value), _) :: rest =>
    if spec.takesValue then take toArgument (given.set spec.name value) hasExtras rest
    else .error .misuse
  | (.option spec none, _) :: rest =>
    if spec.takesValue then
      match rest with
      | (.argument, value) :: rest => take toArgument (given.set spec.name value) hasExtras rest
      | _ => .error .misuse
    else take toArgument (given.set spec.name []) hasExtras rest

/-- Whether all options that are required are given. -/
def isComplete (options : List OptionSpec) (given : Given) : Bool :=
  options.all fun o => !o.isRequired || given.hasKey o.name

end NodeBootstrap.CommandLine
