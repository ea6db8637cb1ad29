import NodeBootstrap.Json.Basic
import NodeBootstrap.Text.Blank
import NodeBootstrap.Text.Case
import NodeBootstrap.Value
import NodeBootstrap.Yaml.Fault
import NodeBootstrap.Yaml.Place

/-!
# The values of scalars

The text of an open scalar decides its kind: it is a number, a word for a truth value or for
nothing, or a day if it is spelled like one, and otherwise a text. The spellings depend on the
version of the document. In the current one a zero in front of a number means nothing and truth
values have two words; the former one knows octal numbers, numbers to the base 60, and words such as
*yes* and *off*.

A kind can also be asked for by a tag. Then the text is read more freely, and it may spell no value
of that kind.
-/

set_option autoImplicit false

namespace NodeBootstrap.Yaml

/-- The kinds of nodes that tags name. -/
inductive Kind
  | null
  | bool
  | int
  | float
  | timestamp
  | text
  | sequence
  | mapping
  /-- A key whose value is merged into its mapping. -/
  | merge
  /-- The main value of a mapping. -/
  | main
  | unknown
  deriving DecidableEq, Repr

/-- The kind that a tag names. -/
def Kind.ofName (name : Text) : Kind :=
  match Text.afterStart? name (NodeBootstrap.text "tag:yaml.org,2002:") with
  | none => .unknown
  | some word =>
    let kinds : List (String × Kind) := [
      ("null", .null), ("bool", .bool), ("int", .int), ("float", .float),
      ("timestamp", .timestamp), ("str", .text), ("seq", .sequence), ("map", .mapping),
      ("merge", .merge), ("value", .main)]
    ((kinds.find? fun k => NodeBootstrap.text k.1 = word).map (·.2)).getD .unknown

namespace Scalar

/-- Whether a text is one of some words. -/
def isWordOf (words : List String) (t : Text) : Bool := words.any fun w => text w = t

/-- A text without a sign in front, and whether that was a minus. -/
def splitSign : Text → Bool × Text
  | .char '-' :: rest => (true, rest)
  | .char '+' :: rest => (false, rest)
  | t => (false, t)

/-- Whether a character may stand in a number to a base. An underscore may stand anywhere. -/
def isDigitOf (base : Nat) (c : CodePoint) : Bool := c = .char '_' || c.hexValue?.any (· < base)

/-- Whether a text is digits to a base, at least one of them or an underscore. -/
def isDigits (base : Nat) (t : Text) : Bool := !t.isEmpty && t.all (isDigitOf base)

/-- Whether a text begins with a digit. -/
def beginsWithDigit (t : Text) : Bool := t.head?.any CodePoint.isDigit

/-! ## Spellings -/

/-- Whether a text is an exponent. A sign may be asked for. -/
def isExponent (signed : Bool) : Text → Bool
  | [] => false
  | mark :: rest =>
    let (_, digits) := splitSign rest
    (mark = .char 'e' || mark = .char 'E') && (!signed || digits.length < rest.length) &&
      !digits.isEmpty && digits.all CodePoint.isDigit

/-- Whether a text is the groups of a number to the base 60 behind the first one. -/
def isSexagesimalTail (t : Text) : Bool :=
  match Text.splitOn (.char ':') t with
  | [] :: group :: groups =>
    (group :: groups).all fun g =>
      match g with
      | [d] => d.isDigit
      | [c, d] => c.isDigit && c.toNat < 54 && d.isDigit
      | _ => false
  | _ => false

/-- Whether a text without its sign is a number with a point or an exponent. -/
def isFloatSpelling (version : Version) (hasSign : Bool) (t : Text) : Bool :=
  let (whole, rest) := t.span (isDigitOf 10)
  if beginsWithDigit t then
    match rest with
    | .char '.' :: tail =>
      let tail := tail.dropWhile (isDigitOf 10)
      tail.isEmpty || isExponent false tail
    | .char ':' :: _ =>
      let (groups, point) := rest.span fun c => c ≠ .char '.'
      version = .former && !point.isEmpty && (point.drop 1).all (isDigitOf 10) &&
        isSexagesimalTail groups
    | _ => isExponent false rest
  else
    match whole, rest with
    | [], .char '.' :: tail =>
      let (digits, exponent) := tail.span (isDigitOf 10)
      isWordOf ["inf", "Inf", "INF"] tail || (!hasSign && isWordOf ["nan", "NaN", "NAN"] tail) ||
        ((!hasSign || version ≠ .former) && !digits.isEmpty &&
          (exponent.isEmpty || isExponent true exponent))
    | _, _ => false

/-- Whether a text without its sign is a whole number. -/
def isIntSpelling (version : Version) (t : Text) : Bool :=
  match t with
  | .char '0' :: .char 'b' :: digits => isDigits 2 digits
  | .char '0' :: .char 'x' :: digits => isDigits 16 digits
  | .char '0' :: .char 'o' :: digits => version ≠ .former && isDigits 8 digits
  | _ =>
    if version = .former then
      isDigits 8 t || (isDigits 10 t && beginsWithDigit t && t.head? ≠ some (.char '0')) ||
        (beginsWithDigit t && t.head? ≠ some (.char '0') &&
          isSexagesimalTail (t.dropWhile (isDigitOf 10)))
    else isDigits 10 t

/-- A number of one or two digits at the front of a text. -/
def shortNumber? (t : Text) : Option (Nat × Text) :=
  let digits := (t.take 2).takeWhile CodePoint.isDigit
  if digits.isEmpty then none else some (DecimalLiteral.digitsValue digits, t.drop digits.length)

/-- A number of some digits at the front of a text. -/
def numberOf? (count : Nat) (t : Text) : Option (Nat × Text) :=
  let digits := (t.take count).takeWhile CodePoint.isDigit
  if digits.length < count then none
  else some (DecimalLiteral.digitsValue digits, t.drop count)

/-- A text behind a mark. -/
def behind? (mark : Char) : Text → Option Text
  | c :: rest => if c = .char mark then some rest else none
  | [] => none

/-- An offset from universal time: a letter for none, or a sign with hours and maybe minutes. -/
def offset? : Text → Option (Option Int)
  | [] => some none
  | [.char 'Z'] => some (some 0)
  | t => do
    let (negative, unsigned) := splitSign t
    guard (unsigned.length < t.length)
    let (hours, rest) ← shortNumber? unsigned
    let (minutes, rest) ←
      if rest.isEmpty then some (0, rest) else behind? ':' rest >>= numberOf? 2
    guard rest.isEmpty
    let total : Int := 60 * hours + minutes
    return some (if negative then -total else total)

/-- Microseconds from the digits behind the point; a seventh digit rounds them. -/
def microseconds (digits : Text) : Nat :=
  let kept := digits.take 6
  let n := DecimalLiteral.digitsValue (kept ++ List.replicate (6 - kept.length) (.char '0'))
  let n := if (digits.drop 6).head?.any fun c => 52 < c.toNat then n + 1 else n
  if 999999 < n then 0 else n

/-- A time of day with its offset. -/
def clockTime? (t : Text) : Option ClockTime := do
  let (hour, rest) ← shortNumber? t
  let (minute, rest) ← behind? ':' rest >>= numberOf? 2
  let (second, rest) ← behind? ':' rest >>= numberOf? 2
  let (fraction, rest) :=
    match rest with
    | .char '.' :: tail => tail.span CodePoint.isDigit
    | _ => ([], rest)
  let offset ← offset? (rest.dropWhile isSpaceOrTab)
  return ⟨hour, minute, second, microseconds fraction, offset⟩

/-- A day, or a day with a time behind a letter or blanks. -/
def timestamp? (t : Text) : Option Timestamp := do
  let (year, rest) ← numberOf? 4 t
  let (month, rest) ← behind? '-' rest >>= shortNumber?
  let (day, rest) ← behind? '-' rest >>= shortNumber?
  match rest with
  | [] => return ⟨year, month, day, none⟩
  | c :: tail =>
    if c = .char 'T' ∨ c = .char 't' then return ⟨year, month, day, ← clockTime? tail⟩
    else if isSpaceOrTab c then
      return ⟨year, month, day, ← clockTime? (tail.dropWhile isSpaceOrTab)⟩
    else none

/-- The words for truth values. -/
def truthWords (version : Version) : List String :=
  ["true", "True", "TRUE", "false", "False", "FALSE"] ++
    if version = .former then
      ["y", "Y", "yes", "Yes", "YES", "n", "N", "no", "No", "NO", "on", "On", "ON", "off", "Off",
        "OFF"]
    else []

/-- Whether a text is a day or a moment. A day alone has two digits for its month and two for
itself. -/
def isTimestampSpelling (t : Text) : Bool :=
  (timestamp? t).any fun moment => moment.time.isSome || t.length = 10

/-- The kind of an open scalar. -/
def kindOf (version : Version) (t : Text) : Kind :=
  let (_, unsigned) := splitSign t
  let hasSign := unsigned.length < t.length
  if isWordOf ["", "~", "null", "Null", "NULL"] t then .null
  else if isWordOf (truthWords version) t then .bool
  else if isWordOf ["<<"] t then .merge
  else if isWordOf ["="] t then .main
  else if (hasSign || t.head?.any fun c => c.isDigit || c = .char '.') &&
      isFloatSpelling version hasSign unsigned then .float
  else if (hasSign || beginsWithDigit t) && isIntSpelling version unsigned then .int
  else if isTimestampSpelling t then .timestamp
  else .text

/-! ## Values -/

/-- The most digits that a decimal number may have. -/
def digitLimit : Nat := 4300

/-- Digits to a base, with a sign and the letter of the base in front if there are any. -/
def digitsValue (base : Nat) (t : Text) : Except Fault Int :=
  let (negative, unsigned) := splitSign t.stripped
  let letter := if base = 2 then 'b' else if base = 8 then 'o' else 'x'
  let digits :=
    match unsigned with
    | .char '0' :: .char c :: rest => if base ≠ 10 ∧ c.toLower = letter then rest else unsigned
    | _ => unsigned
  match digits.mapM CodePoint.hexValue? with
  | none => .error .notANumber
  | some values =>
    if values.isEmpty ∨ !values.all (· < base) ∨ (base = 10 ∧ digitLimit < values.length) then
      .error .notANumber
    else
      let magnitude := values.foldl (fun n d => base * n + d) 0
      .ok (if negative then -(magnitude : Int) else magnitude)

/-- The value of groups to the base 60. -/
def sexagesimal (groups : List Int) : Int := groups.foldl (fun n d => 60 * n + d) 0

/-- A whole number. -/
def intValue (version : Version) (t : Text) : Except Fault Int := do
  let spelled : Text := t.filter fun c => c ≠ .char '_'
  if spelled.isEmpty then throw .emptyNumber
  let (negative, t) := splitSign spelled
  let n ←
    match t with
    | .char '0' :: .char 'b' :: digits => digitsValue 2 digits
    | .char '0' :: .char 'x' :: digits => digitsValue 16 digits
    | .char '0' :: .char 'o' :: digits => digitsValue 8 digits
    | _ =>
      if version = .former ∧ t.isEmpty then throw .emptyNumber
      else if version = .former ∧ t.head? = some (.char '0') then digitsValue 8 t
      else if version = .former ∧ .char ':' ∈ t then
        return sexagesimal (← (Text.splitOn (.char ':') t).mapM (digitsValue 10))
      else digitsValue 10 t
  return if negative then -n else n

/-- A number with its sign turned round. -/
def negated : Binary64 → Binary64
  | .finite negative mantissa exponent => .finite (!negative) mantissa exponent
  | .infinite negative => .infinite !negative
  | .nan => .nan

/-- A decimal number: digits with a point and an exponent if there are any, or a word. -/
def decimalValue (t : Text) : Except Fault Binary64 :=
  let (negative, unsigned) := splitSign t.stripped
  let word := unsigned.lowerCase
  if isWordOf ["inf", "infinity"] word then .ok (.infinite negative)
  else if isWordOf ["nan"] word then .ok .nan
  else
    let (whole, rest) := unsigned.span CodePoint.isDigit
    let (fraction, rest) :=
      match rest with
      | .char '.' :: tail => tail.span CodePoint.isDigit
      | _ => ([], rest)
    if (whole.isEmpty ∧ fraction.isEmpty) ∨ !(rest.isEmpty || isExponent false rest) then
      .error .notANumber
    else .ok (DecimalLiteral.binary ⟨negative, whole, fraction, rest⟩)

/-- The value of groups to the base 60, of which the last may have a fraction. -/
def sexagesimalFloat (groups : List Text) : Except Fault Binary64 := do
  let whole ← groups.dropLast.mapM (digitsValue 10)
  let (last, fraction) := ((groups.getLast?).getD []).span CodePoint.isDigit
  let digits := fraction.drop 1
  if !digits.all CodePoint.isDigit then throw .notANumber
  let seconds := sexagesimal (whole ++ [(DecimalLiteral.digitsValue last : Int)])
  let units := seconds.toNat * Binary64.tenTo digits.length + DecimalLiteral.digitsValue digits
  return .ofDecimal false units (-(digits.length : Int))

/-- A number with a point or an exponent. -/
def floatValue (version : Version) (t : Text) : Except Fault Binary64 := do
  let spelled := Text.lowerCase (t.filter fun c => c ≠ .char '_')
  if spelled.isEmpty then throw .emptyNumber
  let (negative, t) := splitSign spelled
  let x ←
    if t = text ".inf" then pure (.infinite false)
    else if t = text ".nan" then pure .nan
    else if version ≠ .current ∧ .char ':' ∈ t then
      sexagesimalFloat (Text.splitOn (.char ':') t)
    else decimalValue t
  return if negative then negated x else x

/-- A truth value. -/
def boolValue (t : Text) : Except Fault Bool :=
  let word := t.lowerCase
  if isWordOf ["true", "yes", "y", "on"] word then .ok true
  else if isWordOf ["false", "no", "n", "off"] word then .ok false
  else .error .notATruthValue

/-- The value of a scalar of a kind. -/
def value (version : Version) (kind : Kind) (t : Text) : Except Fault Value :=
  match kind with
  | .null => .ok .null
  | .bool => (boolValue t).map .bool
  | .int => (intValue version t).map .int
  | .float => (floatValue version t).map .float
  | .timestamp =>
    match timestamp? t with
    | none => .error .malformed
    | some moment => if moment.exists? then .ok (.timestamp moment) else .error .noSuchMoment
  | .text => .ok (.text t)
  | .sequence | .mapping | .merge | .main | .unknown => .error .malformed

end Scalar

end NodeBootstrap.Yaml
