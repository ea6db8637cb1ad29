import NodeBootstrap.Text.Utf8
import NodeBootstrap.Value

/-!
# Data URIs

Files come embedded in `data:,` URIs: the bytes of the payload as they are in UTF-8, or each behind
a percent sign in two hexadecimal digits. A percent sign without two digits behind it is refused,
and its place named; so reading the payload as code points or as bytes comes to the same.
-/

set_option autoImplicit false

namespace NodeBootstrap.DataUri

/-- Why a source is no data URI. -/
inductive Fault
  /-- The source is no text, or a text that begins otherwise. -/
  | unsupported (source : Json)
  /-- A percent sign without two digits behind it, and the text from there on. -/
  | invalidEscape (offset : Nat) (excerpt : Text)
  /-- The payload holds half of a surrogate pair. -/
  | unencodable (fault : Encoding.EncodeFault)

/-- What a data URI begins with. -/
def scheme : Text := text "data:,"

/-- The words for a fault; of a long source the beginning is shown. -/
def Fault.message : Fault → Text
  | .unsupported source =>
    text "unsupported file source " ++ Text.quoted ((Value.ofJson source).display.take 32) ++
      text ", expected a '" ++ scheme ++ text "' data URI"
  | .invalidEscape offset excerpt =>
    text "invalid percent-encoding at offset " ++ Text.ofNat offset ++ text " of data URI: " ++
      excerpt.quoted
  | .unencodable fault => fault.message

/-- The payload of a source that is a data URI. -/
def payload? : Json → Option Text
  | .string t => t.afterStart? scheme
  | _ => none

/-- Whether a text begins with two hexadecimal digits. -/
def beginsWithTwoDigits : Text → Bool
  | a :: b :: _ => a.hexValue?.isSome && b.hexValue?.isSome
  | _ => false

/-- The first percent sign without two digits behind it: its offset and the text from it on. -/
def invalidEscapeFrom? (offset : Nat) : Text → Option (Nat × Text)
  | [] => none
  | c :: rest =>
    if c = .char '%' ∧ !beginsWithTwoDigits rest then some (offset, c :: rest)
    else invalidEscapeFrom? (offset + 1) rest

/-- The value of a byte that is a hexadecimal digit. -/
def hexByte? (b : UInt8) : Option UInt8 :=
  (CodePoint.hexValue? (.ofNat b.toNat)).map UInt8.ofNat

/-- The bytes with each escape replaced by the byte that it writes. -/
def unescape : Bytes → Bytes
  | 0x25 :: a :: b :: rest =>
    match hexByte? a, hexByte? b with
    | some high, some low => (high * 16 + low) :: unescape rest
    | _, _ => 0x25 :: unescape (a :: b :: rest)
  | b :: rest => b :: unescape rest
  | [] => []

/-- The bytes of a data URI. -/
def decode (source : Json) : Except Fault Bytes := do
  let some payload := payload? source | .error (.unsupported source)
  if let some (offset, rest) := invalidEscapeFrom? 0 payload then
    .error (.invalidEscape offset (rest.take 3))
  let bytes ← (Utf8.encode payload).mapError .unencodable
  return unescape bytes

end NodeBootstrap.DataUri
