import NodeBootstrap.Text.Basic

/-!
# Texts as bytes

UTF-8, UTF-16 and UTF-32, read and (UTF-8 only) written.

Reading UTF-8 is strict or lenient. Both refuse overlong forms, numbers above U+10FFFF and cut-off
sequences; the lenient reader also takes a surrogate half in three bytes. A fault names the bytes
that cannot begin a sequence: `width` of them from `offset`. Writing fails at the first surrogate
half and names the whole run of halves that starts there. In the names and arguments of a host some
halves stand for single bytes, and only the others are refused.

The reader of documents (`decodeDetected`) takes the form of Unicode from the byte order mark or,
without one, from the places of the zero bytes among the first four.
-/

set_option autoImplicit false

namespace NodeBootstrap

/-- A form of Unicode in bytes. -/
inductive Encoding
  | utf8
  | utf16 (bigEndian : Bool)
  | utf32 (bigEndian : Bool)
  deriving DecidableEq, Repr

namespace Encoding

/-- The name of an encoding in messages. -/
def name : Encoding → Text
  | .utf8 => text "utf-8"
  | .utf16 false => text "utf-16-le"
  | .utf16 true => text "utf-16-be"
  | .utf32 false => text "utf-32-le"
  | .utf32 true => text "utf-32-be"

/-- Why bytes are no text. -/
inductive Reason
  | invalidStart
  | invalidContinuation
  | unexpectedEnd
  | truncated
  | outOfRange
  deriving DecidableEq, Repr

/-- The words for a reason. -/
def Reason.message : Reason → Text
  | .invalidStart => text "invalid start byte"
  | .invalidContinuation => text "invalid continuation byte"
  | .unexpectedEnd => text "unexpected end of data"
  | .truncated => text "truncated data"
  | .outOfRange => text "code point not in range(0x110000)"

/-- Bytes that are no text: `width` of them from `offset`, of which `first` is the first. -/
structure DecodeFault where
  encoding : Encoding
  offset : Nat
  width : Nat
  first : UInt8
  reason : Reason
  deriving DecidableEq, Repr

/-- Several bytes are named by their places alone, one byte also by its value. -/
def DecodeFault.message (f : DecodeFault) : Text :=
  let place :=
    if f.width = 1 then
      text "byte 0x" ++ Text.ofHex 2 f.first.toNat ++ text " in position " ++ Text.ofNat f.offset
    else
      text "bytes in position " ++ Text.ofNat f.offset ++ text "-" ++
        Text.ofNat (f.offset + f.width - 1)
  text "'" ++ f.encoding.name ++ text "' codec can't decode " ++ place ++ text ": " ++
    f.reason.message

/-- Surrogate halves that UTF-8 cannot hold: the place of the first, how many stand in a row, and
the first itself. -/
structure EncodeFault where
  offset : Nat
  width : Nat
  first : CodePoint
  deriving DecidableEq, Repr

/-- Several halves are named by their places alone, one half also by its number. -/
def EncodeFault.message (f : EncodeFault) : Text :=
  let place :=
    if f.width = 1 then
      text "character '\\u" ++ Text.ofHex 4 f.first.toNat ++ text "' in position " ++
        Text.ofNat f.offset
    else
      text "characters in position " ++ Text.ofNat f.offset ++ text "-" ++
        Text.ofNat (f.offset + f.width - 1)
  text "'utf-8' codec can't encode " ++ place ++ text ": surrogates not allowed"

end Encoding

open Encoding

/-! ## UTF-8 -/

namespace Utf8

/-- Whether a byte continues a sequence. -/
def isContinuation (b : UInt8) : Bool := 0x80 ≤ b && b < 0xC0

/-- The six bits that a continuation byte carries. -/
def low6 (b : UInt8) : Nat := b.toNat % 64

/-- What the bytes from a lead byte on begin with: a code point and the number of its bytes, or
bytes that begin none. -/
inductive Sequence
  | scalar (n width : Nat)
  | broken (width : Nat) (reason : Reason)

/-- Whether a byte can come second. After four lead bytes part of the range would write a code point
too long, above U+10FFFF or, for the strict reader, a surrogate half. -/
def secondFits (lenient : Bool) (lead second : UInt8) : Bool :=
  isContinuation second &&
    (if lead = 0xE0 then 0xA0 ≤ second
    else if lead = 0xED then lenient || second < 0xA0
    else if lead = 0xF0 then 0x90 ≤ second
    else if lead = 0xF4 then second < 0x90
    else true)

/-- The sequence that a lead byte and the bytes after it begin with. A surrogate half is taken whole
or not at all: cut off, it is refused at its lead byte as the strict reader does. -/
def sequenceAt (lenient : Bool) (lead : UInt8) (rest : Bytes) : Sequence :=
  if lead < 0x80 then .scalar lead.toNat 1
  else if lead < 0xC2 then .broken 1 .invalidStart
  else if lead < 0xE0 then
    match rest with
    | [] => .broken 1 .unexpectedEnd
    | b :: _ =>
      if isContinuation b then .scalar (lead.toNat % 32 * 64 + low6 b) 2
      else .broken 1 .invalidContinuation
  else if lead < 0xF0 then
    match rest with
    | [] => .broken 1 .unexpectedEnd
    | [b] =>
      if secondFits false lead b then .broken 2 .unexpectedEnd else .broken 1 .invalidContinuation
    | b :: c :: _ =>
      if !secondFits lenient lead b then .broken 1 .invalidContinuation
      else if isContinuation c then .scalar ((lead.toNat % 16 * 64 + low6 b) * 64 + low6 c) 3
      else if secondFits false lead b then .broken 2 .invalidContinuation
      else .broken 1 .invalidContinuation
  else if lead < 0xF5 then
    match rest with
    | [] => .broken 1 .unexpectedEnd
    | b :: rest =>
      if !secondFits false lead b then .broken 1 .invalidContinuation
      else
        match rest with
        | [] => .broken 2 .unexpectedEnd
        | c :: rest =>
          if !isContinuation c then .broken 2 .invalidContinuation
          else
            match rest with
            | [] => .broken 3 .unexpectedEnd
            | d :: _ =>
              if isContinuation d then
                .scalar (((lead.toNat % 8 * 64 + low6 b) * 64 + low6 c) * 64 + low6 d) 4
              else .broken 3 .invalidContinuation
  else .broken 1 .invalidStart

/-- Bytes as text; `offset` is the place of the first byte in the whole. -/
def decodeFrom (lenient : Bool) (offset : Nat) : Bytes → Except DecodeFault Text
  | [] => .ok []
  | lead :: rest =>
    match sequenceAt lenient lead rest with
    | .broken width reason => .error ⟨.utf8, offset, width, lead, reason⟩
    | .scalar n width => do
      let following ← decodeFrom lenient (offset + width) (rest.drop (width - 1))
      return .ofNat n :: following
termination_by bytes => bytes.length
decreasing_by simp only [List.length_cons, List.length_drop]; omega

/-- Bytes as text, strictly. -/
def decode (bytes : Bytes) : Except DecodeFault Text := decodeFrom false 0 bytes

/-- Bytes as text, surrogate halves let through. -/
def decodeLenient (bytes : Bytes) : Except DecodeFault Text := decodeFrom true 0 bytes

/-- A text as bytes; `offset` is the place of its first code point in the whole. -/
def encodeFrom (offset : Nat) : Text → Except EncodeFault Bytes
  | [] => .ok []
  | .surrogate half :: rest =>
    .error ⟨offset, 1 + (rest.takeWhile CodePoint.isSurrogate).length, .surrogate half⟩
  | .char c :: rest => do
    let following ← encodeFrom (offset + 1) rest
    return String.utf8EncodeChar c ++ following

/-- A text as bytes. -/
def encode (t : Text) : Except EncodeFault Bytes := encodeFrom 0 t

/-- Why a name or an argument of a host cannot be written as bytes, if it cannot: a half that stands
for no byte. The fault names it and the halves behind it, in whichever way they stand. -/
def unspellableFrom? (offset : Nat) : Text → Option EncodeFault
  | [] => none
  | c :: rest =>
    if c.isSurrogate && !c.isStrayByte then
      some ⟨offset, 1 + (rest.takeWhile CodePoint.isSurrogate).length, c⟩
    else unspellableFrom? (offset + 1) rest

end Utf8

/-! ## UTF-16 and UTF-32 -/

/-- A number from two bytes. -/
private def pairOf (bigEndian : Bool) (a b : UInt8) : Nat :=
  if bigEndian then a.toNat * 256 + b.toNat else b.toNat * 256 + a.toNat

/-- UTF-16 as text. A half without its partner is let through; a byte left over is not. -/
def decodeUtf16 (bigEndian : Bool) (offset : Nat) : Bytes → Except DecodeFault Text
  | [] => .ok []
  | [b] => .error ⟨.utf16 bigEndian, offset, 1, b, .truncated⟩
  | a :: b :: rest => do
    let unit := CodePoint.ofNat (pairOf bigEndian a b)
    let following ← decodeUtf16 bigEndian (offset + 2) rest
    match following, rest with
    | second :: others, c :: d :: _ =>
      -- the next unit is still to be seen in the bytes: a pair already joined is no low half
      if unit.isHighSurrogate && (CodePoint.ofNat (pairOf bigEndian c d)).isLowSurrogate then
        return .joinSurrogates unit second :: others
      else return unit :: following
    | _, _ => return unit :: following

/-- UTF-32 as text. Surrogate halves are let through. -/
def decodeUtf32 (bigEndian : Bool) (offset : Nat) : Bytes → Except DecodeFault Text
  | [] => .ok []
  | a :: b :: c :: d :: rest => do
    let n :=
      if bigEndian then pairOf true a b * 0x10000 + pairOf true c d
      else pairOf false c d * 0x10000 + pairOf false a b
    if 0x110000 ≤ n then .error ⟨.utf32 bigEndian, offset, 4, a, .outOfRange⟩
    else
      let following ← decodeUtf32 bigEndian (offset + 4) rest
      return .ofNat n :: following
  | a :: rest => .error ⟨.utf32 bigEndian, offset, 1 + rest.length, a, .truncated⟩

/-! ## Documents in any of the three -/

/-- The encoding of a document and the bytes of the mark that says so. -/
def Encoding.detect (bytes : Bytes) : Encoding × Bytes :=
  match bytes with
  | 0x00 :: 0x00 :: 0xFE :: 0xFF :: _ => (.utf32 true, [0x00, 0x00, 0xFE, 0xFF])
  | 0xFF :: 0xFE :: 0x00 :: 0x00 :: _ => (.utf32 false, [0xFF, 0xFE, 0x00, 0x00])
  | 0xFE :: 0xFF :: _ => (.utf16 true, [0xFE, 0xFF])
  | 0xFF :: 0xFE :: _ => (.utf16 false, [0xFF, 0xFE])
  | 0xEF :: 0xBB :: 0xBF :: _ => (.utf8, [0xEF, 0xBB, 0xBF])
  | a :: b :: c :: d :: _ =>
    if a = 0 then (if b = 0 then .utf32 true else .utf16 true, [])
    else if b = 0 then (if c = 0 ∧ d = 0 then .utf32 false else .utf16 false, [])
    else (.utf8, [])
  | [a, b] =>
    if a = 0 then (.utf16 true, []) else if b = 0 then (.utf16 false, []) else (.utf8, [])
  | _ => (.utf8, [])

/-- A document in whichever encoding it is detected to have. Places in faults count from the start
of the document, in UTF-8 from behind the mark. -/
def decodeDetected (bytes : Bytes) : Except DecodeFault Text :=
  match Encoding.detect bytes with
  | (.utf8, mark) => Utf8.decodeLenient (bytes.drop mark.length)
  | (.utf16 bigEndian, mark) => decodeUtf16 bigEndian mark.length (bytes.drop mark.length)
  | (.utf32 bigEndian, mark) => decodeUtf32 bigEndian mark.length (bytes.drop mark.length)

end NodeBootstrap
