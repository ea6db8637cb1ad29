import NodeBootstrap.DataUri
import NodeBootstrap.Failure
import NodeBootstrap.Proofs.Flag.Command
import NodeBootstrap.Proofs.Outcome
import NodeBootstrap.Proofs.Text.Utf8

/-!
# Payloads of data URIs

A payload is made of characters and of escapes (`Part`). The check for bad percent signs goes over
the payload as code points, the escapes are replaced in its bytes; both find the same parts, so the
bytes of a payload are the bytes of its parts (`decode_parts`). They agree because no byte of a
character is a percent sign but the one of the percent sign itself.

Every text in which each percent sign has two digits behind it is made of parts
(`exists_parts`), and of any other the first bad percent sign is found (`invalidEscapeFrom?_first`).
-/

set_option autoImplicit false

namespace NodeBootstrap.DataUri

/-- The sign that opens an escape. -/
def percent : CodePoint := .char '%'

/-! ## Hexadecimal digits -/

/-- A hexadecimal digit: its value, and whether a letter is written as a capital. -/
structure Digit where
  value : Fin 16
  capital : Bool
  deriving DecidableEq

/-- The sign of a digit. -/
def Digit.sign (d : Digit) : Char :=
  if d.value.val < 10 then Char.ofNat ('0'.toNat + d.value)
  else Char.ofNat ((if d.capital then 'A' else 'a').toNat + (d.value - 10))

theorem Digit.hexValue?_sign (d : Digit) :
    CodePoint.hexValue? (.char d.sign) = some d.value.val := by
  obtain ⟨value, capital⟩ := d
  revert value capital
  decide

theorem Digit.sign_toNat_lt (d : Digit) : d.sign.toNat < 0x80 := by
  obtain ⟨value, capital⟩ := d
  revert value capital
  decide

theorem Digit.sign_ne_percent (d : Digit) : d.sign ≠ '%' := by
  obtain ⟨value, capital⟩ := d
  revert value capital
  decide

private theorem toNat_between {low c high : Char} (h : (low ≤ c && c ≤ high) = true) :
    low.toNat ≤ c.toNat ∧ c.toNat ≤ high.toNat := by
  obtain ⟨hlow, hhigh⟩ := Bool.and_eq_true_iff.mp h
  exact ⟨UInt32.le_iff_toNat_le.mp (of_decide_eq_true hlow),
    UInt32.le_iff_toNat_le.mp (of_decide_eq_true hhigh)⟩

private theorem exists_digit_of_numeral {c : Char} (hlow : '0'.toNat ≤ c.toNat)
    (hhigh : c.toNat ≤ '9'.toNat) : ∃ d : Digit, c = d.sign := by
  have hlow : 48 ≤ c.toNat := hlow
  have hhigh : c.toNat ≤ 57 := hhigh
  refine ⟨⟨⟨c.toNat - 48, by omega⟩, false⟩, ?_⟩
  have hsmall : c.toNat - 48 < 10 := by omega
  have hsame : '0'.toNat + (c.toNat - 48) = c.toNat := Nat.add_sub_of_le hlow
  rw [Digit.sign, if_pos hsmall, hsame, Char.ofNat_toNat]

/-- The letters that are digits are the first six, small or capital. -/
private theorem exists_digit_of_letter {base c : Char} (capital : Bool)
    (hbase : base = if capital then 'A' else 'a') (hlow : base.toNat ≤ c.toNat)
    (hhigh : c.toNat ≤ base.toNat + 5) : ∃ d : Digit, c = d.sign := by
  refine ⟨⟨⟨c.toNat - base.toNat + 10, by omega⟩, capital⟩, ?_⟩
  have hnot : ¬ c.toNat - base.toNat + 10 < 10 := by omega
  have hsame : base.toNat + (c.toNat - base.toNat + 10 - 10) = c.toNat := by omega
  rw [Digit.sign, if_neg hnot, ← hbase, hsame, Char.ofNat_toNat]

/-- What is read as a digit is the sign of one. -/
theorem exists_digit {c : CodePoint} (h : c.hexValue?.isSome = true) :
    ∃ d : Digit, c = .char d.sign := by
  cases c with
  | surrogate half => cases h
  | char c =>
    suffices hdigit : ∃ d : Digit, c = d.sign by
      obtain ⟨d, rfl⟩ := hdigit
      exact ⟨d, rfl⟩
    rw [CodePoint.hexValue?] at h
    split at h
    next hnumeral =>
      obtain ⟨hlow, hhigh⟩ := toNat_between hnumeral
      exact exists_digit_of_numeral hlow hhigh
    split at h
    next hsmall =>
      obtain ⟨hlow, hhigh⟩ := toNat_between hsmall
      exact exists_digit_of_letter false rfl hlow hhigh
    split at h
    next hcapital =>
      obtain ⟨hlow, hhigh⟩ := toNat_between hcapital
      exact exists_digit_of_letter true rfl hlow hhigh
    next => cases h

/-! ## The parts of a payload -/

/-- What a payload is made of: a character that opens no escape, or an escape. -/
inductive Part
  | plain (c : Char) (ordinary : c ≠ '%')
  | escape (high low : Digit)

namespace Part

/-- The characters that a part is written in. -/
def chars : Part → List Char
  | plain c _ => [c]
  | escape high low => ['%', high.sign, low.sign]

/-- A part as it stands in a payload. -/
def written (part : Part) : Text := part.chars.map .char

/-- What a part stands for: the UTF-8 of its character, or the one byte of its escape. -/
def bytes : Part → Bytes
  | plain c _ => String.utf8EncodeChar c
  | escape high low => [UInt8.ofNat (high.value.val * 16 + low.value.val)]

end Part

/-- A text begins with two hexadecimal digits. -/
def TwoDigits (t : Text) : Prop :=
  ∃ (high low : Digit) (behind : Text), t = .char high.sign :: .char low.sign :: behind

/-- A text in which each percent sign has two hexadecimal digits behind it. -/
def Escaped (payload : Text) : Prop :=
  ∀ front rest, payload = front ++ percent :: rest → TwoDigits rest

theorem beginsWithTwoDigits_iff (t : Text) : beginsWithTwoDigits t = true ↔ TwoDigits t := by
  constructor
  · intro h
    match t with
    | [] | [_] => cases h
    | a :: b :: behind =>
      obtain ⟨ha, hb⟩ := Bool.and_eq_true_iff.mp h
      obtain ⟨high, rfl⟩ := exists_digit ha
      obtain ⟨low, rfl⟩ := exists_digit hb
      exact ⟨high, low, behind, rfl⟩
  · rintro ⟨high, low, behind, rfl⟩
    rw [beginsWithTwoDigits, high.hexValue?_sign, low.hexValue?_sign]
    rfl

/-- What has two digits behind each percent sign still has them behind its first part. -/
theorem Escaped.of_append (front : Text) {rest : Text} (h : Escaped (front ++ rest)) :
    Escaped rest := by
  intro front' rest' heq
  apply h (front ++ front')
  rw [heq, List.append_assoc]

/-- A text with two digits behind each percent sign is made of parts. -/
theorem exists_parts {payload : Text} (hvalid : ∀ c ∈ payload, c.isSurrogate = false)
    (h : Escaped payload) : ∃ parts : List Part, payload = parts.flatMap Part.written := by
  -- an escape takes three code points at once, so the induction is on the length
  induction hlength : payload.length using Nat.strongRecOn generalizing payload with
  | ind length ih =>
    cases payload with
    | nil => exact ⟨[], rfl⟩
    | cons c rest =>
      obtain ⟨hc, hrest⟩ := List.forall_mem_cons.mp hvalid
      by_cases hpercent : c = percent
      · subst hpercent
        obtain ⟨high, low, behind, rfl⟩ := h [] rest rfl
        have hbehind : ∀ c ∈ behind, c.isSurrogate = false := fun c hc =>
          hrest c (List.mem_cons_of_mem _ (List.mem_cons_of_mem _ hc))
        have hshorter : behind.length < length := by
          rw [← hlength]
          simp only [List.length_cons]
          omega
        obtain ⟨parts, hparts⟩ := ih _ hshorter hbehind
          (h.of_append [percent, .char high.sign, .char low.sign]) rfl
        exact ⟨.escape high low :: parts, by rw [List.flatMap_cons, ← hparts]; rfl⟩
      · cases c with
        | surrogate half => cases hc
        | char c =>
          have hshorter : rest.length < length := hlength ▸ Nat.lt_succ_self _
          obtain ⟨parts, hparts⟩ := ih _ hshorter hrest (h.of_append [.char c]) rfl
          refine ⟨.plain c (fun heq => hpercent (congrArg CodePoint.char heq)) :: parts, ?_⟩
          rw [List.flatMap_cons, ← hparts]
          rfl

/-! ## Bad percent signs -/

theorem escaped_nil : Escaped [] := by
  intro front rest h
  cases front <;> cases h

theorem escaped_cons (c : CodePoint) (rest : Text) :
    Escaped (c :: rest) ↔ (c = percent → beginsWithTwoDigits rest = true) ∧ Escaped rest := by
  constructor
  · intro h
    refine ⟨?_, h.of_append [c]⟩
    rintro rfl
    exact (beginsWithTwoDigits_iff rest).mpr (h [] rest rfl)
  · rintro ⟨hc, hrest⟩ front rest' heq
    cases front with
    | nil =>
      obtain ⟨rfl, rfl⟩ := List.cons.inj heq
      exact (beginsWithTwoDigits_iff rest).mp (hc rfl)
    | cons d front =>
      obtain ⟨-, heq⟩ := List.cons.inj heq
      exact hrest front rest' heq

/-- The search stops at a percent sign that is bad and passes over everything else. -/
theorem invalidEscapeFrom?_cons (offset : Nat) (c : CodePoint) (rest : Text) :
    invalidEscapeFrom? offset (c :: rest) =
      if c = percent ∧ beginsWithTwoDigits rest = false then some (offset, c :: rest)
      else invalidEscapeFrom? (offset + 1) rest := by
  rw [invalidEscapeFrom?]
  refine ite_congr ?_ (fun _ => rfl) (fun _ => rfl)
  rw [Bool.not_eq_true']
  rfl

/-- No bad percent sign is found exactly in the texts that have none. -/
theorem invalidEscapeFrom?_eq_none (payload : Text) :
    ∀ offset, invalidEscapeFrom? offset payload = none ↔ Escaped payload := by
  induction payload with
  | nil => exact fun _ => iff_of_true rfl escaped_nil
  | cons c rest ih =>
    intro offset
    rw [invalidEscapeFrom?_cons, escaped_cons]
    split
    next hbad =>
      refine iff_of_false nofun fun h => ?_
      rw [h.1 hbad.1] at hbad
      cases hbad.2
    next hgood =>
      rw [ih]
      refine ⟨fun h => ⟨fun hc => ?_, h⟩, And.right⟩
      cases hdigits : beginsWithTwoDigits rest with
      | true => rfl
      | false => exact absurd ⟨hc, hdigits⟩ hgood

/-- The percent sign that is found is bad, its offset is its place, and none before it is bad. -/
theorem invalidEscapeFrom?_first {payload : Text} {found : Nat × Text} :
    ∀ {offset}, invalidEscapeFrom? offset payload = some found →
      ∃ front rest, payload = front ++ percent :: rest ∧ beginsWithTwoDigits rest = false ∧
        found = (offset + front.length, percent :: rest) ∧
          ∀ front' rest', payload = front' ++ percent :: rest' →
            beginsWithTwoDigits rest' = false → front.length ≤ front'.length := by
  induction payload with
  | nil => exact nofun
  | cons c rest ih =>
    intro offset h
    rw [invalidEscapeFrom?_cons] at h
    split at h
    next hbad =>
      obtain ⟨rfl, hdigits⟩ := hbad
      cases h
      exact ⟨[], rest, rfl, hdigits, rfl, fun _ _ _ _ => Nat.zero_le _⟩
    next hgood =>
      obtain ⟨front, rest₁, rfl, hdigits, hfound, hfirst⟩ := ih h
      refine ⟨c :: front, rest₁, rfl, hdigits, ?_, ?_⟩
      · rw [hfound, List.length_cons, Nat.add_right_comm, Nat.add_assoc]
      · intro front' rest' heq hbad
        cases front' with
        | nil =>
          obtain ⟨rfl, rfl⟩ := List.cons.inj heq
          exact absurd ⟨rfl, hbad⟩ hgood
        | cons d front' =>
          obtain ⟨-, heq⟩ := List.cons.inj heq
          exact Nat.succ_le_succ (hfirst front' rest' heq hbad)

/-! ## Reading part by part -/

theorem escaped_parts (parts : List Part) : Escaped (parts.flatMap Part.written) := by
  induction parts with
  | nil => exact escaped_nil
  | cons part parts ih =>
    rw [List.flatMap_cons]
    cases part with
    | plain c ordinary =>
      exact (escaped_cons ..).mpr ⟨fun h => absurd (CodePoint.char.inj h) ordinary, ih⟩
    | escape high low =>
      have hsign : ∀ (d : Digit) {rest : Text}, Escaped rest → Escaped (.char d.sign :: rest) :=
        fun d _ hrest =>
          (escaped_cons ..).mpr ⟨fun h => absurd (CodePoint.char.inj h) d.sign_ne_percent, hrest⟩
      refine (escaped_cons ..).mpr ⟨fun _ => ?_, hsign high (hsign low ih)⟩
      exact (beginsWithTwoDigits_iff _).mpr ⟨high, low, _, rfl⟩

theorem unescape_of_ne {b : UInt8} (h : b ≠ 0x25) (rest : Bytes) :
    unescape (b :: rest) = b :: unescape rest := by
  rw [unescape.eq_def]
  split
  next heq => cases heq; exact absurd rfl h
  next heq => cases heq; rfl
  next heq => cases heq

/-- Bytes without a percent sign are taken as they are. -/
theorem unescape_append {front : Bytes} (h : 0x25 ∉ front) (rest : Bytes) :
    unescape (front ++ rest) = front ++ unescape rest := by
  induction front with
  | nil => rfl
  | cons b front ih =>
    have hb : b ≠ 0x25 := fun heq => h (heq ▸ List.mem_cons_self)
    have hfront : 0x25 ∉ front := fun hmem => h (List.mem_cons_of_mem b hmem)
    rw [List.cons_append, unescape_of_ne hb, ih hfront, List.cons_append]

theorem hexByte?_sign (d : Digit) :
    hexByte? (UInt8.ofNat d.sign.toNat) = some (UInt8.ofNat d.value.val) := by
  have hsmall : d.sign.toNat < 2 ^ 8 := Nat.lt_trans d.sign_toNat_lt (by decide)
  have hread : CodePoint.ofNat d.sign.toNat = .char d.sign := CodePoint.ofNat_toNat (.char d.sign)
  rw [hexByte?, UInt8.toNat_ofNat_of_lt' hsmall, hread, d.hexValue?_sign]
  rfl

/-- In the bytes of a part and what follows, the part is replaced by what it stands for. -/
theorem unescape_part (part : Part) (rest : Bytes) :
    unescape (part.chars.flatMap String.utf8EncodeChar ++ rest) = part.bytes ++ unescape rest := by
  cases part with
  | plain c ordinary =>
    have hnone : 0x25 ∉ String.utf8EncodeChar c := fun h =>
      ordinary (Char.toNat_inj.mp (Utf8.eq_of_mem_utf8EncodeChar h (by decide)))
    rw [Part.chars, List.flatMap_cons, List.flatMap_nil, List.append_nil]
    exact unescape_append hnone rest
  | escape high low =>
    have hascii : ∀ d : Digit, String.utf8EncodeChar d.sign = [UInt8.ofNat d.sign.toNat] :=
      fun d => Utf8.utf8EncodeChar_of_le (Nat.le_of_lt_succ d.sign_toNat_lt)
    have hbytes : [high.sign, low.sign].flatMap String.utf8EncodeChar =
        [UInt8.ofNat high.sign.toNat, UInt8.ofNat low.sign.toNat] := by
      simp [hascii]
    rw [Part.chars, List.flatMap_cons, hbytes]
    have hpercent : String.utf8EncodeChar '%' = [0x25] := rfl
    rw [hpercent]
    simp only [List.cons_append, List.nil_append, unescape, hexByte?_sign, Part.bytes]
    simp

theorem unescape_parts (parts : List Part) :
    unescape ((parts.flatMap Part.chars).flatMap String.utf8EncodeChar) =
      parts.flatMap Part.bytes := by
  induction parts with
  | nil => rfl
  | cons part parts ih =>
    rw [List.flatMap_cons, List.flatMap_append, unescape_part, ih, List.flatMap_cons]

/-- A payload is read part by part. -/
theorem decode_parts (parts : List Part) :
    decode (.string (scheme ++ parts.flatMap Part.written)) = .ok (parts.flatMap Part.bytes) := by
  have hpayload : payload? (.string (scheme ++ parts.flatMap Part.written)) =
      some (parts.flatMap Part.written) := Command.afterStart?_append ..
  have hgood := (invalidEscapeFrom?_eq_none _ 0).mpr (escaped_parts parts)
  have hchars : parts.flatMap Part.written = (parts.flatMap Part.chars).map .char := by
    rw [List.map_flatMap]
    rfl
  have hbytes := Utf8.encode_map_char (parts.flatMap Part.chars)
  rw [← hchars] at hbytes
  simp only [decode, hpayload, hgood, hbytes, mapError_ok, ok_bind]
  exact congrArg Except.ok (unescape_parts parts)

/-! ## What is accepted, and what the rest is refused for -/

/-- Why a text is refused: it begins otherwise than a data URI, or a percent sign of its payload is
bad, the first of them being the one that is named by its offset. -/
inductive Refused (t : Text) : Fault → Prop
  | unsupported (h : ∀ payload, t ≠ scheme ++ payload) : Refused t (.unsupported (.string t))
  | invalidEscape (front rest : Text) (h : t = scheme ++ (front ++ percent :: rest))
      (bad : ¬ TwoDigits rest)
      (first : ∀ front' rest', t = scheme ++ (front' ++ percent :: rest') → ¬ TwoDigits rest' →
        front.length ≤ front'.length) :
      Refused t (.invalidEscape front.length ((percent :: rest).take 3))

theorem payload?_append (payload : Text) :
    payload? (.string (scheme ++ payload)) = some payload :=
  Command.afterStart?_append ..

/-- Texts without lone halves of pairs are read in one of three ways. -/
theorem decode_cases {t : Text} (hvalid : ∀ c ∈ t, c.isSurrogate = false) :
    (∃ parts : List Part, t = scheme ++ parts.flatMap Part.written ∧
      decode (.string t) = .ok (parts.flatMap Part.bytes)) ∨
    (¬ (∃ payload, t = scheme ++ payload ∧ Escaped payload) ∧
      ∃ fault, decode (.string t) = .error fault ∧ Failure.ofSourceFault fault = .source fault ∧
        Refused t fault) := by
  cases hpayload : payload? (.string t) with
  | none =>
    have hscheme : ∀ payload, t ≠ scheme ++ payload := by
      rintro payload rfl
      rw [payload?_append] at hpayload
      cases hpayload
    refine .inr ⟨fun ⟨payload, h, _⟩ => hscheme payload h, _, ?_, rfl, .unsupported hscheme⟩
    rw [decode, hpayload]
  | some payload =>
    have ht : t = scheme ++ payload := Command.eq_of_afterStart? hpayload
    cases hfound : invalidEscapeFrom? 0 payload with
    | none =>
      have hescaped := (invalidEscapeFrom?_eq_none payload 0).mp hfound
      have hrest : ∀ c ∈ payload, c.isSurrogate = false := fun c hc =>
        hvalid c (ht ▸ List.mem_append_right scheme hc)
      obtain ⟨parts, rfl⟩ := exists_parts hrest hescaped
      exact .inl ⟨parts, ht, ht ▸ decode_parts parts⟩
    | some found =>
      obtain ⟨front, rest, rfl, hdigits, rfl, hfirst⟩ := invalidEscapeFrom?_first hfound
      have hbad : ∀ {rest : Text}, beginsWithTwoDigits rest = false ↔ ¬ TwoDigits rest := by
        intro rest
        rw [← beginsWithTwoDigits_iff, Bool.not_eq_true]
      refine .inr ⟨?_, .invalidEscape front.length ((percent :: rest).take 3), ?_, rfl, ?_⟩
      · rintro ⟨payload, h, hescaped⟩
        obtain rfl := List.append_cancel_left (ht.symm.trans h)
        exact hbad.mp hdigits (hescaped front rest rfl)
      · simp only [decode, hpayload, hfound, Nat.zero_add]
        rfl
      · refine .invalidEscape front rest ht (hbad.mp hdigits) fun front' rest' h hbad' => ?_
        exact hfirst front' rest' (List.append_cancel_left (ht.symm.trans h)) (hbad.mpr hbad')

/-! ## Ways of writing bytes -/

/-- The escape of a byte, with the choice of capitals for its two digits. -/
def escapeByte (capitals : Bool × Bool) (b : UInt8) : Part :=
  .escape ⟨⟨b.toNat / 16, Nat.div_lt_of_lt_mul b.toNat_lt⟩, capitals.1⟩
    ⟨⟨b.toNat % 16, Nat.mod_lt _ (by decide)⟩, capitals.2⟩

theorem bytes_escapeByte (capitals : Bool × Bool) (b : UInt8) :
    (escapeByte capitals b).bytes = [b] := by
  have hsame : b.toNat / 16 * 16 + b.toNat % 16 = b.toNat := Nat.div_add_mod' ..
  rw [escapeByte, Part.bytes]
  dsimp only
  rw [hsame, UInt8.ofNat_toNat]

/-- Escaping the byte of an escape again, with the capitals of its digits, gives the escape. -/
theorem escapeByte_bytes (high low : Digit) {b : UInt8}
    (h : (Part.escape high low).bytes = [b]) :
    escapeByte (high.capital, low.capital) b = .escape high low := by
  have hb : b.toNat = high.value.val * 16 + low.value.val := by
    rw [← List.singleton_inj.mp h]
    exact UInt8.toNat_ofNat_of_lt' (show high.value.val * 16 + low.value.val < 256 by omega)
  have hhigh : b.toNat / 16 = high.value.val := by omega
  have hlow : b.toNat % 16 = low.value.val := by omega
  obtain ⟨⟨high, _⟩, _⟩ := high
  obtain ⟨⟨low, _⟩, _⟩ := low
  simp only [escapeByte, hhigh, hlow]

/-- One piece of a way to write bytes: a byte escaped, or a stretch of UTF-8 left as it is. -/
inductive Piece
  | escaped (b : UInt8) (capitals : Bool × Bool)
  | raw (stretch : Bytes) (t : Text) (valid : Utf8.decode stretch = .ok t) (ordinary : percent ∉ t)

namespace Piece

/-- A piece as it stands in a payload. -/
def written : Piece → Text
  | escaped b capitals => (escapeByte capitals b).written
  | raw _ t _ _ => t

/-- The bytes that a piece writes. -/
def bytes : Piece → Bytes
  | escaped b _ => [b]
  | raw stretch _ _ _ => stretch

end Piece

/-- A text without percent signs is made of characters alone. -/
theorem exists_plain {t : Text} (hvalid : ∀ c ∈ t, c.isSurrogate = false) (h : percent ∉ t) :
    ∃ parts : List Part, parts.flatMap Part.written = t ∧
      parts.flatMap Part.bytes = (parts.flatMap Part.chars).flatMap String.utf8EncodeChar := by
  induction t with
  | nil => exact ⟨[], rfl, rfl⟩
  | cons c t ih =>
    obtain ⟨hc, ht⟩ := List.forall_mem_cons.mp hvalid
    obtain ⟨parts, hwritten, hbytes⟩ := ih ht fun hmem => h (List.mem_cons_of_mem c hmem)
    cases c with
    | surrogate half => cases hc
    | char c =>
      have ordinary : c ≠ '%' := by
        rintro rfl
        exact h List.mem_cons_self
      refine ⟨.plain c ordinary :: parts, ?_, ?_⟩
      · rw [List.flatMap_cons, hwritten]
        rfl
      · rw [List.flatMap_cons, hbytes, List.flatMap_cons, List.flatMap_append]
        simp [Part.bytes, Part.chars]

/-- A piece is made of parts that stand for its bytes. -/
theorem Piece.exists_parts (piece : Piece) :
    ∃ parts : List Part, parts.flatMap Part.written = piece.written ∧
      parts.flatMap Part.bytes = piece.bytes := by
  cases piece with
  | escaped b capitals =>
    refine ⟨[escapeByte capitals b], by rw [List.flatMap_singleton]; rfl, ?_⟩
    rw [List.flatMap_singleton]
    exact bytes_escapeByte capitals b
  | raw stretch t valid ordinary =>
    obtain ⟨parts, hwritten, hbytes⟩ := exists_plain (Utf8.isSurrogate_of_decode valid) ordinary
    have hencoded := Utf8.encode_map_char (parts.flatMap Part.chars)
    rw [List.map_flatMap, ← hbytes] at hencoded
    have hstretch : Utf8.encode (parts.flatMap Part.written) = .ok stretch :=
      hwritten.symm ▸ Utf8.encode_decode valid
    exact ⟨parts, hwritten, Except.ok.inj (hencoded.symm.trans hstretch)⟩

theorem exists_parts_of_pieces (pieces : List Piece) :
    ∃ parts : List Part, parts.flatMap Part.written = pieces.flatMap Piece.written ∧
      parts.flatMap Part.bytes = pieces.flatMap Piece.bytes := by
  induction pieces with
  | nil => exact ⟨[], rfl, rfl⟩
  | cons piece pieces ih =>
    obtain ⟨first, hwritten, hbytes⟩ := piece.exists_parts
    obtain ⟨parts, hwritten', hbytes'⟩ := ih
    refine ⟨first ++ parts, ?_, ?_⟩
    · rw [List.flatMap_append, hwritten, hwritten', List.flatMap_cons]
    · rw [List.flatMap_append, hbytes, hbytes', List.flatMap_cons]

/-- However bytes are written as a payload, reading it gives them back. -/
theorem decode_pieces (pieces : List Piece) :
    decode (.string (scheme ++ pieces.flatMap Piece.written)) =
      .ok (pieces.flatMap Piece.bytes) := by
  obtain ⟨parts, hwritten, hbytes⟩ := exists_parts_of_pieces pieces
  rw [← hwritten, ← hbytes]
  exact decode_parts parts

/-- What a payload of escapes alone is read as gives the payload back when each of its bytes is
escaped again, with the capitals that the payload has. -/
theorem escape_decode_escapes (escapes : List (Digit × Digit)) {bytes : Bytes}
    (h : decode (.string (scheme ++ escapes.flatMap fun e => (Part.escape e.1 e.2).written)) =
      .ok bytes) :
    (List.zipWith escapeByte (escapes.map fun e => (e.1.capital, e.2.capital)) bytes).flatMap
      Part.written = escapes.flatMap fun e => (Part.escape e.1 e.2).written := by
  have hread := decode_parts (escapes.map fun e => .escape e.1 e.2)
  rw [List.flatMap_map, h, List.flatMap_map] at hread
  obtain rfl := Except.ok.inj hread
  clear h hread
  induction escapes with
  | nil => rfl
  | cons e escapes ih =>
    rw [List.flatMap_cons, List.map_cons, List.flatMap_cons, ← ih]
    have hagain := escapeByte_bytes e.1 e.2 rfl
    rw [Part.bytes, List.singleton_append, List.zipWith_cons_cons, List.flatMap_cons, hagain]

/-- A data URI is read exactly if each percent sign of its payload has two digits behind it, as the
bytes of its parts from left to right; every other text is refused, for the first bad percent sign
if there is one. So whichever way bytes are written as a payload, they are read back, and a payload
of escapes alone is got back by escaping what was read. -/
theorem decode_reads_parts {t : Text} (hvalid : ∀ c ∈ t, c.isSurrogate = false) :
    ((∃ bytes, decode (.string t) = .ok bytes) ↔
      ∃ payload, t = scheme ++ payload ∧ Escaped payload) ∧
    (∀ bytes, decode (.string t) = .ok bytes ↔
      ∃ parts : List Part,
        t = scheme ++ parts.flatMap Part.written ∧ bytes = parts.flatMap Part.bytes) ∧
    (∀ failure, (decode (.string t)).mapError Failure.ofSourceFault = .error failure →
      ∃ fault, failure = .source fault ∧ Refused t fault) ∧
    (∀ pieces : List Piece,
      decode (.string (scheme ++ pieces.flatMap Piece.written)) =
        .ok (pieces.flatMap Piece.bytes)) ∧
    ∀ (escapes : List (Digit × Digit)) (bytes : Bytes),
      decode (.string (scheme ++ escapes.flatMap fun e => (Part.escape e.1 e.2).written)) =
        .ok bytes →
      (List.zipWith escapeByte (escapes.map fun e => (e.1.capital, e.2.capital)) bytes).flatMap
        Part.written = escapes.flatMap fun e => (Part.escape e.1 e.2).written := by
  have hread : ∀ bytes, decode (.string t) = .ok bytes ↔
      ∃ parts : List Part,
        t = scheme ++ parts.flatMap Part.written ∧ bytes = parts.flatMap Part.bytes := by
    intro bytes
    constructor
    · intro h
      obtain ⟨parts, ht, hok⟩ | ⟨-, fault, herror, -⟩ := decode_cases hvalid
      · exact ⟨parts, ht, Except.ok.inj (h.symm.trans hok)⟩
      · cases h.symm.trans herror
    · rintro ⟨parts, rfl, rfl⟩
      exact decode_parts parts
  refine ⟨?_, hread, ?_, decode_pieces, fun escapes _ => escape_decode_escapes escapes⟩
  · obtain ⟨parts, ht, hok⟩ | ⟨hnone, fault, herror, -⟩ := decode_cases hvalid
    · exact iff_of_true ⟨_, hok⟩ ⟨_, ht, escaped_parts parts⟩
    · exact iff_of_false (fun ⟨bytes, hok⟩ => nomatch hok.symm.trans herror) hnone
  · intro failure h
    obtain ⟨parts, -, hok⟩ | ⟨-, fault, herror, hsource, hrefused⟩ := decode_cases hvalid
    · rw [hok] at h
      cases h
    · rw [herror] at h
      cases h
      exact ⟨fault, hsource, hrefused⟩

/-- A raw character of two bytes, and one byte escaped in either case. -/
theorem decode_reads_parts_mixed :
    decode (.string (text "data:,é%2f%2F")) = .ok [0xC3, 0xA9, 0x2F, 0x2F] :=
  ((decode_reads_parts (by decide)).2.1 _).mpr
    ⟨[.plain 'é' (by decide), .escape ⟨2, false⟩ ⟨15, false⟩, .escape ⟨2, false⟩ ⟨15, true⟩],
      by decide, by decide⟩

end NodeBootstrap.DataUri
