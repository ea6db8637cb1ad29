import NodeBootstrap.Json.Writer
import NodeBootstrap.Proofs.Json.Locality
import NodeBootstrap.Proofs.Text.Utf8

/-!
# Written strings are read back

The writer escapes quotes, backslashes and control characters and leaves every other code point as
it is or, in ASCII, escapes it by its number. The reader takes each of these forms for the code
point it was written for, so a written string is read back as the string it is of.

In ASCII this needs that no half of a surrogate pair stands alone: two halves that are escaped one
behind the other are read as one character.
-/

set_option autoImplicit false

namespace NodeBootstrap.Json

/-! ## Four digits -/

/-- A hexadecimal digit. -/
private def hexDigit (n : Nat) : CodePoint := .char (Nat.digitChar n)

private theorem hexValue?_hexDigit {n : Nat} (h : n < 16) : (hexDigit n).hexValue? = some n := by
  have hall : ∀ n : Fin 16, (hexDigit n.val).hexValue? = some n.val := by decide
  exact hall ⟨n, h⟩

private theorem ofHex_one {n : Nat} (h : n < 16) : Text.ofHex 1 n = [hexDigit n] := by
  rw [Text.ofHex, Nat.toDigits_of_lt_base h]
  rfl

/-- The last of several digits; zeros are filled up in front. -/
private theorem ofHex_succ {width : Nat} (hwidth : 0 < width) (n : Nat) :
    Text.ofHex (width + 1) n = Text.ofHex width (n / 16) ++ [hexDigit (n % 16)] := by
  obtain ⟨width, rfl⟩ := Nat.exists_eq_add_one.mpr hwidth
  by_cases hn : n < 16
  · have hzero : n / 16 = 0 := Nat.div_eq_of_lt hn
    rw [hzero, Nat.mod_eq_of_lt hn, Text.ofHex, Text.ofHex, Nat.toDigits_of_lt_base hn,
      Nat.toDigits_of_lt_base (by decide)]
    simp only [List.length_singleton, Nat.add_sub_cancel, List.replicate_succ', List.map_append,
      List.map_cons, List.map_nil, List.append_assoc]
    rfl
  · rw [Text.ofHex, Text.ofHex, Nat.toDigits_of_base_le (by decide) (Nat.le_of_not_lt hn)]
    simp only [List.length_append, List.length_singleton, Nat.add_sub_add_right, List.map_append,
      List.map_cons, List.map_nil, List.append_assoc]
    rfl

/-- Four digits name the code point of the number that they write. -/
theorem hexUnit?_ofHex {n : Nat} (h : n < 0x10000) :
    ∃ a b c d, Text.ofHex 4 n = [a, b, c, d] ∧ hexUnit? a b c d = some (.ofNat n) := by
  have hfirst : n / 16 / 16 / 16 < 16 := by omega
  refine ⟨hexDigit (n / 16 / 16 / 16), hexDigit (n / 16 / 16 % 16), hexDigit (n / 16 % 16),
    hexDigit (n % 16), ?_, ?_⟩
  · rw [ofHex_succ (by decide), ofHex_succ (by decide), ofHex_succ (by decide), ofHex_one hfirst]
    rfl
  · have hdigit : ∀ n, (hexDigit (n % 16)).hexValue? = some (n % 16) := fun n =>
      hexValue?_hexDigit (Nat.mod_lt n (by decide))
    have hnumber : ((n / 16 / 16 / 16 * 16 + n / 16 / 16 % 16) * 16 + n / 16 % 16) * 16 + n % 16 =
        n := by omega
    simp only [hexUnit?, hexValue?_hexDigit hfirst, hdigit, Option.bind_eq_bind, Option.bind_some,
      hnumber]
    rfl

/-! ## One code point -/

/-- The letter that a code point is escaped with stands for that code point. -/
theorem simpleEscape?_escapeLetter? {c : CodePoint} {letter : Char}
    (h : escapeLetter? c = some letter) : simpleEscape? (.char letter) = some c := by
  unfold escapeLetter? at h
  split at h <;> cases h <;> rfl

section Escapes

variable {body s : Text} {c : CodePoint}

/-- An escape of four digits in front of a spelling. -/
private theorem SpellsString.fourDigits (hsmall : c.toNat < 0x10000) (h : SpellsString body s) :
    SpellsString (text "\\u" ++ Text.ofHex 4 c.toNat ++ body)
      (joinEscape c (body ++ [.char '"']) s) := by
  obtain ⟨a, b, x, d, hdigits, hunit⟩ := hexUnit?_ofHex hsmall
  rw [CodePoint.ofNat_toNat] at hunit
  rw [hdigits]
  exact h.unicode hunit

/-- A code point that is no first half does not look at what follows. -/
private theorem joinEscape_of_not_high (h : c.isHighSurrogate = false) (rest following : Text) :
    joinEscape c rest following = c :: following := by
  simp only [joinEscape, h, Bool.false_and, Bool.false_eq_true, if_false]

/-- The escape of a second half is seen by the first. -/
private theorem beginsWithLowEscape_ofHex (h : c.isLowSurrogate = true) (rest : Text) :
    beginsWithLowEscape (text "\\u" ++ Text.ofHex 4 c.toNat ++ rest) = true := by
  have hsmall : c.toNat < 0xE000 := by
    rw [CodePoint.isLowSurrogate, Bool.and_eq_true, decide_eq_true_eq, decide_eq_true_eq] at h
    exact h.2
  obtain ⟨a, b, x, d, hdigits, hunit⟩ := hexUnit?_ofHex (n := c.toNat) (by omega)
  rw [CodePoint.ofNat_toNat] at hunit
  rw [hdigits]
  exact beginsWithLowEscape_iff.mpr ⟨a, b, x, d, rest, c, rfl, hunit, h⟩

/-- The escapes of two halves in front of a spelling are one character. -/
private theorem SpellsString.pair {first second : CodePoint} (hfirst : first.isHighSurrogate = true)
    (hsecond : second.isLowSurrogate = true) (h : SpellsString body s) :
    SpellsString
      (text "\\u" ++ Text.ofHex 4 first.toNat ++ (text "\\u" ++ Text.ofHex 4 second.toNat ++ body))
      (.joinSurrogates first second :: s) := by
  obtain ⟨-, hfirstSmall⟩ : 0xD800 ≤ first.toNat ∧ first.toNat < 0xDC00 := by
    simpa [CodePoint.isHighSurrogate] using hfirst
  obtain ⟨hsecondLarge, hsecondSmall⟩ : 0xDC00 ≤ second.toNat ∧ second.toNat < 0xE000 := by
    simpa [CodePoint.isLowSurrogate] using hsecond
  have halone : second.isHighSurrogate = false := by
    simp only [CodePoint.isHighSurrogate, Bool.and_eq_false_iff, decide_eq_false_iff_not]
    omega
  have hbehind := h.fourDigits (c := second) (by omega)
  rw [joinEscape_of_not_high halone] at hbehind
  have hboth := hbehind.fourDigits (c := first) (by omega)
  have hseen := beginsWithLowEscape_ofHex hsecond (body ++ [.char '"'])
  rw [← List.append_assoc] at hseen
  rwa [joinEscape, hfirst, hseen] at hboth

/-- A code point above U+FFFF is escaped as two halves that make it up. -/
private theorem exists_halves {n : Nat} (hlow : 0x10000 ≤ n) (hhigh : n < 0x110000) :
    ∃ first second : CodePoint,
      first.isHighSurrogate = true ∧ second.isLowSurrogate = true ∧
        CodePoint.joinSurrogates first second = .ofNat n ∧
        unicodeEscape n =
          text "\\u" ++ Text.ofHex 4 first.toNat ++ (text "\\u" ++ Text.ofHex 4 second.toNat) := by
  have hhalf : ∀ k, k < 2048 → ∃ c : CodePoint, c.toNat = 0xD800 + k := fun k hk =>
    ⟨.surrogate ⟨k, hk⟩, rfl⟩
  obtain ⟨first, hfirst⟩ := hhalf ((n - 0x10000) / 0x400) (by omega)
  obtain ⟨second, hsecond⟩ := hhalf (0x400 + (n - 0x10000) % 0x400) (by omega)
  replace hsecond : second.toNat = 0xDC00 + (n - 0x10000) % 0x400 := by omega
  refine ⟨first, second, ?_, ?_, ?_, ?_⟩
  · simp only [CodePoint.isHighSurrogate, Bool.and_eq_true, decide_eq_true_eq]
    omega
  · simp only [CodePoint.isLowSurrogate, Bool.and_eq_true, decide_eq_true_eq]
    omega
  · rw [CodePoint.joinSurrogates, hfirst, hsecond]
    exact congrArg CodePoint.ofNat (by omega)
  · rw [unicodeEscape, if_neg (Nat.not_lt.mpr hlow), hfirst, hsecond, List.append_assoc]

/-- The escape of a code point by its number, unless it opens a pair. -/
private theorem SpellsString.unicodeEscape (hc : c.isHighSurrogate = false)
    (h : SpellsString body s) : SpellsString (Json.unicodeEscape c.toNat ++ body) (c :: s) := by
  by_cases hsmall : c.toNat < 0x10000
  · have hunit := h.fourDigits hsmall
    rw [joinEscape_of_not_high hc] at hunit
    rw [Json.unicodeEscape, if_pos hsmall]
    exact hunit
  · have hbound : c.toNat < 0x110000 := by
      cases c with
      | char c =>
        have hvalid : c.toNat.isValidChar := c.valid
        rcases hvalid with hvalid | hvalid
        · exact Nat.lt_trans hvalid (by decide)
        · exact hvalid.2
      | surrogate half =>
        have htoNat : (CodePoint.surrogate half).toNat = 0xD800 + half.val := rfl
        omega
    obtain ⟨first, second, hfirst, hsecond, hjoined, hescape⟩ :=
      exists_halves (Nat.le_of_not_lt hsmall) hbound
    have hpair := h.pair hfirst hsecond
    rw [hjoined, CodePoint.ofNat_toNat] at hpair
    rw [hescape, List.append_assoc]
    exact hpair

/-- One more code point in front of a spelling. In ASCII it is to be a character. -/
theorem SpellsString.escaped {asciiOnly : Bool} (hc : asciiOnly = true → c.isSurrogate = false)
    (h : SpellsString body s) : SpellsString (Json.escaped asciiOnly c ++ body) (c :: s) := by
  unfold Json.escaped
  split
  next letter hletter => exact h.simple (simpleEscape?_escapeLetter? hletter)
  next hletter =>
    split
    next hnumber =>
      refine h.unicodeEscape ?_
      simp only [CodePoint.isHighSurrogate, Bool.and_eq_false_iff, decide_eq_false_iff_not]
      cases c with
      | char c =>
        have hvalid : c.toNat.isValidChar := c.valid
        have htoNat : (CodePoint.char c).toNat = c.toNat := rfl
        rcases hvalid with hvalid | hvalid <;> omega
      | surrogate half =>
        rcases hnumber with hcontrol | ⟨hascii, -⟩
        · omega
        · cases hc hascii
    next hplain =>
      have hquote : c ≠ .char '"' := by rintro rfl; cases hletter
      have hback : c ≠ .char '\\' := by rintro rfl; cases hletter
      exact h.plain hquote hback fun hlow => hplain (.inl hlow)

end Escapes

/-! ## Strings -/

private theorem spellsString_flatMap {asciiOnly : Bool} {t : Text}
    (h : asciiOnly = true → ∀ c ∈ t, c.isSurrogate = false) :
    SpellsString (t.flatMap (escaped asciiOnly)) t := by
  induction t with
  | nil => exact spellsString_nil
  | cons c t ih =>
    have hrest : asciiOnly = true → ∀ d ∈ t, d.isSurrogate = false := fun hascii =>
      (List.forall_mem_cons.mp (h hascii)).2
    exact (ih hrest).escaped fun hascii => h hascii c List.mem_cons_self

/-- What stands between the quotes of a written string spells it. -/
theorem spellsString_escaped (t : Text) : SpellsString (t.flatMap (escaped false)) t :=
  spellsString_flatMap nofun

/-- In ASCII it spells a string without halves of pairs. -/
theorem spellsString_escapedAscii {t : Text} (h : ∀ c ∈ t, c.isSurrogate = false) :
    SpellsString (t.flatMap (escaped true)) t := spellsString_flatMap fun _ => h

/-- A written string is read back. -/
theorem reads_stringText (t : Text) :
    Reads readValue anything (stringText false t) (.string t) :=
  reads_string (spellsString_escaped t)

end NodeBootstrap.Json
