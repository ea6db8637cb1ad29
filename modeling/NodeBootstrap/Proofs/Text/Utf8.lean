import NodeBootstrap.Proofs.Outcome
import NodeBootstrap.Text.Utf8

/-!
# Texts survive their bytes

What is written as UTF-8 is read back strictly as the same text (`decode_encode`), and what is read
strictly is written as the same bytes (`encode_decode`). Both laws go by one character: its bytes
are a lead byte with its continuation bytes, the reader finds exactly these, and finds no others.
-/

set_option autoImplicit false

namespace NodeBootstrap

/-- A literal is the string of its characters, so as a text it needs no reading of the string. -/
theorem text_ofList (cs : List Char) : text (String.ofList cs) = cs.map .char := by
  rw [text, String.toList_ofList]

theorem text_append {first second : String} {t t' : Text} (h : text first = t)
    (h' : text second = t') : text (first ++ second) = t ++ t' := by
  rw [← h, ← h', text, String.toList_append, List.map_append]
  rfl

/-- A code point is the one of its number. -/
theorem CodePoint.ofNat_toNat (c : CodePoint) : CodePoint.ofNat c.toNat = c := by
  cases c with
  | char c =>
    have hvalid : c.toNat.isValidChar := c.valid
    have hfound : CodePoint.ofNat? c.toNat = some (.char c) := dif_pos hvalid
    exact congrArg (Option.getD · (.char '\ufffd')) hfound
  | surrogate half =>
    have hinvalid : ¬ (0xD800 + half.val).isValidChar := by
      have hhalf := half.isLt
      rintro (h | h) <;> omega
    have hgap : 0xD800 ≤ 0xD800 + half.val ∧ 0xD800 + half.val < 0xE000 := by
      have hhalf := half.isLt
      omega
    have hfound : CodePoint.ofNat? (0xD800 + half.val) = some (.surrogate half) := by
      have hsame : 0xD800 + half.val - 0xD800 = half.val := Nat.add_sub_cancel_left ..
      rw [CodePoint.ofNat?, dif_neg hinvalid, dif_pos hgap]
      exact congrArg (fun h => some (CodePoint.surrogate h)) (Fin.ext hsame)
    exact congrArg (Option.getD · (.char '\ufffd')) hfound

namespace Utf8

/-! ## Bytes by their numbers -/

private theorem byte_toNat {n : Nat} (hn : n < 256) : (UInt8.ofNat n).toNat = n :=
  UInt8.toNat_ofNat_of_lt' hn

private theorem byte_lt {n k : Nat} (hn : n < 256) (hk : k < 256) :
    UInt8.ofNat n < UInt8.ofNat k ↔ n < k := by
  rw [UInt8.lt_iff_toNat_lt, byte_toNat hn, byte_toNat hk]

private theorem byte_le {n k : Nat} (hn : n < 256) (hk : k < 256) :
    UInt8.ofNat n ≤ UInt8.ofNat k ↔ n ≤ k := by
  rw [UInt8.le_iff_toNat_le, byte_toNat hn, byte_toNat hk]

private theorem byte_eq {n k : Nat} (hn : n < 256) (hk : k < 256) :
    UInt8.ofNat n = UInt8.ofNat k ↔ n = k := by
  rw [← UInt8.toNat_inj, byte_toNat hn, byte_toNat hk]

/-- A continuation byte by the six bits that it carries. -/
private theorem continuation_byte {n : Nat} (hn : n < 64) :
    isContinuation (UInt8.ofNat (n + 0x80)) = true ∧ low6 (UInt8.ofNat (n + 0x80)) = n := by
  have hlow : UInt8.ofNat 0x80 ≤ UInt8.ofNat (n + 0x80) :=
    (byte_le (by omega) (by omega)).mpr (by omega)
  have hhigh : UInt8.ofNat (n + 0x80) < UInt8.ofNat 0xC0 :=
    (byte_lt (by omega) (by omega)).mpr (by omega)
  refine ⟨Bool.and_eq_true_iff.mpr ⟨decide_eq_true hlow, decide_eq_true hhigh⟩, ?_⟩
  rw [low6, byte_toNat (by omega)]
  omega

/-! ## One character -/

private theorem sequenceAt_one {v : Nat} (hv : v ≤ 0x7f) (rest : Bytes) :
    sequenceAt false (UInt8.ofNat v) rest = .scalar v 1 := by
  have hlead : UInt8.ofNat v < UInt8.ofNat 0x80 :=
    (byte_lt (by omega) (by omega)).mpr (by omega)
  rw [sequenceAt.eq_def, byte_toNat (by omega)]
  exact if_pos hlead

private theorem sequenceAt_two {v : Nat} (hlow : 0x7f < v) (hhigh : v ≤ 0x7ff) (rest : Bytes) :
    sequenceAt false (UInt8.ofNat (v / 64 % 0x20 + 0xc0))
      (UInt8.ofNat (v % 0x40 + 0x80) :: rest) = .scalar v 2 := by
  obtain ⟨hcontinuation, hbits⟩ := continuation_byte (Nat.mod_lt v (by decide : 0 < 64))
  have h₁ : ¬ UInt8.ofNat (v / 64 % 0x20 + 0xc0) < 0x80 :=
    mt (byte_lt (by omega) (by omega : 0x80 < 256)).mp (by omega)
  have h₂ : ¬ UInt8.ofNat (v / 64 % 0x20 + 0xc0) < 0xC2 :=
    mt (byte_lt (by omega) (by omega : 0xC2 < 256)).mp (by omega)
  have h₃ : UInt8.ofNat (v / 64 % 0x20 + 0xc0) < 0xE0 :=
    (byte_lt (by omega) (by omega : 0xE0 < 256)).mpr (by omega)
  simp only [sequenceAt, if_neg h₁, if_neg h₂, if_pos h₃, hcontinuation, if_true, hbits,
    byte_toNat (show v / 64 % 0x20 + 0xc0 < 256 by omega)]
  congr 1
  omega

/-- The bounds that a second byte of three has beside being a continuation byte. -/
private theorem secondFits_three {v : Nat} (hlow : 0x7ff < v) (hhigh : v ≤ 0xffff)
    (hvalid : v.isValidChar) :
    secondFits false (UInt8.ofNat (v / 4096 % 0x10 + 0xe0))
      (UInt8.ofNat (v / 64 % 0x40 + 0x80)) = true := by
  have hcontinuation := (continuation_byte (Nat.mod_lt (v / 64) (by decide : 0 < 64))).1
  have hvalid' : v < 0xd800 ∨ 0xdfff < v := by
    rcases hvalid with h | h <;> omega
  simp only [secondFits, hcontinuation, Bool.true_and]
  split
  next hlead =>
    have hlead := (byte_eq (by omega) (by omega : 0xE0 < 256)).mp hlead
    exact decide_eq_true ((byte_le (by omega : 0xA0 < 256) (by omega)).mpr (by omega))
  next =>
    split
    next hlead =>
      have hlead := (byte_eq (by omega) (by omega : 0xED < 256)).mp hlead
      rw [Bool.false_or]
      exact decide_eq_true ((byte_lt (by omega) (by omega : 0xA0 < 256)).mpr (by omega))
    next =>
      have hf0 : UInt8.ofNat (v / 4096 % 0x10 + 0xe0) ≠ 0xF0 :=
        mt (byte_eq (by omega) (by omega : 0xF0 < 256)).mp (by omega)
      have hf4 : UInt8.ofNat (v / 4096 % 0x10 + 0xe0) ≠ 0xF4 :=
        mt (byte_eq (by omega) (by omega : 0xF4 < 256)).mp (by omega)
      rw [if_neg hf0, if_neg hf4]

private theorem sequenceAt_three {v : Nat} (hlow : 0x7ff < v) (hhigh : v ≤ 0xffff)
    (hvalid : v.isValidChar) (rest : Bytes) :
    sequenceAt false (UInt8.ofNat (v / 4096 % 0x10 + 0xe0))
      (UInt8.ofNat (v / 64 % 0x40 + 0x80) :: UInt8.ofNat (v % 0x40 + 0x80) :: rest) =
        .scalar v 3 := by
  obtain ⟨-, hbits₁⟩ := continuation_byte (Nat.mod_lt (v / 64) (by decide : 0 < 64))
  obtain ⟨hcontinuation, hbits₂⟩ := continuation_byte (Nat.mod_lt v (by decide : 0 < 64))
  have h₁ : ¬ UInt8.ofNat (v / 4096 % 0x10 + 0xe0) < 0x80 :=
    mt (byte_lt (by omega) (by omega : 0x80 < 256)).mp (by omega)
  have h₂ : ¬ UInt8.ofNat (v / 4096 % 0x10 + 0xe0) < 0xC2 :=
    mt (byte_lt (by omega) (by omega : 0xC2 < 256)).mp (by omega)
  have h₃ : ¬ UInt8.ofNat (v / 4096 % 0x10 + 0xe0) < 0xE0 :=
    mt (byte_lt (by omega) (by omega : 0xE0 < 256)).mp (by omega)
  have h₄ : UInt8.ofNat (v / 4096 % 0x10 + 0xe0) < 0xF0 :=
    (byte_lt (by omega) (by omega : 0xF0 < 256)).mpr (by omega)
  simp only [sequenceAt, if_neg h₁, if_neg h₂, if_neg h₃, if_pos h₄,
    secondFits_three hlow hhigh hvalid, Bool.not_true, Bool.false_eq_true, if_false, hcontinuation,
    if_true, hbits₁, hbits₂, byte_toNat (show v / 4096 % 0x10 + 0xe0 < 256 by omega)]
  congr 1
  omega

/-- The bounds that a second byte of four has beside being a continuation byte. -/
private theorem secondFits_four {v : Nat} (hlow : 0xffff < v) (hvalid : v.isValidChar) :
    secondFits false (UInt8.ofNat (v / 262144 % 0x08 + 0xf0))
      (UInt8.ofNat (v / 4096 % 0x40 + 0x80)) = true := by
  have hcontinuation := (continuation_byte (Nat.mod_lt (v / 4096) (by decide : 0 < 64))).1
  have hhigh : v < 0x110000 := by rcases hvalid with h | h <;> omega
  have he0 : UInt8.ofNat (v / 262144 % 0x08 + 0xf0) ≠ 0xE0 :=
    mt (byte_eq (by omega) (by omega : 0xE0 < 256)).mp (by omega)
  have hed : UInt8.ofNat (v / 262144 % 0x08 + 0xf0) ≠ 0xED :=
    mt (byte_eq (by omega) (by omega : 0xED < 256)).mp (by omega)
  simp only [secondFits, hcontinuation, Bool.true_and, if_neg he0, if_neg hed]
  split
  next hlead =>
    have hlead := (byte_eq (by omega) (by omega : 0xF0 < 256)).mp hlead
    exact decide_eq_true ((byte_le (by omega : 0x90 < 256) (by omega)).mpr (by omega))
  next =>
    split
    next hlead =>
      have hlead := (byte_eq (by omega) (by omega : 0xF4 < 256)).mp hlead
      exact decide_eq_true ((byte_lt (by omega) (by omega : 0x90 < 256)).mpr (by omega))
    next => rfl

private theorem sequenceAt_four {v : Nat} (hlow : 0xffff < v) (hvalid : v.isValidChar)
    (rest : Bytes) :
    sequenceAt false (UInt8.ofNat (v / 262144 % 0x08 + 0xf0))
      (UInt8.ofNat (v / 4096 % 0x40 + 0x80) :: UInt8.ofNat (v / 64 % 0x40 + 0x80) ::
        UInt8.ofNat (v % 0x40 + 0x80) :: rest) = .scalar v 4 := by
  obtain ⟨-, hbits₁⟩ := continuation_byte (Nat.mod_lt (v / 4096) (by decide : 0 < 64))
  obtain ⟨hcontinuation₂, hbits₂⟩ := continuation_byte (Nat.mod_lt (v / 64) (by decide : 0 < 64))
  obtain ⟨hcontinuation₃, hbits₃⟩ := continuation_byte (Nat.mod_lt v (by decide : 0 < 64))
  have hhigh : v < 0x110000 := by rcases hvalid with h | h <;> omega
  have h₁ : ¬ UInt8.ofNat (v / 262144 % 0x08 + 0xf0) < 0x80 :=
    mt (byte_lt (by omega) (by omega : 0x80 < 256)).mp (by omega)
  have h₂ : ¬ UInt8.ofNat (v / 262144 % 0x08 + 0xf0) < 0xC2 :=
    mt (byte_lt (by omega) (by omega : 0xC2 < 256)).mp (by omega)
  have h₃ : ¬ UInt8.ofNat (v / 262144 % 0x08 + 0xf0) < 0xE0 :=
    mt (byte_lt (by omega) (by omega : 0xE0 < 256)).mp (by omega)
  have h₄ : ¬ UInt8.ofNat (v / 262144 % 0x08 + 0xf0) < 0xF0 :=
    mt (byte_lt (by omega) (by omega : 0xF0 < 256)).mp (by omega)
  have h₅ : UInt8.ofNat (v / 262144 % 0x08 + 0xf0) < 0xF5 :=
    (byte_lt (by omega) (by omega : 0xF5 < 256)).mpr (by omega)
  simp only [sequenceAt, if_neg h₁, if_neg h₂, if_neg h₃, if_neg h₄, if_pos h₅,
    secondFits_four hlow hvalid, Bool.not_true, Bool.false_eq_true, if_false, hcontinuation₂,
    hcontinuation₃, if_true, hbits₁, hbits₂, hbits₃,
    byte_toNat (show v / 262144 % 0x08 + 0xf0 < 256 by omega)]
  congr 1
  omega

/-- The bytes of a character are a lead byte, from which the reader finds the character and the
number of its bytes, and the bytes behind it. -/
private theorem sequenceAt_encoded (c : Char) :
    ∃ lead tail, String.utf8EncodeChar c = lead :: tail ∧
      ∀ rest, sequenceAt false lead (tail ++ rest) = .scalar c.toNat (tail.length + 1) := by
  have hvalid : c.toNat.isValidChar := c.valid
  unfold String.utf8EncodeChar
  dsimp only
  split
  next h => exact ⟨_, _, rfl, fun rest => sequenceAt_one h rest⟩
  next h =>
    split
    next h' => exact ⟨_, _, rfl, fun rest => sequenceAt_two (Nat.lt_of_not_le h) h' rest⟩
    next h' =>
      split
      next h'' =>
        exact ⟨_, _, rfl, fun rest => sequenceAt_three (Nat.lt_of_not_le h') h'' hvalid rest⟩
      next h'' => exact ⟨_, _, rfl, fun rest => sequenceAt_four (Nat.lt_of_not_le h'') hvalid rest⟩

theorem utf8EncodeChar_of_le {c : Char} (h : c.toNat ≤ 0x7f) :
    String.utf8EncodeChar c = [UInt8.ofNat c.toNat] := if_pos h

/-- A byte of ASCII stands only for itself: the bytes of every other character are greater. -/
theorem eq_of_mem_utf8EncodeChar {c : Char} {b : UInt8} (h : b ∈ String.utf8EncodeChar c)
    (hb : b.toNat < 0x80) : c.toNat = b.toNat := by
  have hbig : ∀ {n : Nat}, 0x80 ≤ n → n < 256 → b ≠ UInt8.ofNat n := by
    rintro n hlow hhigh rfl
    rw [byte_toNat hhigh] at hb
    omega
  by_cases hone : c.toNat ≤ 0x7f
  · rw [utf8EncodeChar_of_le hone] at h
    rw [List.mem_singleton.mp h, byte_toNat (Nat.lt_of_le_of_lt hone (by decide))]
  · -- each byte of a longer form has its highest bit set
    refine absurd h ?_
    have hmany : ¬ c.val.toNat ≤ 0x7f := hone
    simp only [String.utf8EncodeChar, if_neg hmany]
    repeat' split
    all_goals
      simp only [List.mem_cons, List.not_mem_nil, or_false, not_or]
      and_intros
      all_goals exact hbig (by omega) (by omega)

/-! ## One sequence

The other way round: what the strict reader finds is a character, and what it takes are its bytes.
-/

private theorem toNat_lt_of_lt {b : UInt8} {k : Nat} (hk : k < 256) (h : b < UInt8.ofNat k) :
    b.toNat < k := by
  rw [UInt8.lt_iff_toNat_lt, byte_toNat hk] at h
  exact h

private theorem le_toNat_of_le {b : UInt8} {k : Nat} (hk : k < 256) (h : UInt8.ofNat k ≤ b) :
    k ≤ b.toNat := by
  rw [UInt8.le_iff_toNat_le, byte_toNat hk] at h
  exact h

private theorem le_toNat_of_not_lt {b : UInt8} {k : Nat} (hk : k < 256)
    (h : ¬ b < UInt8.ofNat k) : k ≤ b.toNat :=
  le_toNat_of_le hk (UInt8.not_lt.mp h)

private theorem continuation_bounds {b : UInt8} (h : isContinuation b = true) :
    0x80 ≤ b.toNat ∧ b.toNat < 0xC0 := by
  obtain ⟨hlow, hhigh⟩ := Bool.and_eq_true_iff.mp h
  exact ⟨le_toNat_of_le (by decide) (of_decide_eq_true hlow),
    toNat_lt_of_lt (by decide) (of_decide_eq_true hhigh)⟩

/-- The bounds of a second byte. Each lead byte that narrows them does so on its own. -/
private theorem second_bounds {lead b : UInt8} (h : secondFits false lead b = true) :
    (0x80 ≤ b.toNat ∧ b.toNat < 0xC0) ∧ (lead.toNat = 0xE0 → 0xA0 ≤ b.toNat) ∧
      (lead.toNat = 0xED → b.toNat < 0xA0) ∧ (lead.toNat = 0xF0 → 0x90 ≤ b.toNat) ∧
        (lead.toNat = 0xF4 → b.toNat < 0x90) := by
  obtain ⟨hcontinuation, hbounds⟩ := Bool.and_eq_true_iff.mp h
  have hlead : ∀ {n : Nat}, lead.toNat = n → lead = UInt8.ofNat n := by
    intro n heq
    rw [← heq, UInt8.ofNat_toNat]
  refine ⟨continuation_bounds hcontinuation, ?_, ?_, ?_, ?_⟩
  all_goals
    intro heq
    obtain rfl := hlead heq
  · exact le_toNat_of_le (by decide) (of_decide_eq_true hbounds)
  · exact toNat_lt_of_lt (by decide) (of_decide_eq_true hbounds)
  · exact le_toNat_of_le (by decide) (of_decide_eq_true hbounds)
  · exact toNat_lt_of_lt (by decide) (of_decide_eq_true hbounds)

/-- A number that is one of a character is read as that character. -/
private theorem exists_char {n : Nat} (h : n.isValidChar) :
    ∃ c : Char, CodePoint.ofNat n = .char c ∧ c.val.toNat = n := by
  have hfound : CodePoint.ofNat? n = some (.char (Char.ofNatAux n h)) := dif_pos h
  refine ⟨Char.ofNatAux n h, ?_, rfl⟩
  rw [CodePoint.ofNat, hfound, Option.getD_some]

private theorem ofNat_of_eq_toNat {n : Nat} {b : UInt8} (h : n = b.toNat) : UInt8.ofNat n = b := by
  rw [h, UInt8.ofNat_toNat]

private theorem encoded_one {a : UInt8} (h : a.toNat < 0x80) :
    ∃ c, CodePoint.ofNat a.toNat = .char c ∧ String.utf8EncodeChar c = [a] := by
  obtain ⟨c, hc, hval⟩ := exists_char (n := a.toNat) (.inl (by omega))
  refine ⟨c, hc, ?_⟩
  have h₁ : c.val.toNat ≤ 0x7f := by omega
  simp only [String.utf8EncodeChar, if_pos h₁]
  rw [ofNat_of_eq_toNat hval]

private theorem encoded_two {a b : UInt8} (hlow : 0xC2 ≤ a.toNat) (hhigh : a.toNat < 0xE0)
    (hb : isContinuation b = true) :
    ∃ c, CodePoint.ofNat (a.toNat % 32 * 64 + low6 b) = .char c ∧
      String.utf8EncodeChar c = [a, b] := by
  obtain ⟨hb₁, hb₂⟩ := continuation_bounds hb
  unfold low6
  obtain ⟨c, hc, hval⟩ := exists_char (n := a.toNat % 32 * 64 + b.toNat % 64) (.inl (by omega))
  refine ⟨c, hc, ?_⟩
  have h₁ : ¬ c.val.toNat ≤ 0x7f := by omega
  have h₂ : c.val.toNat ≤ 0x7ff := by omega
  simp only [String.utf8EncodeChar, if_neg h₁, if_pos h₂]
  rw [ofNat_of_eq_toNat (b := a) (by omega), ofNat_of_eq_toNat (b := b) (by omega)]

private theorem encoded_three {a b d : UInt8} (hlow : 0xE0 ≤ a.toNat) (hhigh : a.toNat < 0xF0)
    (hb : secondFits false a b = true) (hd : isContinuation d = true) :
    ∃ c, CodePoint.ofNat ((a.toNat % 16 * 64 + low6 b) * 64 + low6 d) = .char c ∧
      String.utf8EncodeChar c = [a, b, d] := by
  obtain ⟨⟨hb₁, hb₂⟩, he0, hed, -, -⟩ := second_bounds hb
  obtain ⟨hd₁, hd₂⟩ := continuation_bounds hd
  unfold low6
  obtain ⟨c, hc, hval⟩ := exists_char
    (n := (a.toNat % 16 * 64 + b.toNat % 64) * 64 + d.toNat % 64) (by unfold Nat.isValidChar; omega)
  refine ⟨c, hc, ?_⟩
  have h₁ : ¬ c.val.toNat ≤ 0x7f := by omega
  have h₂ : ¬ c.val.toNat ≤ 0x7ff := by omega
  have h₃ : c.val.toNat ≤ 0xffff := by omega
  simp only [String.utf8EncodeChar, if_neg h₁, if_neg h₂, if_pos h₃]
  rw [ofNat_of_eq_toNat (b := a) (by omega), ofNat_of_eq_toNat (b := b) (by omega),
    ofNat_of_eq_toNat (b := d) (by omega)]

private theorem encoded_four {a b d e : UInt8} (hlow : 0xF0 ≤ a.toNat) (hhigh : a.toNat < 0xF5)
    (hb : secondFits false a b = true) (hd : isContinuation d = true)
    (he : isContinuation e = true) :
    ∃ c, CodePoint.ofNat (((a.toNat % 8 * 64 + low6 b) * 64 + low6 d) * 64 + low6 e) = .char c ∧
      String.utf8EncodeChar c = [a, b, d, e] := by
  obtain ⟨⟨hb₁, hb₂⟩, -, -, hf0, hf4⟩ := second_bounds hb
  obtain ⟨hd₁, hd₂⟩ := continuation_bounds hd
  obtain ⟨he₁, he₂⟩ := continuation_bounds he
  unfold low6
  obtain ⟨c, hc, hval⟩ := exists_char
    (n := ((a.toNat % 8 * 64 + b.toNat % 64) * 64 + d.toNat % 64) * 64 + e.toNat % 64)
    (by unfold Nat.isValidChar; omega)
  refine ⟨c, hc, ?_⟩
  have h₁ : ¬ c.val.toNat ≤ 0x7f := by omega
  have h₂ : ¬ c.val.toNat ≤ 0x7ff := by omega
  have h₃ : ¬ c.val.toNat ≤ 0xffff := by omega
  simp only [String.utf8EncodeChar, if_neg h₁, if_neg h₂, if_neg h₃]
  rw [ofNat_of_eq_toNat (b := a) (by omega), ofNat_of_eq_toNat (b := b) (by omega),
    ofNat_of_eq_toNat (b := d) (by omega), ofNat_of_eq_toNat (b := e) (by omega)]

/-- What the strict reader finds is a character, and what it takes are the bytes of it. -/
private theorem encoded_of_sequenceAt {lead : UInt8} {rest : Bytes} {n width : Nat}
    (h : sequenceAt false lead rest = .scalar n width) :
    ∃ c, CodePoint.ofNat n = .char c ∧
      lead :: rest = String.utf8EncodeChar c ++ rest.drop (width - 1) := by
  revert h
  -- of the cases of `sequenceAt` four find a character, one for each length
  fun_cases sequenceAt false lead rest
  case case1 hone =>
    rintro ⟨⟩
    obtain ⟨c, hc, hbytes⟩ := encoded_one (toNat_lt_of_lt (by decide) hone)
    exact ⟨c, hc, hbytes ▸ rfl⟩
  case case4 hlow hhigh b tail hb =>
    rintro ⟨⟩
    obtain ⟨c, hc, hbytes⟩ := encoded_two (le_toNat_of_not_lt (by decide) hlow)
      (toNat_lt_of_lt (by decide) hhigh) hb
    exact ⟨c, hc, hbytes ▸ rfl⟩
  case case10 hlow hhigh b d tail hb hd =>
    rintro ⟨⟩
    obtain ⟨c, hc, hbytes⟩ := encoded_three (le_toNat_of_not_lt (by decide) hlow)
      (toNat_lt_of_lt (by decide) hhigh) (by simpa using hb) hd
    exact ⟨c, hc, hbytes ▸ rfl⟩
  case case18 hlow hhigh b hb d hd e tail he =>
    rintro ⟨⟩
    obtain ⟨c, hc, hbytes⟩ := encoded_four (le_toNat_of_not_lt (by decide) hlow)
      (toNat_lt_of_lt (by decide) hhigh) (by simpa using hb) (by simpa using hd) he
    exact ⟨c, hc, hbytes ▸ rfl⟩
  all_goals exact nofun

/-! ## Whole texts -/

private theorem decodeFrom_encodeFrom (t : Text) :
    ∀ (place offset : Nat) (bytes : Bytes), encodeFrom place t = .ok bytes →
      decodeFrom false offset bytes = .ok t := by
  induction t with
  | nil =>
    intro place offset bytes h
    cases h
    rw [decodeFrom]
  | cons c t ih =>
    intro place offset bytes h
    cases c with
    | surrogate half => cases h
    | char c =>
      obtain ⟨following, hfollowing, heq⟩ := bind_eq_ok.mp h
      cases heq
      obtain ⟨lead, tail, hbytes, hsequence⟩ := sequenceAt_encoded c
      have hrest := ih (place + 1) (offset + (tail.length + 1)) following hfollowing
      rw [hbytes, List.cons_append, decodeFrom, hsequence following]
      simp only [Nat.add_sub_cancel, List.drop_left, hrest, ok_bind]
      exact congrArg (fun d => Except.ok (d :: t)) (CodePoint.ofNat_toNat (.char c))

/-- What is written is read back. -/
theorem decode_encode {t : Text} {bytes : Bytes} (h : encode t = .ok bytes) :
    decode bytes = .ok t :=
  decodeFrom_encodeFrom t 0 0 bytes h

private theorem encodeFrom_decodeFrom (bytes : Bytes) :
    ∀ (place offset : Nat) (t : Text), decodeFrom false offset bytes = .ok t →
      encodeFrom place t = .ok bytes := by
  induction hlength : bytes.length using Nat.strongRecOn generalizing bytes with
  | ind length ih =>
    intro place offset t h
    cases bytes with
    | nil =>
      rw [decodeFrom] at h
      cases h
      rfl
    | cons lead rest =>
      rw [decodeFrom] at h
      split at h
      next => cases h
      next n width hsequence =>
        obtain ⟨following, hfollowing, heq⟩ := bind_eq_ok.mp h
        cases heq
        obtain ⟨c, hc, hbytes⟩ := encoded_of_sequenceAt hsequence
        have hshorter : (rest.drop (width - 1)).length < length := by
          rw [← hlength, List.length_cons, List.length_drop]
          omega
        have hrest := ih _ hshorter _ rfl (place + 1) _ _ hfollowing
        rw [hc, encodeFrom, hrest, hbytes]
        rfl

/-- What is read strictly is written as it was. -/
theorem encode_decode {bytes : Bytes} {t : Text} (h : decode bytes = .ok t) :
    encode t = .ok bytes :=
  encodeFrom_decodeFrom bytes 0 0 t h

/-- A text is written exactly if no half of a surrogate pair stands alone in it. -/
theorem exists_encode_iff (t : Text) :
    (∃ bytes, encode t = .ok bytes) ↔ ∀ c ∈ t, c.isSurrogate = false := by
  have hfrom : ∀ offset, (∃ bytes, encodeFrom offset t = .ok bytes) ↔
      ∀ c ∈ t, c.isSurrogate = false := by
    induction t with
    | nil => exact fun _ => iff_of_true ⟨_, rfl⟩ nofun
    | cons c t ih =>
      intro offset
      rw [List.forall_mem_cons]
      cases c with
      | surrogate half => exact iff_of_false nofun fun h => nomatch h.1
      | char c =>
        rw [← ih (offset + 1), encodeFrom]
        simp only [bind_eq_ok]
        constructor
        · rintro ⟨_, following, hfollowing, -⟩
          exact ⟨rfl, following, hfollowing⟩
        · rintro ⟨-, following, hfollowing⟩
          exact ⟨_, following, hfollowing, rfl⟩
  exact hfrom 0

/-- A text is written, or refused for half of a pair in it. -/
theorem encode_cases (t : Text) :
    (∃ bytes, encode t = .ok bytes ∧ ∀ c ∈ t, c.isSurrogate = false) ∨
      ∃ fault, encode t = .error fault ∧ ¬ ∀ c ∈ t, c.isSurrogate = false := by
  cases h : encode t with
  | ok bytes => exact .inl ⟨bytes, rfl, (exists_encode_iff t).mp ⟨bytes, h⟩⟩
  | error fault =>
    refine .inr ⟨fault, rfl, fun hplain => ?_⟩
    obtain ⟨bytes, hbytes⟩ := (exists_encode_iff t).mpr hplain
    cases h.symm.trans hbytes

/-- A name can be written exactly if every half in it stands for a byte. -/
theorem unspellableFrom?_eq_none {offset : Nat} {t : Text} :
    unspellableFrom? offset t = none ↔ ∀ c ∈ t, (!c.isSurrogate || c.isStrayByte) = true := by
  induction t generalizing offset with
  | nil => exact iff_of_true rfl nofun
  | cons c t ih =>
    rw [unspellableFrom?, List.forall_mem_cons]
    cases hhalf : c.isSurrogate <;> cases hstray : c.isStrayByte <;> simp [ih]

/-- Nothing that is read strictly holds half of a pair. -/
theorem isSurrogate_of_decode {bytes : Bytes} {t : Text} (h : decode bytes = .ok t) :
    ∀ c ∈ t, c.isSurrogate = false :=
  (exists_encode_iff t).mp ⟨bytes, encode_decode h⟩

/-- The bytes of a literal. -/
def ofLiteral (s : String) : Bytes := s.toList.flatMap String.utf8EncodeChar

theorem encode_map_char (cs : List Char) :
    encode (cs.map .char) = .ok (cs.flatMap String.utf8EncodeChar) := by
  have hfrom : ∀ offset,
      encodeFrom offset (cs.map .char) = .ok (cs.flatMap String.utf8EncodeChar) := by
    induction cs with
    | nil => exact fun _ => rfl
    | cons c cs ih =>
      intro offset
      rw [List.map_cons, encodeFrom, ih, List.flatMap_cons]
      rfl
  exact hfrom 0

theorem encode_text (s : String) : encode (text s) = .ok (ofLiteral s) := encode_map_char s.toList

theorem ofLiteral_ofList (cs : List Char) :
    ofLiteral (String.ofList cs) = cs.flatMap String.utf8EncodeChar :=
  congrArg (List.flatMap String.utf8EncodeChar) String.toList_ofList

theorem ofLiteral_append {first second : String} {bytes bytes' : Bytes}
    (h : ofLiteral first = bytes) (h' : ofLiteral second = bytes') :
    ofLiteral (first ++ second) = bytes ++ bytes' := by
  rw [← h, ← h', ofLiteral, String.toList_append, List.flatMap_append]
  rfl

/-- Literals with the same bytes are the same text. -/
theorem text_eq_of_ofLiteral_eq {s s' : String} (h : ofLiteral s = ofLiteral s') :
    text s = text s' :=
  Except.ok.inj ((decode_encode (encode_text s)).symm.trans (h ▸ decode_encode (encode_text s')))

end Utf8

end NodeBootstrap
