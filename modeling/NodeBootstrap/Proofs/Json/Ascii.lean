import NodeBootstrap.Json.Writer
import NodeBootstrap.Proofs.Path

/-!
# Documents written in ASCII

The spaced layout keeps strings to ASCII: what is not printable there is escaped, a half of a pair
like a character above the range. All else in a document, numbers included, is ASCII anyway, so a
document is one line of printable ASCII whatever its strings hold (`printsInAscii_write`). The other
layout escapes no more than it has to, and halves of pairs stay (`isSurrogate_stringText`).
-/

set_option autoImplicit false

namespace NodeBootstrap

/-- Whether a code point is in the printable range of ASCII, from the blank to the tilde. -/
def CodePoint.PrintsInAscii (c : CodePoint) : Prop := 0x20 ≤ c.toNat ∧ c.toNat ≤ 0x7E

instance (c : CodePoint) : Decidable c.PrintsInAscii := inferInstanceAs (Decidable (_ ∧ _))

theorem CodePoint.PrintsInAscii.isSurrogate {c : CodePoint} (h : c.PrintsInAscii) :
    c.isSurrogate = false := by
  cases c with
  | char c => rfl
  | surrogate half =>
    have hhigh : 0xD800 + half.val ≤ 0x7E := h.2
    omega

/-- A text of printable ASCII. -/
def Text.PrintsInAscii (t : Text) : Prop := ∀ c ∈ t, c.PrintsInAscii

instance (t : Text) : Decidable t.PrintsInAscii := inferInstanceAs (Decidable (∀ c ∈ t, _))

namespace Text

theorem PrintsInAscii.append {s t : Text} (hs : s.PrintsInAscii) (ht : t.PrintsInAscii) :
    (s ++ t).PrintsInAscii := List.forall_mem_append.mpr ⟨hs, ht⟩

theorem PrintsInAscii.of_subset {s t : Text} (ht : t.PrintsInAscii) (h : s ⊆ t) :
    s.PrintsInAscii := fun c hc => ht c (h hc)

theorem PrintsInAscii.join {separator : Text} {parts : List Text}
    (hseparator : separator.PrintsInAscii) (hparts : ∀ part ∈ parts, part.PrintsInAscii) :
    (Text.join separator parts).PrintsInAscii := by
  intro c hc
  obtain h | ⟨part, hpart, h⟩ := exists_of_mem_join hc
  · exact hseparator c h
  · exact hparts part hpart c h

/-! ## Numbers -/

theorem printsInAscii_toDigits {base : Nat} (hbase : 1 < base) (hsmall : base ≤ 16) (n : Nat) :
    PrintsInAscii ((Nat.toDigits base n).map .char) := by
  have hdigit : ∀ d < 16, (CodePoint.char (Nat.digitChar d)).PrintsInAscii := by decide
  induction n using Nat.strongRecOn with
  | ind n ih =>
    by_cases hn : n < base
    · rw [Nat.toDigits_of_lt_base hn]
      exact List.forall_mem_singleton.mpr (hdigit n (Nat.lt_of_lt_of_le hn hsmall))
    · have hpos : 0 < n := by omega
      have hrest := ih (n / base) (Nat.div_lt_self hpos hbase)
      have hlast : n % base < 16 := Nat.lt_of_lt_of_le (Nat.mod_lt n (by omega)) hsmall
      rw [Nat.toDigits_of_base_le hbase (by omega), List.map_append]
      exact hrest.append (List.forall_mem_singleton.mpr (hdigit _ hlast))

theorem printsInAscii_ofNat (n : Nat) : PrintsInAscii (Text.ofNat n) :=
  printsInAscii_toDigits (by decide) (by decide) n

theorem printsInAscii_ofInt (n : Int) : PrintsInAscii (Text.ofInt n) := by
  cases n with
  | ofNat n => exact printsInAscii_ofNat n
  | negSucc n => exact List.forall_mem_cons.mpr ⟨by decide, printsInAscii_ofNat (n + 1)⟩

theorem printsInAscii_replicate (n : Nat) {c : CodePoint} (h : c.PrintsInAscii) :
    PrintsInAscii (List.replicate n c) := fun _ hd => List.eq_of_mem_replicate hd ▸ h

theorem printsInAscii_ofHex (width n : Nat) : PrintsInAscii (Text.ofHex width n) := by
  rw [Text.ofHex, List.map_append, List.map_replicate]
  exact (printsInAscii_replicate _ (by decide)).append
    (printsInAscii_toDigits (by decide) (by decide) n)

end Text

namespace FloatLayout

/-- The texts of a layout are of printable ASCII. -/
structure PrintsInAscii (layout : FloatLayout) : Prop where
  exponentMark : layout.exponentMark.PrintsInAscii
  wholeEnd : layout.wholeEnd.PrintsInAscii
  infinity : layout.infinity.PrintsInAscii
  nan : layout.nan.PrintsInAscii

variable {layout : FloatLayout}

theorem significant_subset (digits : Text) : significant digits ⊆ digits := fun _ hc =>
  List.mem_reverse.mp ((List.dropWhile_sublist _).subset (List.mem_reverse.mp hc))

theorem PrintsInAscii.exponentText (h : layout.PrintsInAscii) (exponent : Int) :
    (layout.exponentText exponent).PrintsInAscii := by
  have hsign : Text.PrintsInAscii (if exponent < 0 then text "-" else text "+") := by
    split <;> decide
  exact ((h.exponentMark.append hsign).append
    (Text.printsInAscii_replicate _ (by decide))).append (Text.printsInAscii_ofNat _)

theorem PrintsInAscii.magnitude (h : layout.PrintsInAscii) (d : DecimalDigits) :
    (layout.magnitude d).PrintsInAscii := by
  have hzeros : ∀ n, Text.PrintsInAscii (List.replicate n (.char '0')) := fun n =>
    Text.printsInAscii_replicate n (by decide)
  have hdigits : (significant (Text.ofNat d.digits)).PrintsInAscii :=
    (Text.printsInAscii_ofNat d.digits).of_subset (significant_subset _)
  have htake : ∀ n, Text.PrintsInAscii ((significant (Text.ofNat d.digits)).take n) := fun n =>
    hdigits.of_subset (List.take_subset n _)
  have hdrop : ∀ n, Text.PrintsInAscii ((significant (Text.ofNat d.digits)).drop n) := fun n =>
    hdigits.of_subset (List.drop_subset n _)
  have hpoint : (text ".").PrintsInAscii := by decide
  unfold FloatLayout.magnitude
  dsimp only
  split
  next =>
    split
    next => exact (Text.PrintsInAscii.append (by decide) (hzeros _)).append hdigits
    next =>
      split
      next => exact (hdigits.append (hzeros _)).append h.wholeEnd
      next => exact ((htake _).append hpoint).append (hdrop _)
  next =>
    refine ((htake 1).append ?_).append (h.exponentText _)
    split
    next => exact nofun
    next => exact hpoint.append (hdrop 1)

theorem PrintsInAscii.write (h : layout.PrintsInAscii) (x : Binary64) :
    (layout.write x).PrintsInAscii := by
  have hsign : ∀ negative : Bool, Text.PrintsInAscii (if negative then text "-" else []) := by
    decide
  cases x with
  | nan => exact h.nan
  | infinite negative => exact (hsign negative).append h.infinity
  | finite negative mantissa exponent =>
    refine (hsign negative).append ?_
    split
    next => exact Text.PrintsInAscii.append (by decide) h.wholeEnd
    next => exact h.magnitude _

end FloatLayout

/-! ## Documents -/

namespace Json

theorem printsInAscii_floatLayout : floatLayout.PrintsInAscii :=
  ⟨by decide, by decide, by decide, by decide⟩

theorem printsInAscii_unicodeEscape (n : Nat) : (unicodeEscape n).PrintsInAscii := by
  have hmark : (text "\\u").PrintsInAscii := by decide
  have hunit : ∀ n, Text.PrintsInAscii (text "\\u" ++ Text.ofHex 4 n) := fun n =>
    hmark.append (Text.printsInAscii_ofHex 4 n)
  unfold unicodeEscape
  split
  next => exact hunit n
  next => exact ((hunit _).append hmark).append (Text.printsInAscii_ofHex 4 _)

/-- Whatever a code point is, in ASCII it is written as printable ones. -/
theorem printsInAscii_escaped (c : CodePoint) : (escaped true c).PrintsInAscii := by
  unfold escaped
  split
  next letter hletter =>
    unfold escapeLetter? at hletter
    split at hletter <;> cases hletter <;> decide
  next =>
    split
    next => exact printsInAscii_unicodeEscape c.toNat
    next hplain =>
      refine List.forall_mem_singleton.mpr ⟨?_, ?_⟩
      · exact Nat.le_of_not_lt fun hlow => hplain (.inl hlow)
      · exact Nat.le_of_not_lt fun hhigh => hplain (.inr ⟨rfl, hhigh⟩)

theorem printsInAscii_stringText (t : Text) : (stringText true t).PrintsInAscii := by
  have hquote : Text.PrintsInAscii [.char '"'] := by decide
  refine Text.PrintsInAscii.append (hquote.append fun c hc => ?_) hquote
  obtain ⟨d, -, hc⟩ := List.mem_flatMap.mp hc
  exact printsInAscii_escaped d c hc

mutual

/-- A document in the spaced layout is of printable ASCII. -/
theorem printsInAscii_write (v : Json) : (v.write .spaced).PrintsInAscii := by
  cases v with
  | null => decide
  | bool b => cases b <;> decide
  | number l =>
    rw [write]
    split
    next => exact Text.printsInAscii_ofInt l.wholeValue
    next => exact printsInAscii_floatLayout.write l.binary
  | nan => exact printsInAscii_floatLayout.nan
  | infinite negative => exact printsInAscii_floatLayout.write (.infinite negative)
  | string t => exact printsInAscii_stringText t
  | array items =>
    rw [write]
    exact ((by decide : (text "[").PrintsInAscii).append
      (.join (by decide) (printsInAscii_writeItems items))).append (by decide)
  | object members =>
    rw [write]
    exact ((by decide : (text "\x7b").PrintsInAscii).append
      (.join (by decide) (printsInAscii_writeMembers members))).append (by decide)

theorem printsInAscii_writeItems (items : List Json) :
    ∀ t ∈ writeItems .spaced items, t.PrintsInAscii := by
  cases items with
  | nil => exact nofun
  | cons v rest =>
    exact List.forall_mem_cons.mpr ⟨printsInAscii_write v, printsInAscii_writeItems rest⟩

theorem printsInAscii_writeMembers (members : List (Text × Json)) :
    ∀ t ∈ writeMembers .spaced members, t.PrintsInAscii := by
  cases members with
  | nil => exact nofun
  | cons member rest =>
    obtain ⟨key, v⟩ := member
    refine List.forall_mem_cons.mpr ⟨?_, printsInAscii_writeMembers rest⟩
    have hseparator : Layout.spaced.keySeparator.PrintsInAscii := by decide
    exact ((printsInAscii_stringText key).append hseparator).append (printsInAscii_write v)

end

/-! ## Strings that are not kept to ASCII -/

/-- Where strings are not kept to ASCII, half of a pair stands in a document as it is. -/
theorem isSurrogate_stringText (t : Text) :
    (∀ c ∈ stringText false t, c.isSurrogate = false) ↔ ∀ c ∈ t, c.isSurrogate = false := by
  have hescaped : ∀ c : CodePoint,
      (∀ d ∈ escaped false c, d.isSurrogate = false) ↔ c.isSurrogate = false := by
    intro c
    unfold escaped
    split
    next letter hletter =>
      have hc : c.isSurrogate = false := by
        unfold escapeLetter? at hletter
        split at hletter <;> cases hletter <;> rfl
      exact iff_of_true (by simp [CodePoint.isSurrogate]) hc
    next =>
      split
      next hlow =>
        have hc : c.isSurrogate = false := by
          cases c with
          | char c => rfl
          | surrogate half =>
            have hlow : 0xD800 + half.val < 0x20 := hlow.resolve_right nofun
            omega
        exact iff_of_true
          (fun d hd => (printsInAscii_unicodeEscape c.toNat d hd).isSurrogate) hc
      next => exact List.forall_mem_singleton
  rw [stringText, List.cons_append, List.forall_mem_cons, List.forall_mem_append]
  constructor
  · rintro ⟨-, hbody, -⟩ c hc
    exact (hescaped c).mp fun d hd => hbody d (List.mem_flatMap.mpr ⟨c, hc, hd⟩)
  · intro h
    refine ⟨rfl, fun d hd => ?_, List.forall_mem_singleton.mpr rfl⟩
    obtain ⟨c, hc, hd⟩ := List.mem_flatMap.mp hd
    exact (hescaped c).mpr (h c hc) d hd

end Json

end NodeBootstrap
