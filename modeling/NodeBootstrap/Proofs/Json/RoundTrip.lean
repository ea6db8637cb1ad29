import NodeBootstrap.Proofs.Json.Parts
import NodeBootstrap.Proofs.Json.Written
import NodeBootstrap.Proofs.Path
import NodeBootstrap.Value

/-!
# Documents are read back

A document that was read and is written in the spaced layout reads back as a document of the same
value (`Json.ofText_write`, `Value.ofJson_normal`). This holds of documents that are exact in every
part: no number has a fraction or an exponent, and no half of a surrogate pair stands alone.

Of a number only its value is written. That is its spelling, since numbers are read without zeros in
front, but for a zero with a sign, which loses it: `Json.normal` is the document that is read back.
-/

set_option autoImplicit false

namespace NodeBootstrap

/-! ## Digits -/

/-- A digit is the text of its value. -/
private theorem ofNat_digit {c : CodePoint} (h : c.isDigit = true) :
    c.toNat - 48 < 10 ∧ Text.ofNat (c.toNat - 48) = [c] := by
  cases c with
  | surrogate half => cases h
  | char c =>
    have hvalue : (CodePoint.char c).toNat = c.toNat := rfl
    obtain ⟨hlow, hhigh⟩ : 48 ≤ c.toNat ∧ c.toNat ≤ 57 := by
      simpa [CodePoint.isDigit, Char.isDigit, UInt32.le_iff_toNat_le] using h
    have hsmall : c.toNat - 48 < 10 := by omega
    have hchar : Nat.digitChar (c.toNat - 48) = c := by
      apply Char.toNat_inj.mp
      rw [Nat.toNat_digitChar_of_lt_ten hsmall]
      omega
    rw [hvalue, Text.ofNat, Nat.toDigits_of_lt_base hsmall, hchar]
    exact ⟨hsmall, rfl⟩

/-- Digits behind a number that is not zero. -/
private theorem ofNat_foldl {n : Nat} (hn : 0 < n) {digits : Text}
    (h : ∀ c ∈ digits, c.isDigit = true) :
    Text.ofNat (digits.foldl (fun n c => 10 * n + (c.toNat - 48)) n) =
      Text.ofNat n ++ digits := by
  induction digits generalizing n with
  | nil => exact (List.append_nil _).symm
  | cons c digits ih =>
    obtain ⟨hc, hdigits⟩ := List.forall_mem_cons.mp h
    obtain ⟨hsmall, htext⟩ := ofNat_digit hc
    have hlast : Text.ofNat (10 * n + (c.toNat - 48)) = Text.ofNat n ++ [c] := by
      rw [← htext, Text.ofNat, ← Nat.toDigits_append_toDigits (by decide) hn hsmall,
        List.map_append]
      rfl
    rw [List.foldl_cons, ih (by omega) hdigits, hlast, List.append_assoc, List.singleton_append]

/-- Digits without a zero in front are the digits of their number. -/
theorem ofNat_digitsValue {digits : Text} (h : Json.CanonicalDigits digits) :
    Text.ofNat (DecimalLiteral.digitsValue digits) = digits := by
  cases h with
  | zero => decide
  | @lead d ds hnonzero hdigits =>
    obtain ⟨hd, hds⟩ := List.forall_mem_cons.mp hdigits
    obtain ⟨-, htext⟩ := ofNat_digit hd
    have hpos : 0 < d.toNat - 48 := by
      refine Nat.pos_of_ne_zero fun hzero => hnonzero ?_
      rw [hzero] at htext
      exact (List.cons.inj htext).1.symm
    have hall := ofNat_foldl hpos hds
    rw [htext] at hall
    rw [DecimalLiteral.digitsValue, List.foldl_cons, Nat.mul_zero, Nat.zero_add]
    exact hall

/-- An integer is written as a sign, if it is negative, and its size. -/
theorem ofInt_eq (n : Int) :
    Text.ofInt n = (if n < 0 then text "-" else []) ++ Text.ofNat n.natAbs := by
  cases n with
  | ofNat n => rfl
  | negSucc n =>
    rw [if_pos (Int.negSucc_lt_zero n)]
    rfl

namespace DecimalLiteral

/-- A whole number without the sign that a zero may have. -/
def normal (l : DecimalLiteral) : DecimalLiteral :=
  if l.isWhole then { l with negative := decide (l.wholeValue < 0) } else l

theorem isWhole_normal (l : DecimalLiteral) : l.normal.isWhole = l.isWhole := by
  unfold normal
  split <;> rfl

theorem whole_normal (l : DecimalLiteral) : l.normal.whole = l.whole := by
  unfold normal
  split <;> rfl

theorem wholeValue_normal (l : DecimalLiteral) : l.normal.wholeValue = l.wholeValue := by
  obtain ⟨negative, whole, fraction, exponent⟩ := l
  unfold normal
  split
  next =>
    simp only [wholeValue, decide_eq_true_eq]
    split <;> split <;> omega
  next => rfl

/-- A whole number is written as it is spelled without such a sign. -/
theorem spelling_normal {l : DecimalLiteral} (hwhole : l.isWhole = true)
    (hdigits : Json.CanonicalDigits l.whole) : l.normal.spelling = Text.ofInt l.wholeValue := by
  have hsize : l.wholeValue.natAbs = digitsValue l.whole := by
    simp only [wholeValue]
    split <;> omega
  have hfraction : l.fraction.isEmpty = true := (Bool.and_eq_true_iff.mp hwhole).1
  have hexponent : l.exponent = [] := List.isEmpty_iff.mp (Bool.and_eq_true_iff.mp hwhole).2
  rw [ofInt_eq, hsize, ofNat_digitsValue hdigits, normal, if_pos hwhole]
  simp only [spelling, hfraction, hexponent, if_true, List.append_nil, decide_eq_true_eq]

end DecimalLiteral

namespace Json

/-! ## Numbers -/

/-- Digits without a zero in front are a whole part. -/
private theorem wholePart?_canonical {digits : Text} (h : CanonicalDigits digits) :
    wholePart? digits = some (digits, []) := by
  cases h with
  | zero => rfl
  | lead hnonzero hdigits =>
    have hspan := spanDigits_append hdigits (u := []) nofun
    rw [List.append_nil] at hspan
    rw [wholePart?, if_neg hnonzero, if_pos (hdigits _ List.mem_cons_self), hspan]

/-- A whole number is read from its spelling. -/
theorem numberAt?_spelling {l : DecimalLiteral} (hwhole : l.isWhole = true)
    (hdigits : CanonicalDigits l.whole) : numberAt? l.spelling = some (l, []) := by
  obtain ⟨negative, whole, fraction, exponent⟩ := l
  obtain ⟨hfraction, hexponent⟩ := Bool.and_eq_true_iff.mp hwhole
  obtain rfl : fraction = [] := List.isEmpty_iff.mp hfraction
  obtain rfl : exponent = [] := List.isEmpty_iff.mp hexponent
  have hunsigned : ∀ negative, unsignedAt? negative whole =
      some (⟨negative, whole, [], []⟩, []) := fun negative => by
    rw [unsignedAt?, wholePart?_canonical hdigits]
    rfl
  simp only [DecimalLiteral.spelling, List.isEmpty_nil, if_true, List.append_nil]
  cases negative with
  | true => exact hunsigned true
  | false =>
    refine (numberAt?_unsigned ?_).trans (hunsigned false)
    rintro c hc rfl
    cases hdigits with
    | zero => cases hc
    | lead _ hdigits =>
      cases hc
      cases hdigits _ List.mem_cons_self

/-! ## Documents -/

/-- Whether nothing of a value, apart from the values inside of it, is lost where it is written. -/
def Exact : Json → Prop
  | .number l => l.isWhole = true
  | .nan | .infinite _ => False
  | .string t => ∀ c ∈ t, c.isSurrogate = false
  | .object members => ∀ e ∈ members, ∀ c ∈ e.1, c.isSurrogate = false
  | .null | .bool _ | .array _ => True

instance : DecidablePred Exact
  | .number l => inferInstanceAs (Decidable (l.isWhole = true))
  | .nan | .infinite _ => inferInstanceAs (Decidable False)
  | .string t => inferInstanceAs (Decidable (∀ c ∈ t, c.isSurrogate = false))
  | .object members =>
    inferInstanceAs (Decidable (∀ e ∈ members, ∀ c ∈ e.1, c.isSurrogate = false))
  | .null | .bool _ | .array _ => inferInstanceAs (Decidable True)

mutual

/-- A document without the signs that zeros may have. -/
def normal : Json → Json
  | .number l => .number l.normal
  | .array items => .array (normalItems items)
  | .object members => .object (normalMembers members)
  | v => v

/-- The items of an array without such signs. -/
def normalItems : List Json → List Json
  | [] => []
  | v :: rest => normal v :: normalItems rest

/-- The members of an object without such signs. -/
def normalMembers : List (Text × Json) → List (Text × Json)
  | [] => []
  | (key, v) :: rest => (key, normal v) :: normalMembers rest

end

theorem keys_normalMembers (members : List (Text × Json)) :
    OrderedMap.keys (normalMembers members) = OrderedMap.keys members := by
  induction members with
  | nil => rfl
  | cons e rest ih => exact congrArg (e.1 :: ·) ih

end Json

namespace Value

open Json

mutual

/-- A zero is worth the same with a sign. -/
theorem ofJson_normal (v : Json) : ofJson v.normal = ofJson v := by
  cases v with
  | number l =>
    rw [normal, ofJson, ofJson, DecimalLiteral.isWhole_normal, DecimalLiteral.wholeValue_normal]
    split
    next => rfl
    next hwhole => rw [DecimalLiteral.normal, if_neg hwhole]
  | array items => rw [normal, ofJson, ofJson, ofJsonItems_normal]
  | object members => rw [normal, ofJson, ofJson, ofJsonMembers_normal]
  | _ => rfl

theorem ofJsonItems_normal (items : List Json) :
    ofJsonItems (normalItems items) = ofJsonItems items := by
  cases items with
  | nil => rfl
  | cons v rest => rw [normalItems, ofJsonItems, ofJsonItems, ofJson_normal, ofJsonItems_normal]

theorem ofJsonMembers_normal (members : List (Text × Json)) :
    ofJsonMembers (normalMembers members) = ofJsonMembers members := by
  cases members with
  | nil => rfl
  | cons e rest =>
    obtain ⟨key, v⟩ := e
    rw [normalMembers, ofJsonMembers, ofJsonMembers, ofJson_normal, ofJsonMembers_normal]

end

end Value

namespace Json

/-! ## The spaced layout -/

private theorem blanks_blank : Blanks [.char ' '] := List.forall_mem_singleton.mpr rfl

/-- Items that are read one by one are read up to the bracket that closes. -/
private theorem reads_writeItems {v : Json} {rest : List Json}
    (h : ∀ w ∈ v :: rest, Spells (w.write .spaced) w.normal) :
    Reads readItems anything (Text.join (text ", ") (writeItems .spaced (v :: rest)) ++ text "]")
      (normalItems (v :: rest)) := by
  induction rest generalizing v with
  | nil =>
    obtain ⟨hv, -⟩ := List.forall_mem_cons.mp h
    rw [writeItems, writeItems, Text.join_singleton]
    exact reads_items_last hv blanks_nil
  | cons next rest ih =>
    obtain ⟨hv, hrest⟩ := List.forall_mem_cons.mp h
    rw [writeItems, writeItems, Text.join_cons_cons, ← writeItems, List.append_assoc,
      List.append_assoc]
    exact reads_items_cons hv blanks_nil blanks_blank (ih hrest)

/-- A key and its value in the spaced layout. -/
private theorem memberText_eq (key : Text) (v : Json) :
    stringText Layout.spaced.asciiOnly key ++ Layout.spaced.keySeparator ++ v.write .spaced =
      memberSpelling (key.flatMap (escaped true)) [] [.char ' '] (v.write .spaced) := by
  simp only [stringText, memberSpelling, List.cons_append, List.append_assoc, List.nil_append]
  rfl

/-- Members whose values are read one by one are read up to the brace that closes. -/
private theorem reads_writeMembers {e : Text × Json} {rest : List (Text × Json)}
    (hkeys : ∀ m ∈ e :: rest, ∀ c ∈ m.1, c.isSurrogate = false)
    (h : ∀ m ∈ e :: rest, Spells (m.2.write .spaced) m.2.normal) :
    Reads readMembers anything
      (Text.join (text ", ") (writeMembers .spaced (e :: rest)) ++ text "\x7d")
      (normalMembers (e :: rest)) := by
  induction rest generalizing e with
  | nil =>
    obtain ⟨hkey, -⟩ := List.forall_mem_cons.mp hkeys
    obtain ⟨hv, -⟩ := List.forall_mem_cons.mp h
    rw [writeMembers, writeMembers, Text.join_singleton, memberText_eq]
    exact reads_members_last (spellsString_escapedAscii hkey) blanks_nil blanks_blank hv blanks_nil
  | cons next rest ih =>
    obtain ⟨hkey, hkeys⟩ := List.forall_mem_cons.mp hkeys
    obtain ⟨hv, hrest⟩ := List.forall_mem_cons.mp h
    rw [writeMembers, writeMembers, Text.join_cons_cons, ← writeMembers, memberText_eq,
      List.append_assoc, List.append_assoc]
    exact reads_members_cons (spellsString_escapedAscii hkey) blanks_nil blanks_blank hv blanks_nil
      blanks_blank (ih hkeys hrest)

mutual

/-- A written document spells the document without signs on zeros. -/
theorem spells_write (v : Json) (h : ∀ w ∈ v.parts, w.Proper ∧ w.Exact) :
    Spells (v.write .spaced) v.normal := by
  have hself := h v (mem_parts_self v)
  cases v with
  | null => exact (reads_word (.head _)).weaken
  | bool b =>
    cases b with
    | true => exact (reads_word (.tail _ (.head _))).weaken
    | false => exact (reads_word (.tail _ (.tail _ (.head _)))).weaken
  | number l =>
    obtain ⟨hdigits, hlimit⟩ := hself.1
    have hwhole : l.isWhole = true := hself.2
    have hwhole' : l.normal.isWhole = true := l.isWhole_normal.trans hwhole
    rw [write, if_pos hwhole, ← DecimalLiteral.spelling_normal hwhole hdigits, normal]
    refine reads_number (numberAt?_spelling hwhole' (l.whole_normal ▸ hdigits)) ?_
    rw [DecimalLiteral.whole_normal]
    exact fun hmore => Nat.not_lt.mpr (hlimit hwhole) hmore.2
  | nan => exact hself.2.elim
  | infinite negative => exact hself.2.elim
  | string t => exact (reads_string (spellsString_escapedAscii hself.2)).weaken
  | array items =>
    have hitems := spells_items items (forall_parts_array.mp h).2
    cases items with
    | nil => exact (reads_array_empty blanks_nil).weaken
    | cons v rest =>
      rw [write, List.append_assoc]
      exact (reads_array blanks_nil (reads_writeItems hitems)).weaken
  | object members =>
    have hmembers := spells_members members (forall_parts_object.mp h).2
    cases members with
    | nil => exact (reads_object_empty blanks_nil).weaken
    | cons e rest =>
      have hread := reads_object blanks_nil (reads_writeMembers hself.2 hmembers)
      have hkeys : (OrderedMap.keys (normalMembers (e :: rest))).Nodup :=
        keys_normalMembers (e :: rest) ▸ hself.1
      rw [OrderedMap.ofList_of_nodup hkeys] at hread
      rw [write, List.append_assoc]
      exact hread.weaken

theorem spells_items (items : List Json)
    (h : ∀ v ∈ items, ∀ w ∈ v.parts, w.Proper ∧ w.Exact) :
    ∀ v ∈ items, Spells (v.write .spaced) v.normal := by
  cases items with
  | nil => exact nofun
  | cons v rest =>
    obtain ⟨hv, hrest⟩ := List.forall_mem_cons.mp h
    exact List.forall_mem_cons.mpr ⟨spells_write v hv, spells_items rest hrest⟩

theorem spells_members (members : List (Text × Json))
    (h : ∀ e ∈ members, ∀ w ∈ e.2.parts, w.Proper ∧ w.Exact) :
    ∀ e ∈ members, Spells (e.2.write .spaced) e.2.normal := by
  cases members with
  | nil => exact nofun
  | cons e rest =>
    obtain ⟨key, v⟩ := e
    obtain ⟨hv, hrest⟩ := List.forall_mem_cons.mp h
    exact List.forall_mem_cons.mpr ⟨spells_write v hv, spells_members rest hrest⟩

end

/-- A document that is written is read back without signs on zeros. -/
theorem ofText_write {v : Json} (h : ∀ w ∈ v.parts, w.Proper ∧ w.Exact) :
    ofText (v.write .spaced) = .ok v.normal := by
  have hread := ofText_append blanks_nil (spells_write v h) blanks_nil rfl
  rwa [List.nil_append, List.append_nil] at hread

end Json

end NodeBootstrap
