import NodeBootstrap.Json.Reader
import NodeBootstrap.Proofs.Outcome

/-!
# Spellings of strings

A string in a document is read from its opening quote to its closing one, and nothing behind the
closing quote matters. So the text between the quotes has a meaning of its own:
`Json.SpellsString body s` says that `body` spells `s` wherever it stands. The one look ahead of the
reader, for the second half of an escaped pair, stops at the closing quote.

`Json.spellsString_of_stringBody` cuts every string that is read into its spelling and the rest.
-/

set_option autoImplicit false

namespace NodeBootstrap.Json

/-- A text between quotes spells a string, wherever it stands. -/
def SpellsString (body s : Text) : Prop :=
  ∀ (opening offset : Nat) (behind : Text),
    stringBody opening offset (body ++ .char '"' :: behind) =
      .ok (s, ⟨offset + body.length + 1, behind⟩)

/-! ## The look ahead -/

/-- No digit of an escape is a quote. -/
theorem ne_quote_of_hexUnit? {a b c d unit : CodePoint} (h : hexUnit? a b c d = some unit) :
    a ≠ .char '"' ∧ b ≠ .char '"' ∧ c ≠ .char '"' ∧ d ≠ .char '"' := by
  have hq : (CodePoint.char '"').hexValue? = none := by decide
  refine ⟨?_, ?_, ?_, ?_⟩ <;> rintro rfl <;> simp [hexUnit?, hq] at h

theorem beginsWithLowEscape_iff {t : Text} :
    beginsWithLowEscape t = true ↔ ∃ a b c d rest unit,
      t = .char '\\' :: .char 'u' :: a :: b :: c :: d :: rest ∧ hexUnit? a b c d = some unit ∧
        unit.isLowSurrogate = true := by
  constructor
  · intro h
    unfold beginsWithLowEscape at h
    split at h
    · obtain ⟨unit, hunit, hlow⟩ := (Option.any_eq_true ..).mp h
      exact ⟨_, _, _, _, _, unit, rfl, hunit, hlow⟩
    · exact absurd h Bool.false_ne_true
  · rintro ⟨a, b, c, d, rest, unit, rfl, hunit, hlow⟩
    simp only [beginsWithLowEscape, hunit, Option.any_some, hlow]

private theorem beginsWithLowEscape_of_append {body u v : Text}
    (h : beginsWithLowEscape (body ++ .char '"' :: u) = true) :
    beginsWithLowEscape (body ++ .char '"' :: v) = true := by
  obtain ⟨a, b, c, d, rest, unit, ht, hunit, hlow⟩ := beginsWithLowEscape_iff.mp h
  obtain ⟨ha, hb, hc, hd⟩ := ne_quote_of_hexUnit? hunit
  rcases body with _ | ⟨c₁, _ | ⟨c₂, _ | ⟨c₃, _ | ⟨c₄, _ | ⟨c₅, _ | ⟨c₆, body⟩⟩⟩⟩⟩⟩ <;>
    simp only [List.nil_append, List.cons_append, List.cons.injEq] at ht
  · exact absurd ht.1 (by decide)
  · exact absurd ht.2.1 (by decide)
  · exact absurd ht.2.2.1.symm ha
  · exact absurd ht.2.2.2.1.symm hb
  · exact absurd ht.2.2.2.2.1.symm hc
  · exact absurd ht.2.2.2.2.2.1.symm hd
  · obtain ⟨rfl, rfl, rfl, rfl, rfl, rfl, -⟩ := ht
    exact beginsWithLowEscape_iff.mpr ⟨_, _, _, _, _, unit, rfl, hunit, hlow⟩

/-- Whether a low half follows is seen before the closing quote. -/
theorem beginsWithLowEscape_append (body u v : Text) :
    beginsWithLowEscape (body ++ .char '"' :: u) = beginsWithLowEscape (body ++ .char '"' :: v) :=
  Bool.eq_iff_iff.mpr ⟨beginsWithLowEscape_of_append, beginsWithLowEscape_of_append⟩

private theorem joinEscape_append (unit : CodePoint) (body u v following : Text) :
    joinEscape unit (body ++ .char '"' :: u) following =
      joinEscape unit (body ++ .char '"' :: v) following := by
  unfold joinEscape
  rw [beginsWithLowEscape_append body u v]

/-! ## Steps of the reader -/

section Steps

variable {opening offset : Nat} {following : Text} {behind : Cursor}

theorem stringBody_unicode {a b c d unit head : CodePoint} {tail : Text}
    (hunit : hexUnit? a b c d = some unit)
    (hrest : stringBody opening (offset + 6) (head :: tail) = .ok (following, behind)) :
    stringBody opening offset (.char '\\' :: .char 'u' :: a :: b :: c :: d :: head :: tail) =
      .ok (joinEscape unit (head :: tail) following, behind) := by
  rw [stringBody.eq_4 _ _ _ _ _ _ _ _ _ hunit, hrest]
  rfl

theorem stringBody_simple {letter c : CodePoint} {rest : Text}
    (hletter : simpleEscape? letter = some c)
    (hrest : stringBody opening (offset + 2) rest = .ok (following, behind)) :
    stringBody opening offset (.char '\\' :: letter :: rest) = .ok (c :: following, behind) := by
  have hu : letter ≠ .char 'u' := by rintro rfl; cases hletter
  rw [stringBody.eq_7 _ _ _ _ (fun _ _ _ _ _ h _ => hu h) hu, hletter, hrest]
  rfl

theorem stringBody_plain {c : CodePoint} {rest : Text} (hquote : c ≠ .char '"')
    (hback : c ≠ .char '\\') (hcontrol : ¬ c.toNat < 0x20)
    (hrest : stringBody opening (offset + 1) rest = .ok (following, behind)) :
    stringBody opening offset (c :: rest) = .ok (c :: following, behind) := by
  rw [stringBody.eq_8 _ _ _ _ hquote (fun h _ => hback h) (fun _ _ _ _ _ h _ => hback h)
    (fun _ h _ => hback h) (fun _ _ h _ => hback h), if_neg hcontrol, hrest]
  rfl

end Steps

/-! ## Spellings -/

/-- Nothing between quotes spells the empty string. -/
theorem spellsString_nil : SpellsString [] [] := fun _ _ _ => rfl

/-- A character that needs no escape stands for itself. -/
theorem SpellsString.plain {c : CodePoint} {body s : Text} (hquote : c ≠ .char '"')
    (hback : c ≠ .char '\\') (hcontrol : ¬ c.toNat < 0x20) (h : SpellsString body s) :
    SpellsString (c :: body) (c :: s) := by
  intro opening offset u
  have := stringBody_plain hquote hback hcontrol (h opening (offset + 1) u)
  rw [List.cons_append, this, List.length_cons]
  congr 4
  omega

/-- A letter behind a backslash. -/
theorem SpellsString.simple {letter c : CodePoint} {body s : Text}
    (hletter : simpleEscape? letter = some c) (h : SpellsString body s) :
    SpellsString (.char '\\' :: letter :: body) (c :: s) := by
  intro opening offset u
  have := stringBody_simple hletter (h opening (offset + 2) u)
  rw [List.cons_append, List.cons_append, this, List.length_cons, List.length_cons]
  congr 4
  omega

/-- Four digits behind a backslash; a low half that follows joins a high one. -/
theorem SpellsString.unicode {a b c d unit : CodePoint} {body s : Text}
    (hunit : hexUnit? a b c d = some unit) (h : SpellsString body s) :
    SpellsString (.char '\\' :: .char 'u' :: a :: b :: c :: d :: body)
      (joinEscape unit (body ++ [.char '"']) s) := by
  intro opening offset u
  obtain ⟨head, tail, hcons⟩ : ∃ head tail, body ++ .char '"' :: u = head :: tail :=
    List.exists_cons_of_ne_nil (by simp)
  have hbody := h opening (offset + 6) u
  rw [hcons] at hbody
  have := stringBody_unicode hunit hbody
  rw [← hcons] at this
  simp only [List.cons_append, List.length_cons]
  rw [this, joinEscape_append unit body u []]
  congr 4
  omega

/-- What is read as a string is a spelling, its closing quote and the rest. -/
theorem spellsString_of_stringBody {opening offset : Nat} {t s : Text} {behind : Cursor}
    (h : stringBody opening offset t = .ok (s, behind)) :
    ∃ body, t = body ++ .char '"' :: behind.rest ∧ behind.offset = offset + body.length + 1 ∧
      SpellsString body s := by
  induction offset, t using stringBody.induct generalizing s with
  | case1 offset => cases h
  | case2 offset rest =>
    cases h
    exact ⟨[], rfl, rfl, spellsString_nil⟩
  | case3 offset => cases h
  | case4 offset a b c d unit head tail hunit ih =>
    rw [stringBody.eq_4 _ _ _ _ _ _ _ _ _ hunit] at h
    obtain ⟨⟨following, _⟩, hrest, heq⟩ := bind_eq_ok.mp h
    cases heq
    obtain ⟨body, ht, hoff, hspell⟩ := ih hrest
    refine ⟨.char '\\' :: .char 'u' :: a :: b :: c :: d :: body, by rw [ht]; rfl, ?_, ?_⟩
    · simp only [List.length_cons]; omega
    · rw [ht, joinEscape_append unit body behind.rest []]
      exact hspell.unicode hunit
  | case5 offset a b c d rest hno =>
    rw [stringBody.eq_5 _ _ _ _ _ _ _ hno] at h
    cases h
  | case6 offset tail hno =>
    rw [stringBody.eq_6 _ _ _ hno] at h
    cases h
  | case7 offset letter rest hno hu c hletter ih =>
    rw [stringBody.eq_7 _ _ _ _ hno hu, hletter] at h
    obtain ⟨⟨following, _⟩, hrest, heq⟩ := bind_eq_ok.mp h
    cases heq
    obtain ⟨body, ht, hoff, hspell⟩ := ih hrest
    refine ⟨.char '\\' :: letter :: body, by rw [ht]; rfl, ?_, hspell.simple hletter⟩
    simp only [List.length_cons]
    omega
  | case8 offset letter rest hno hu hletter =>
    rw [stringBody.eq_7 _ _ _ _ hno hu, hletter] at h
    cases h
  | case9 offset c rest h₁ h₂ h₃ h₄ h₅ hcontrol =>
    rw [stringBody.eq_8 _ _ _ _ h₁ h₂ h₃ h₄ h₅, if_pos hcontrol] at h
    cases h
  | case10 offset c rest h₁ h₂ h₃ h₄ h₅ hcontrol ih =>
    rw [stringBody.eq_8 _ _ _ _ h₁ h₂ h₃ h₄ h₅, if_neg hcontrol] at h
    obtain ⟨⟨following, _⟩, hrest, heq⟩ := bind_eq_ok.mp h
    cases heq
    obtain ⟨body, ht, hoff, hspell⟩ := ih hrest
    have hback : c ≠ .char '\\' := by
      rintro rfl
      cases rest with
      | nil => exact h₂ rfl rfl
      | cons letter rest => exact h₅ letter rest rfl rfl
    refine ⟨c :: body, by rw [ht]; rfl, ?_, hspell.plain h₁ hback hcontrol⟩
    simp only [List.length_cons]
    omega

end NodeBootstrap.Json
