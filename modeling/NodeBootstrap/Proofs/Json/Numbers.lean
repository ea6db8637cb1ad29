import NodeBootstrap.Json.Reader

/-!
# Spellings of numbers

The reader takes the longest number that a text begins with. What it took is the spelling of the
literal, and it takes the same from any text that goes on with something that cannot carry a number
on: neither a digit nor a point nor the mark of an exponent.
-/

set_option autoImplicit false

namespace NodeBootstrap.Json

/-- Whether what follows ends a value: the end of the text, a blank, or the mark behind an item. -/
def endsValue : Text → Bool
  | [] => true
  | c :: _ => c.isJsonBlank || c = .char ',' || c = .char '}' || c = .char ']'

/-- Whether a code point can carry a number on. -/
def carriesNumber (c : CodePoint) : Bool :=
  c.isDigit || c = .char '.' || c = .char 'e' || c = .char 'E'

/-- What ends a value carries no number on. -/
theorem carriesNumber_of_endsValue {u : Text} (h : endsValue u = true) :
    ∀ c ∈ u.head?, carriesNumber c = false := by
  intro c hc
  cases u with
  | nil => cases hc
  | cons d u =>
    cases hc
    simp only [endsValue, CodePoint.isJsonBlank, Bool.or_eq_true, decide_eq_true_eq] at h
    rcases h with (((((h | h) | h) | h) | h) | h) | h <;> subst h <;> rfl

private theorem carries_digit {c : CodePoint} (h : carriesNumber c = false) :
    c.isDigit = false ∧ c ≠ .char '.' := by
  simp only [carriesNumber, Bool.or_eq_false_iff, decide_eq_false_iff_not] at h
  exact ⟨h.1.1.1, h.1.1.2⟩

/-! ## Digits -/

theorem spanDigits_append {digits u : Text} (hdigits : ∀ c ∈ digits, c.isDigit = true)
    (hu : ∀ c ∈ u.head?, c.isDigit = false) : spanDigits (digits ++ u) = (digits, u) := by
  have hstop : u.takeWhile CodePoint.isDigit = [] ∧ u.dropWhile CodePoint.isDigit = u := by
    cases u with
    | nil => exact ⟨rfl, rfl⟩
    | cons c u =>
      have hc := hu c rfl
      exact ⟨by simp [hc], by simp [hc]⟩
  simp only [spanDigits, List.takeWhile_append_of_pos hdigits, List.dropWhile_append_of_pos hdigits,
    hstop, List.append_nil]

private theorem spanDigits_eq {t digits rest : Text} (h : spanDigits t = (digits, rest)) :
    t = digits ++ rest ∧ ∀ c ∈ digits, c.isDigit = true := by
  cases h
  exact ⟨List.takeWhile_append_dropWhile.symm,
    fun c hc => List.all_eq_true.mp List.all_takeWhile c hc⟩

/-! ## The parts of a number -/

/-- The whole part is read alike before anything but a digit. -/
theorem wholePart?_eq {t whole rest : Text} (h : wholePart? t = some (whole, rest)) :
    t = whole ++ rest ∧ (∃ d ds, whole = d :: ds ∧ d.isDigit = true) ∧
      ∀ u : Text, (∀ c ∈ u.head?, c.isDigit = false) →
        wholePart? (whole ++ u) = some (whole, u) := by
  cases t with
  | nil => cases h
  | cons c t =>
    simp only [wholePart?] at h
    split at h
    next hzero =>
      cases h
      subst hzero
      exact ⟨rfl, ⟨_, _, rfl, rfl⟩, fun u _ => rfl⟩
    next hzero =>
      split at h
      next hdigit =>
        obtain ⟨ht, hall⟩ := spanDigits_eq (Option.some.inj h)
        cases whole with
        | nil =>
          have := congrArg Prod.fst (Option.some.inj h)
          simp [spanDigits, hdigit] at this
        | cons d ds =>
          cases ht
          refine ⟨rfl, ⟨_, _, rfl, hdigit⟩, fun u hu => ?_⟩
          rw [List.cons_append, wholePart?, if_neg hzero, if_pos hdigit, ← List.cons_append,
            spanDigits_append hall hu]
      next => cases h

/-- The text of a fraction, with its point. -/
def fractionText (fraction : Text) : Text :=
  if fraction.isEmpty then [] else text "." ++ fraction

/-- Where no point stands there is no fraction. -/
private theorem fractionPart_absent {u : Text}
    (hu : ∀ c ∈ u.head?, c.isDigit = false ∧ c ≠ .char '.') : fractionPart u = ([], u) := by
  cases u with
  | nil => rfl
  | cons c u =>
    have hc := (hu c rfl).2
    unfold fractionPart
    split
    next heq => cases heq; exact absurd rfl hc
    next => rfl

/-- The digits behind a point are all read. -/
private theorem fractionPart_append {d : CodePoint} {ds u : Text}
    (hall : ∀ c ∈ d :: ds, c.isDigit = true) (hu : ∀ c ∈ u.head?, c.isDigit = false) :
    fractionPart (.char '.' :: (d :: ds ++ u)) = (d :: ds, u) := by
  rw [List.cons_append, fractionPart, if_pos (hall d List.mem_cons_self), ← List.cons_append,
    spanDigits_append hall hu]

/-- The fraction is read alike before anything but a digit or a point. -/
theorem fractionPart_eq {t fraction rest : Text} (h : fractionPart t = (fraction, rest)) :
    t = fractionText fraction ++ rest ∧
      ∀ u : Text, (∀ c ∈ u.head?, c.isDigit = false ∧ c ≠ .char '.') →
        fractionPart (fractionText fraction ++ u) = (fraction, u) := by
  unfold fractionPart at h
  split at h
  next c t =>
    split at h
    next hdigit =>
      obtain ⟨ht, hall⟩ := spanDigits_eq h
      cases fraction with
      | nil =>
        have := congrArg Prod.fst h
        simp [spanDigits, hdigit] at this
      | cons d ds =>
        exact ⟨congrArg (_ :: ·) ht, fun u hu => fractionPart_append hall fun c hc => (hu c hc).1⟩
    next =>
      cases h
      exact ⟨rfl, fun _ => fractionPart_absent⟩
  next =>
    cases h
    exact ⟨rfl, fun _ => fractionPart_absent⟩

/-- The sign that the digits of an exponent may have, and the rest. -/
def signPart : Text → Text × Text
  | [] => ([], [])
  | c :: rest => if c = .char '+' ∨ c = .char '-' then ([c], rest) else ([], c :: rest)

private theorem exponentPart_mark {mark : CodePoint} (hmark : mark = .char 'e' ∨ mark = .char 'E')
    (rest : Text) :
    exponentPart (mark :: rest) =
      match spanDigits (signPart rest).2 with
      | ([], _) => ([], mark :: rest)
      | (found, behind) => (mark :: (signPart rest).1 ++ found, behind) := by
  cases rest with
  | nil => exact if_pos hmark
  | cons c rest => exact if_pos hmark

private theorem signPart_eq (t : Text) : t = (signPart t).1 ++ (signPart t).2 := by
  cases t with
  | nil => rfl
  | cons c t =>
    simp only [signPart]
    split <;> rfl

private theorem signPart_append {t : Text} {d : CodePoint} (ds u : Text)
    (hd : d.isDigit = true) (ht : ∃ rest, (signPart t).2 = d :: rest) :
    signPart ((signPart t).1 ++ d :: ds ++ u) = ((signPart t).1, d :: ds ++ u) := by
  have hsign : ¬ (d = .char '+' ∨ d = .char '-') := by
    rintro (rfl | rfl) <;> cases hd
  cases t with
  | nil => simp only [signPart, List.nil_append, List.cons_append, if_neg hsign]
  | cons c t =>
    by_cases hc : c = .char '+' ∨ c = .char '-'
    · simp only [signPart, if_pos hc, List.cons_append, List.nil_append]
    · simp only [signPart, if_neg hc, if_neg hsign, List.cons_append, List.nil_append]

/-- Where no mark stands there is no exponent. -/
private theorem exponentPart_absent {u : Text} (hu : ∀ c ∈ u.head?, carriesNumber c = false) :
    exponentPart u = ([], u) := by
  cases u with
  | nil => rfl
  | cons c u =>
    have hc := hu c rfl
    have hmark : ¬ (c = .char 'e' ∨ c = .char 'E') := by
      rintro (rfl | rfl) <;> cases hc
    simp only [exponentPart, if_neg hmark]

/-- The digits behind a mark and a sign are all read. -/
private theorem exponentPart_append {mark d : CodePoint} {ds t rest u : Text}
    (hmark : mark = .char 'e' ∨ mark = .char 'E') (ht : (signPart t).2 = d :: ds ++ rest)
    (hall : ∀ c ∈ d :: ds, c.isDigit = true) (hu : ∀ c ∈ u.head?, c.isDigit = false) :
    exponentPart (mark :: ((signPart t).1 ++ d :: ds ++ u)) =
      (mark :: (signPart t).1 ++ d :: ds, u) := by
  rw [exponentPart_mark hmark, signPart_append ds u (hall d List.mem_cons_self) ⟨_, ht⟩,
    spanDigits_append hall hu]

/-- The exponent is read alike before anything that carries no number on. -/
theorem exponentPart_eq {t exponent rest : Text} (h : exponentPart t = (exponent, rest)) :
    t = exponent ++ rest ∧ (∀ c ∈ exponent.head?, c = .char 'e' ∨ c = .char 'E') ∧
      ∀ u : Text, (∀ c ∈ u.head?, carriesNumber c = false) →
        exponentPart (exponent ++ u) = (exponent, u) := by
  cases t with
  | nil =>
    cases h
    exact ⟨rfl, nofun, fun _ => exponentPart_absent⟩
  | cons mark t =>
    by_cases hmark : mark = .char 'e' ∨ mark = .char 'E'
    · rw [exponentPart_mark hmark] at h
      split at h
      next =>
        cases h
        exact ⟨rfl, nofun, fun _ => exponentPart_absent⟩
      next found behind hnonempty hspan =>
        cases h
        obtain ⟨hrest, hall⟩ := spanDigits_eq hspan
        cases found with
        | nil => exact absurd rfl hnonempty
        | cons d ds =>
          refine ⟨?_, ?_, fun u hu => ?_⟩
          · rw [List.cons_append, List.cons_append, List.append_assoc, ← hrest, ← signPart_eq]
          · rintro c ⟨⟩
            exact hmark
          · exact exponentPart_append hmark hrest hall fun c hc => (carries_digit (hu c hc)).1
    · simp only [exponentPart, if_neg hmark] at h
      cases h
      exact ⟨rfl, nofun, fun _ => exponentPart_absent⟩

/-! ## Whole numbers -/

/-- A number behind its sign. -/
def unsignedAt? (negative : Bool) (t : Text) : Option (DecimalLiteral × Text) :=
  match wholePart? t with
  | none => none
  | some (whole, rest) =>
    let (fraction, rest) := fractionPart rest
    let (exponent, rest) := exponentPart rest
    some (⟨negative, whole, fraction, exponent⟩, rest)

theorem numberAt?_minus (t : Text) : numberAt? (.char '-' :: t) = unsignedAt? true t := rfl

theorem numberAt?_unsigned {t : Text} (h : ∀ c ∈ t.head?, c ≠ .char '-') :
    numberAt? t = unsignedAt? false t := by
  cases t with
  | nil => rfl
  | cons c t =>
    have hc := h c rfl
    unfold numberAt?
    split
    next negative unsigned heq =>
      split at heq
      next heq' => cases heq'; exact absurd rfl hc
      next => cases heq; rfl

/-- The spelling of a number behind its sign. -/
def unsignedSpelling (l : DecimalLiteral) : Text :=
  l.whole ++ (fractionText l.fraction ++ l.exponent)

/-- A spelling is a sign and the spelling behind it. -/
theorem spelling_eq (l : DecimalLiteral) :
    l.spelling = (if l.negative then text "-" else []) ++ unsignedSpelling l := by
  simp only [DecimalLiteral.spelling, unsignedSpelling, fractionText, List.append_assoc]

private theorem unsignedAt?_eq {negative : Bool} {t rest : Text} {l : DecimalLiteral}
    (h : unsignedAt? negative t = some (l, rest)) :
    l.negative = negative ∧ t = unsignedSpelling l ++ rest ∧
      (∃ d ds, unsignedSpelling l = d :: ds ∧ d.isDigit = true) ∧
      ∀ u : Text, (∀ c ∈ u.head?, carriesNumber c = false) →
        unsignedAt? negative (unsignedSpelling l ++ u) = some (l, u) := by
  unfold unsignedAt? at h
  split at h
  next => cases h
  next whole behind hwhole =>
    obtain ⟨fraction, behind', hfraction⟩ : ∃ f r, fractionPart behind = (f, r) := ⟨_, _, rfl⟩
    obtain ⟨exponent, rest', hexponent⟩ : ∃ e r, exponentPart behind' = (e, r) := ⟨_, _, rfl⟩
    simp only [hfraction, hexponent] at h
    cases h
    obtain ⟨ht, ⟨d, ds, hd, hdigit⟩, hwhole'⟩ := wholePart?_eq hwhole
    obtain ⟨hbehind, hfraction'⟩ := fractionPart_eq hfraction
    obtain ⟨hbehind', hmark, hexponent'⟩ := exponentPart_eq hexponent
    refine ⟨rfl, ?_, ⟨d, ds ++ _, by rw [unsignedSpelling, hd]; rfl, hdigit⟩, fun u hu => ?_⟩
    · rw [unsignedSpelling, List.append_assoc, List.append_assoc, ← hbehind', ← hbehind, ← ht]
    · have hu' : ∀ c ∈ (exponent ++ u).head?, c.isDigit = false ∧ c ≠ .char '.' := by
        intro c hc
        cases exponent with
        | nil => exact carries_digit (hu c hc)
        | cons mark more =>
          cases hc
          rcases hmark c rfl with rfl | rfl <;> exact ⟨rfl, by decide⟩
      have hu'' : ∀ c ∈ (fractionText fraction ++ (exponent ++ u)).head?, c.isDigit = false := by
        intro c hc
        cases fraction with
        | nil => exact (hu' c hc).1
        | cons d more => cases hc; rfl
      simp only [unsignedSpelling, List.append_assoc, unsignedAt?, hwhole' _ hu'',
        hfraction' _ hu', hexponent' u hu]

/-- A number that is read is its spelling, which begins with a digit or a minus sign before one, and
is read from that spelling before anything that carries no number on. -/
theorem numberAt?_eq {t rest : Text} {l : DecimalLiteral} (h : numberAt? t = some (l, rest)) :
    t = l.spelling ++ rest ∧
      (∃ d ds, d.isDigit = true ∧ (l.spelling = d :: ds ∨ l.spelling = .char '-' :: d :: ds)) ∧
      ∀ u : Text, (∀ c ∈ u.head?, carriesNumber c = false) →
        numberAt? (l.spelling ++ u) = some (l, u) := by
  by_cases hminus : ∃ t', t = .char '-' :: t'
  · obtain ⟨t', rfl⟩ := hminus
    rw [numberAt?_minus] at h
    obtain ⟨hneg, ht, ⟨d, ds, hd, hdigit⟩, hread⟩ := unsignedAt?_eq h
    have hspell : l.spelling = .char '-' :: unsignedSpelling l := by rw [spelling_eq, hneg]; rfl
    refine ⟨by rw [hspell, ht]; rfl, ⟨d, ds, hdigit, .inr (by rw [hspell, hd])⟩, fun u hu => ?_⟩
    rw [hspell, List.cons_append, numberAt?_minus, hread u hu]
  · rw [numberAt?_unsigned (by
      rintro c hc rfl
      cases t with
      | nil => cases hc
      | cons c t => cases hc; exact hminus ⟨t, rfl⟩)] at h
    obtain ⟨hneg, ht, ⟨d, ds, hd, hdigit⟩, hread⟩ := unsignedAt?_eq h
    have hspell : l.spelling = unsignedSpelling l := by rw [spelling_eq, hneg]; rfl
    refine ⟨by rw [hspell, ht], ⟨d, ds, hdigit, .inl (by rw [hspell, hd])⟩, fun u hu => ?_⟩
    rw [hspell, numberAt?_unsigned, hread u hu]
    rintro c hc rfl
    rw [hd] at hc
    cases hc
    cases hdigit

end NodeBootstrap.Json
