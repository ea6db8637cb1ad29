import NodeBootstrap.Proofs.Json.Numbers
import NodeBootstrap.Proofs.Json.Strings

/-!
# Spellings of values

A value is read from a cursor with fuel, and the text behind it is left. `Json.Reads` says that a
text is read as something whole, wherever it stands and whatever follows that ends it, as soon as
the fuel is twice its length. `Json.Spells` is the case of values.

The lemmas build spellings: blanks may stand wherever the grammar has them, and a value between
brackets, braces or commas ends there.
-/

set_option autoImplicit false

namespace NodeBootstrap

/-! ## Blanks -/

/-- A text of blanks only. -/
def Blanks (t : Text) : Prop := ∀ c ∈ t, c.isJsonBlank = true

/-- A text that does not begin with a blank. -/
def Settled (t : Text) : Prop := ∀ c ∈ t.head?, c.isJsonBlank = false

theorem blanks_nil : Blanks [] := nofun

theorem Blanks.append {s t : Text} (hs : Blanks s) (ht : Blanks t) : Blanks (s ++ t) := by
  intro c hc
  rcases List.mem_append.mp hc with h | h
  · exact hs c h
  · exact ht c h

theorem settled_cons {c : CodePoint} (hc : c.isJsonBlank = false) (t : Text) :
    Settled (c :: t) := by
  rintro d ⟨⟩
  exact hc

/-- Blanks are skipped up to the first other code point. -/
theorem skipBlanks_append {blanks t : Text} (hblanks : Blanks blanks) (ht : Settled t)
    (offset : Nat) :
    Cursor.skipBlanks ⟨offset, blanks ++ t⟩ = ⟨offset + blanks.length, t⟩ := by
  have hstop : t.takeWhile CodePoint.isJsonBlank = [] ∧ t.dropWhile CodePoint.isJsonBlank = t := by
    cases t with
    | nil => exact ⟨rfl, rfl⟩
    | cons c t =>
      have hc := ht c rfl
      exact ⟨by simp only [List.takeWhile_cons, hc, Bool.false_eq_true, if_false],
        by simp only [List.dropWhile_cons, hc, Bool.false_eq_true, if_false]⟩
  simp only [Cursor.skipBlanks, List.takeWhile_append_of_pos hblanks,
    List.dropWhile_append_of_pos hblanks, hstop, List.append_nil]

/-- Blanks are skipped up to a mark. -/
theorem skipBlanks_mark {blanks : Text} (hblanks : Blanks blanks) (c : CodePoint)
    (hc : c.isJsonBlank = false) (t : Text) (offset : Nat) :
    Cursor.skipBlanks ⟨offset, blanks ++ c :: t⟩ = ⟨offset + blanks.length, c :: t⟩ :=
  skipBlanks_append hblanks (settled_cons hc t) offset

/-- A place splits what is left into blanks and a text without a blank in front. -/
theorem skipBlanks_eq (place : Cursor) :
    ∃ blanks t, place.rest = blanks ++ t ∧ Blanks blanks ∧ Settled t ∧
      place.skipBlanks = ⟨place.offset + blanks.length, t⟩ := by
  refine ⟨_, _, List.takeWhile_append_dropWhile.symm, fun c hc =>
    List.all_eq_true.mp List.all_takeWhile c hc, fun c hc => ?_, rfl⟩
  have hhead := List.head?_dropWhile_not CodePoint.isJsonBlank place.rest
  rw [Option.mem_def] at hc
  rw [hc] at hhead
  exact hhead

namespace Json

/-! ## Whole texts -/

/-- A text is read as something whole before every text that may follow it. -/
structure Reads {α : Type} (read : Nat → Cursor → Except Fault (α × Cursor))
    (follows : Text → Bool) (s : Text) (a : α) : Prop where
  starts : ∃ c t, s = c :: t ∧ c.isJsonBlank = false
  reads : ∀ (fuel offset : Nat) (u : Text), 2 * s.length ≤ fuel → follows u = true →
    read fuel ⟨offset, s ++ u⟩ = .ok (a, ⟨offset + s.length, u⟩)

/-- No condition on what follows. -/
def anything (_ : Text) : Bool := true

/-- A text spells a value. -/
abbrev Spells (s : Text) (v : Json) : Prop := Reads readValue endsValue s v

section Reads

variable {α : Type} {read : Nat → Cursor → Except Fault (α × Cursor)} {follows : Text → Bool}
  {s : Text} {a : α}

/-- One unit of fuel is left for what is read first, for no text that is read whole is empty. -/
theorem Reads.of_succ (hstarts : ∃ c t, s = c :: t ∧ c.isJsonBlank = false)
    (hreads : ∀ (fuel offset : Nat) (u : Text), 2 * s.length ≤ fuel + 1 → follows u = true →
      read (fuel + 1) ⟨offset, s ++ u⟩ = .ok (a, ⟨offset + s.length, u⟩)) :
    Reads read follows s a where
  starts := hstarts
  reads fuel offset u hfuel hu := by
    obtain ⟨c, t, rfl, -⟩ := hstarts
    have hpositive : 0 < fuel := Nat.lt_of_lt_of_le (Nat.succ_pos _) hfuel
    obtain ⟨fuel, rfl⟩ := Nat.exists_eq_add_one.mpr hpositive
    exact hreads fuel offset u hfuel hu

theorem Reads.starts_append (h : Reads read follows s a) (u : Text) :
    ∃ c t, s ++ u = c :: t ∧ c.isJsonBlank = false := by
  obtain ⟨c, t, rfl, hc⟩ := h.starts
  exact ⟨c, t ++ u, rfl, hc⟩

/-- What is read whole has no blank in front. -/
theorem Reads.settled (h : Reads read follows s a) (u : Text) : Settled (s ++ u) := by
  obtain ⟨c, t, hs, hc⟩ := h.starts_append u
  rw [hs]
  exact settled_cons hc t

/-- What is read before anything is read before what ends it. -/
theorem Reads.weaken (h : Reads read anything s a) : Reads read follows s a :=
  ⟨h.starts, fun fuel offset u hfuel _ => h.reads fuel offset u hfuel rfl⟩

end Reads

/-- Blanks in front keep a text that ends a value one. -/
theorem endsValue_append {blanks u : Text} (hblanks : Blanks blanks) (hu : endsValue u = true) :
    endsValue (blanks ++ u) = true := by
  cases blanks with
  | nil => exact hu
  | cons c t =>
    have hc := hblanks c List.mem_cons_self
    simp only [List.cons_append, endsValue, hc, Bool.true_or]

variable {s b b' b₁ b₂ body key : Text} {v : Json} {items : List Json}
  {members : List (Text × Json)}

/-! ## Items -/

/-- The last item and the bracket behind it. -/
theorem reads_items_last (hv : Spells s v) (hb : Blanks b) :
    Reads readItems anything (s ++ (b ++ [.char ']'])) [v] := by
  refine .of_succ (hv.starts_append _) fun fuel offset u hfuel _ => ?_
  simp only [List.length_append, List.length_cons, List.length_nil] at hfuel
  have hvalue := hv.reads fuel offset (b ++ .char ']' :: u) (by omega) (endsValue_append hb rfl)
  simp only [List.append_assoc, List.cons_append, List.nil_append, readItems, hvalue, ok_bind,
    skipBlanks_mark hb (.char ']') rfl]
  simp only [List.length_append, List.length_cons, List.length_nil, Nat.add_assoc]
  rfl

/-- An item, the comma behind it and the items that follow. -/
theorem reads_items_cons (hv : Spells s v) (hb : Blanks b) (hb' : Blanks b') {s' : Text}
    (hitems : Reads readItems anything s' items) :
    Reads readItems anything (s ++ (b ++ .char ',' :: (b' ++ s'))) (v :: items) := by
  refine .of_succ (hv.starts_append _) fun fuel offset u hfuel _ => ?_
  simp only [List.length_append, List.length_cons] at hfuel
  have hvalue := hv.reads fuel offset (b ++ .char ',' :: (b' ++ (s' ++ u))) (by omega)
    (endsValue_append hb rfl)
  have hrest := hitems.reads fuel (offset + s.length + b.length + 1 + b'.length) u (by omega) rfl
  simp only [List.append_assoc, List.cons_append, readItems, hvalue, ok_bind,
    skipBlanks_mark hb (.char ',') rfl,
    skipBlanks_append hb' (hitems.settled u), hrest]
  simp only [List.length_append, List.length_cons, Nat.add_assoc, Nat.add_comm, Nat.add_left_comm]
  rfl

/-! ## Members -/

/-- A key in quotes, the colon behind it and the value. -/
def memberSpelling (body b₁ b₂ s : Text) : Text :=
  .char '"' :: (body ++ .char '"' :: (b₁ ++ .char ':' :: (b₂ ++ s)))

theorem length_memberSpelling (body b₁ b₂ s : Text) :
    (memberSpelling body b₁ b₂ s).length =
      body.length + b₁.length + b₂.length + s.length + 3 := by
  simp only [memberSpelling, List.length_cons, List.length_append]
  omega

theorem memberSpelling_append (body b₁ b₂ s u : Text) :
    memberSpelling body b₁ b₂ s ++ u =
      .char '"' :: (body ++ .char '"' :: (b₁ ++ .char ':' :: (b₂ ++ (s ++ u)))) := by
  simp only [memberSpelling, List.cons_append, List.append_assoc]

/-- The last member and the brace behind it. -/
theorem reads_members_last (hkey : SpellsString body key) (h₁ : Blanks b₁) (h₂ : Blanks b₂)
    (hv : Spells s v) (hb : Blanks b) :
    Reads readMembers anything (memberSpelling body b₁ b₂ s ++ (b ++ [.char '}'])) [(key, v)] := by
  refine .of_succ ⟨_, _, rfl, rfl⟩ fun fuel offset u hfuel _ => ?_
  simp only [List.length_append, List.length_cons, List.length_nil, length_memberSpelling] at hfuel
  have hstring := hkey offset (offset + 1)
    (b₁ ++ .char ':' :: (b₂ ++ (s ++ (b ++ .char '}' :: u))))
  have hvalue := hv.reads fuel (offset + 1 + body.length + 1 + b₁.length + 1 + b₂.length)
    (b ++ .char '}' :: u) (by omega) (endsValue_append hb rfl)
  simp only [List.append_assoc, memberSpelling_append, List.cons_append, List.nil_append,
    readMembers, hstring, ok_bind, skipBlanks_mark h₁ (.char ':') rfl,
    skipBlanks_append h₂ (hv.settled _), hvalue, skipBlanks_mark hb (.char '}') rfl]
  simp only [List.length_append, List.length_cons, List.length_nil, Nat.add_comm,
    Nat.add_left_comm]
  rfl

/-- A member, the comma behind it and the members that follow. -/
theorem reads_members_cons (hkey : SpellsString body key) (h₁ : Blanks b₁) (h₂ : Blanks b₂)
    (hv : Spells s v) (hb : Blanks b) (hb' : Blanks b') {s' : Text}
    (hmembers : Reads readMembers anything s' members) :
    Reads readMembers anything (memberSpelling body b₁ b₂ s ++ (b ++ .char ',' :: (b' ++ s')))
      ((key, v) :: members) := by
  refine .of_succ ⟨_, _, rfl, rfl⟩ fun fuel offset u hfuel _ => ?_
  simp only [List.length_append, List.length_cons, length_memberSpelling] at hfuel
  have hstring := hkey offset (offset + 1)
    (b₁ ++ .char ':' :: (b₂ ++ (s ++ (b ++ .char ',' :: (b' ++ (s' ++ u))))))
  have hvalue := hv.reads fuel (offset + 1 + body.length + 1 + b₁.length + 1 + b₂.length)
    (b ++ .char ',' :: (b' ++ (s' ++ u))) (by omega) (endsValue_append hb rfl)
  have hrest := hmembers.reads fuel (offset + 1 + body.length + 1 + b₁.length + 1 + b₂.length +
    s.length + b.length + 1 + b'.length) u (by omega) rfl
  simp only [List.append_assoc, memberSpelling_append, List.cons_append, readMembers, hstring,
    ok_bind, skipBlanks_mark h₁ (.char ':') rfl, skipBlanks_append h₂ (hv.settled _), hvalue,
    skipBlanks_mark hb (.char ',') rfl,
    skipBlanks_append hb' (hmembers.settled u), hrest]
  simp only [List.length_append, List.length_cons, Nat.add_assoc, Nat.add_comm, Nat.add_left_comm]
  rfl

/-! ## Values -/

/-- A string in quotes. -/
theorem reads_string (hkey : SpellsString body key) :
    Reads readValue anything (.char '"' :: (body ++ [.char '"'])) (.string key) := by
  refine .of_succ ⟨_, _, rfl, rfl⟩ fun fuel offset u _ _ => ?_
  simp only [List.append_assoc, List.cons_append, List.nil_append, readValue,
    hkey offset (offset + 1) u, ok_bind]
  simp only [List.length_append, List.length_cons, List.length_nil, Nat.add_comm,
    Nat.add_left_comm]
  rfl

/-- Braces around blanks. -/
theorem reads_object_empty (hb : Blanks b) :
    Reads readValue anything (.char '{' :: (b ++ [.char '}'])) (.object []) := by
  refine .of_succ ⟨_, _, rfl, rfl⟩ fun fuel offset u _ _ => ?_
  simp only [List.append_assoc, List.cons_append, List.nil_append, readValue,
    skipBlanks_mark hb (.char '}') rfl]
  simp only [List.length_append, List.length_cons, List.length_nil, Nat.add_comm,
    Nat.add_left_comm]
  rfl

/-- Members begin with the quote of a key. -/
private theorem reads_members_quote (h : Reads readMembers anything s members) :
    ∃ t, s = .char '"' :: t := by
  obtain ⟨c, t, rfl, -⟩ := h.starts
  have hread := h.reads (2 * (c :: t).length) 0 [] (Nat.le_refl _) rfl
  by_cases hc : c = .char '"'
  · exact ⟨t, by rw [hc]⟩
  · simp only [List.length_cons, Nat.mul_add, List.append_nil, readMembers] at hread
    split at hread
    next heq => cases heq; exact absurd rfl hc
    next => cases hread

/-- A brace and members up to the closing one. -/
theorem reads_object (hb : Blanks b) (hmembers : Reads readMembers anything s members) :
    Reads readValue anything (.char '{' :: (b ++ s)) (.object (OrderedMap.ofList members)) := by
  refine .of_succ ⟨_, _, rfl, rfl⟩ fun fuel offset u hfuel _ => ?_
  simp only [List.length_append, List.length_cons] at hfuel
  have hrest := hmembers.reads fuel (offset + 1 + b.length) u (by omega) rfl
  obtain ⟨t, rfl⟩ := reads_members_quote hmembers
  simp only [List.append_assoc, List.cons_append] at hrest ⊢
  simp only [readValue, skipBlanks_mark hb (.char '"') rfl, hrest, ok_bind]
  simp only [List.length_append, List.length_cons, Nat.add_comm, Nat.add_left_comm]
  rfl

/-- Brackets around blanks. -/
theorem reads_array_empty (hb : Blanks b) :
    Reads readValue anything (.char '[' :: (b ++ [.char ']'])) (.array []) := by
  refine .of_succ ⟨_, _, rfl, rfl⟩ fun fuel offset u _ _ => ?_
  simp only [List.append_assoc, List.cons_append, List.nil_append, readValue,
    skipBlanks_mark hb (.char ']') rfl]
  simp only [List.length_append, List.length_cons, List.length_nil, Nat.add_comm,
    Nat.add_left_comm]
  rfl

/-- Items do not begin with a bracket that closes. -/
private theorem reads_items_open (h : Reads readItems anything s items) :
    ∃ c t, s = c :: t ∧ c.isJsonBlank = false ∧ c ≠ .char ']' := by
  obtain ⟨c, t, rfl, hc⟩ := h.starts
  refine ⟨c, t, rfl, hc, ?_⟩
  rintro rfl
  cases h.reads (2 * (CodePoint.char ']' :: t).length) 0 [] (Nat.le_refl _) rfl

/-- A bracket and items up to the closing one. -/
theorem reads_array (hb : Blanks b) (hitems : Reads readItems anything s items) :
    Reads readValue anything (.char '[' :: (b ++ s)) (.array items) := by
  refine .of_succ ⟨_, _, rfl, rfl⟩ fun fuel offset u hfuel _ => ?_
  simp only [List.length_append, List.length_cons] at hfuel
  have hrest := hitems.reads fuel (offset + 1 + b.length) u (by omega) rfl
  obtain ⟨c, t, rfl, hc, hopen⟩ := reads_items_open hitems
  simp only [List.append_assoc, List.cons_append] at hrest ⊢
  simp only [readValue, skipBlanks_mark hb c hc, hrest, ok_bind]
  simp only [List.length_append, List.length_cons, Nat.add_comm, Nat.add_left_comm]
  split
  next heq => cases heq; exact absurd rfl hopen
  next => rfl

/-- A value that opens with none of the three marks is a word or a number. -/
theorem readValue_scalar {fuel offset : Nat} {c : CodePoint} {t : Text}
    (hc : c ≠ .char '"' ∧ c ≠ .char '{' ∧ c ≠ .char '[') :
    readValue (fuel + 1) ⟨offset, c :: t⟩ = scalarAt ⟨offset, c :: t⟩ := by
  obtain ⟨hquote, hbrace, hbracket⟩ := hc
  unfold readValue
  split
  next heq => cases heq; exact absurd rfl hquote
  next heq => cases heq; exact absurd rfl hbrace
  next heq => cases heq; exact absurd rfl hbracket
  next => rfl

/-- A word stands for its value. -/
theorem reads_word {word : Text} (h : (word, v) ∈ words) : Reads readValue anything word v := by
  simp only [words, List.mem_cons, List.not_mem_nil, or_false, Prod.mk.injEq] at h
  rcases h with ⟨rfl, rfl⟩ | ⟨rfl, rfl⟩ | ⟨rfl, rfl⟩ | ⟨rfl, rfl⟩ | ⟨rfl, rfl⟩ | ⟨rfl, rfl⟩ <;>
    exact .of_succ ⟨_, _, rfl, rfl⟩ fun _ _ _ _ _ => rfl

end Json

end NodeBootstrap
