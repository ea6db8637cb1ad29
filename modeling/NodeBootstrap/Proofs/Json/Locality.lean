import NodeBootstrap.Proofs.Json.Values

/-!
# The reader looks no further

What the reader takes from a cursor is a text of its own: it is read as the same value wherever it
stands, before everything that ends a value. The law is proved for values, members and items
together by induction on the fuel.

From it follow the two facts that patches rest on: a value can be put in the place of another, and
a text is read in one way only.
-/

set_option autoImplicit false

namespace NodeBootstrap

/-- A cursor moved over a text. -/
structure Cursor.Took (place behind : Cursor) (s : Text) : Prop where
  rest : place.rest = s ++ behind.rest
  offset : behind.offset = place.offset + s.length

namespace Cursor

theorem Took.trans {first second third : Cursor} {s t : Text} (hs : first.Took second s)
    (ht : second.Took third t) : first.Took third (s ++ t) := by
  refine ⟨by rw [hs.rest, ht.rest, List.append_assoc], ?_⟩
  rw [ht.offset, hs.offset, List.length_append, Nat.add_assoc]

/-- A cursor moved over one code point. -/
theorem took_mark (offset : Nat) (c : CodePoint) (t : Text) :
    Took ⟨offset, c :: t⟩ ⟨offset + 1, t⟩ [c] :=
  ⟨rfl, rfl⟩

/-- A cursor moved over the blanks in front of it. -/
theorem took_skipBlanks (place : Cursor) :
    ∃ blanks, Blanks blanks ∧ place.Took place.skipBlanks blanks ∧
      Settled place.skipBlanks.rest := by
  obtain ⟨blanks, t, hrest, hblanks, hsettled, hskip⟩ := skipBlanks_eq place
  rw [hskip]
  exact ⟨blanks, hblanks, ⟨hrest, rfl⟩, hsettled⟩

/-- A mark behind blanks. -/
theorem took_blanks_mark {place : Cursor} {c : CodePoint} {t : Text}
    (h : place.skipBlanks.rest = c :: t) :
    ∃ blanks, Blanks blanks ∧
      place.Took ⟨place.skipBlanks.offset + 1, t⟩ (blanks ++ [c]) := by
  obtain ⟨blanks, hblanks, htook, -⟩ := took_skipBlanks place
  refine ⟨blanks, hblanks, htook.trans ⟨h, rfl⟩⟩

end Cursor

namespace Json

/-! ## Numbers and words -/

/-- Whether a text opens a number: with a digit, or with a minus sign and a digit. -/
def opensNumber : Text → Bool
  | [] => false
  | c :: rest => if c = .char '-' then rest.head?.any CodePoint.isDigit else c.isDigit

private theorem opensNumber_of_isPrefixOf {word t : Text} (hword : opensNumber word = false)
    (hlength : 1 < word.length) (h : word.isPrefixOf t = true) : opensNumber t = false := by
  obtain ⟨u, rfl⟩ := List.isPrefixOf_iff_prefix.mp h
  match word, hlength with
  | c :: c' :: word, _ => exact hword

/-- No word opens a number. -/
theorem wordAt?_number {t : Text} (ht : opensNumber t = true) : wordAt? t = none := by
  refine List.find?_eq_none.mpr fun word hword hprefix => ?_
  have hwords : ∀ w ∈ words, opensNumber w.1 = false ∧ 1 < w.1.length := by
    simp only [words, List.forall_mem_cons]
    exact ⟨⟨rfl, by decide⟩, ⟨rfl, by decide⟩, ⟨rfl, by decide⟩, ⟨rfl, by decide⟩,
      ⟨rfl, by decide⟩, ⟨rfl, by decide⟩, fun _ hw => absurd hw List.not_mem_nil⟩
  obtain ⟨hopens, hlength⟩ := hwords word hword
  rw [opensNumber_of_isPrefixOf hopens hlength hprefix] at ht
  cases ht

/-- A number is read by its spelling. -/
theorem reads_number {l : DecimalLiteral} {t rest : Text} (h : numberAt? t = some (l, rest))
    (hlimit : ¬ (l.isWhole = true ∧ digitLimit < l.whole.length)) :
    Spells l.spelling (.number l) := by
  obtain ⟨-, ⟨d, ds, hd, hspelling⟩, hread⟩ := numberAt?_eq h
  have hopens : ∀ u, opensNumber (l.spelling ++ u) = true := by
    intro u
    rcases hspelling with hs | hs <;> rw [hs]
    · have hminus : d ≠ .char '-' := by rintro rfl; cases hd
      simp only [List.cons_append, opensNumber, if_neg hminus, hd]
    · simp only [List.cons_append, opensNumber, if_true, List.head?_cons, Option.any_some, hd]
  have hhead : ∃ c t, l.spelling = c :: t ∧ c.isJsonBlank = false ∧
      c ≠ .char '"' ∧ c ≠ .char '{' ∧ c ≠ .char '[' := by
    rcases hspelling with hs | hs
    · refine ⟨d, ds, hs, ?_, ?_, ?_, ?_⟩
      · apply Bool.eq_false_iff.mpr
        intro hblank
        simp only [CodePoint.isJsonBlank, Bool.or_eq_true, decide_eq_true_eq] at hblank
        rcases hblank with ((rfl | rfl) | rfl) | rfl <;> cases hd
      all_goals rintro rfl; cases hd
    · exact ⟨_, _, hs, rfl, by decide, by decide, by decide⟩
  obtain ⟨c, t', hs, hblank, hmarks⟩ := hhead
  refine .of_succ ⟨c, t', hs, hblank⟩ fun fuel offset u _ hu => ?_
  have hscalar : scalarAt ⟨offset, l.spelling ++ u⟩ =
      .ok (.number l, ⟨offset + l.spelling.length, u⟩) := by
    simp only [scalarAt, wordAt?_number (hopens u), hread u (carriesNumber_of_endsValue hu),
      if_neg hlimit, List.length_append, Nat.add_sub_cancel]
  rw [hs, List.cons_append] at hscalar ⊢
  rw [readValue_scalar hmarks, hscalar]

/-! ## What is read -/

/-- What is read behind the quote that opens a string is a spelling and the quote that closes it. -/
theorem took_stringBody {opening : Nat} {behind : Cursor} {t : Text} (place : Cursor)
    (h : stringBody opening place.offset place.rest = .ok (t, behind)) :
    ∃ body, place.Took behind (body ++ [.char '"']) ∧ SpellsString body t := by
  obtain ⟨body, hrest, hoffset, hspells⟩ := spellsString_of_stringBody h
  refine ⟨body, ⟨?_, ?_⟩, hspells⟩
  · rw [hrest, List.append_assoc]
    rfl
  · rw [hoffset, List.length_append, Nat.add_assoc]
    rfl

/-- A word or a number that is read is a spelling. -/
private theorem scalarAt_took {c behind : Cursor} {v : Json} (h : scalarAt c = .ok (v, behind)) :
    ∃ s, c.Took behind s ∧ Spells s v := by
  unfold scalarAt at h
  split at h
  next word v' hword =>
    cases h
    have hmem := List.mem_of_find?_eq_some hword
    have hprefix : word.isPrefixOf c.rest = true := by
      have hfound := List.find?_some (show words.find? _ = _ from hword)
      exact hfound
    obtain ⟨u, hu⟩ := List.isPrefixOf_iff_prefix.mp hprefix
    refine ⟨word, ⟨?_, rfl⟩, (reads_word hmem).weaken⟩
    simp only [← hu, List.drop_left]
  next =>
    split at h
    next => cases h
    next l rest hnumber =>
      split at h
      next => cases h
      next hlimit =>
        cases h
        have hsplit := (numberAt?_eq hnumber).1
        refine ⟨l.spelling, ⟨hsplit, ?_⟩, reads_number hnumber hlimit⟩
        simp only [hsplit, List.length_append, Nat.add_sub_cancel]

/-- What the reader of values takes with this fuel are spellings of values. -/
private def ReadsValues (fuel : Nat) : Prop :=
  ∀ (c behind : Cursor) (v : Json), readValue fuel c = .ok (v, behind) →
    ∃ s, c.Took behind s ∧ Spells s v

/-- What the reader of members takes with this fuel is read as the same members anywhere. -/
private def ReadsMembers (fuel : Nat) : Prop :=
  ∀ (c behind : Cursor) (members : List (Text × Json)),
    readMembers fuel c = .ok (members, behind) →
      ∃ s, c.Took behind s ∧ Reads readMembers anything s members

/-- What the reader of items takes with this fuel is read as the same items anywhere. -/
private def ReadsItems (fuel : Nat) : Prop :=
  ∀ (c behind : Cursor) (items : List Json), readItems fuel c = .ok (items, behind) →
    ∃ s, c.Took behind s ∧ Reads readItems anything s items

private theorem readsValues_succ {fuel : Nat} (hmembers : ReadsMembers fuel)
    (hitems : ReadsItems fuel) : ReadsValues (fuel + 1) := by
  rintro ⟨offset, t⟩ behind v h
  unfold readValue at h
  split at h
  next rest heq =>
    cases heq
    obtain ⟨⟨s, _⟩, hstring, heq⟩ := bind_eq_ok.mp h
    cases heq
    obtain ⟨body, htook, hspells⟩ := took_stringBody ⟨offset + 1, rest⟩ hstring
    exact ⟨_, (Cursor.took_mark offset (.char '"') rest).trans htook, (reads_string hspells).weaken⟩
  next rest heq =>
    cases heq
    have hbrace := Cursor.took_mark offset (.char '{') rest
    dsimp only at h
    split at h
    next hclose =>
      cases h
      obtain ⟨blanks, hblanks, htook⟩ := Cursor.took_blanks_mark hclose
      exact ⟨_, hbrace.trans htook, (reads_object_empty hblanks).weaken⟩
    next =>
      obtain ⟨⟨members, _⟩, hread, heq⟩ := bind_eq_ok.mp h
      cases heq
      obtain ⟨blanks, hblanks, htook, -⟩ := Cursor.took_skipBlanks ⟨offset + 1, rest⟩
      obtain ⟨s, htook', hs⟩ := hmembers _ _ _ hread
      exact ⟨_, hbrace.trans (htook.trans htook'), (reads_object hblanks hs).weaken⟩
  next rest heq =>
    cases heq
    have hbracket := Cursor.took_mark offset (.char '[') rest
    dsimp only at h
    split at h
    next hclose =>
      cases h
      obtain ⟨blanks, hblanks, htook⟩ := Cursor.took_blanks_mark hclose
      exact ⟨_, hbracket.trans htook, (reads_array_empty hblanks).weaken⟩
    next =>
      obtain ⟨⟨items, _⟩, hread, heq⟩ := bind_eq_ok.mp h
      cases heq
      obtain ⟨blanks, hblanks, htook, -⟩ := Cursor.took_skipBlanks ⟨offset + 1, rest⟩
      obtain ⟨s, htook', hs⟩ := hitems _ _ _ hread
      exact ⟨_, hbracket.trans (htook.trans htook'), (reads_array hblanks hs).weaken⟩
  next => exact scalarAt_took h

private theorem readsItems_succ {fuel : Nat} (hvalues : ReadsValues fuel)
    (hitems : ReadsItems fuel) : ReadsItems (fuel + 1) := by
  intro c behind items h
  unfold readItems at h
  obtain ⟨⟨v, comma⟩, hvalue, h⟩ := bind_eq_ok.mp h
  obtain ⟨s, htook, hs⟩ := hvalues _ _ _ hvalue
  dsimp only at h
  split at h
  next hclose =>
    cases h
    obtain ⟨blanks, hblanks, hmark⟩ := Cursor.took_blanks_mark hclose
    exact ⟨_, htook.trans hmark, reads_items_last hs hblanks⟩
  next rest hcomma =>
    obtain ⟨⟨items', _⟩, hread, heq⟩ := bind_eq_ok.mp h
    cases heq
    obtain ⟨blanks, hblanks, hmark⟩ := Cursor.took_blanks_mark hcomma
    obtain ⟨blanks', hblanks', hskip, -⟩ :=
      Cursor.took_skipBlanks ⟨comma.skipBlanks.offset + 1, rest⟩
    obtain ⟨s', htook', hs'⟩ := hitems _ _ _ hread
    refine ⟨_, htook.trans (hmark.trans (hskip.trans htook')), ?_⟩
    rw [List.append_assoc, List.singleton_append]
    exact reads_items_cons hs hblanks hblanks' hs'
  next => cases h

private theorem readsMembers_succ {fuel : Nat} (hvalues : ReadsValues fuel)
    (hmembers : ReadsMembers fuel) : ReadsMembers (fuel + 1) := by
  rintro ⟨offset, t⟩ behind members h
  unfold readMembers at h
  split at h
  next rest heq =>
    cases heq
    obtain ⟨⟨key, behindKey⟩, hstring, h⟩ := bind_eq_ok.mp h
    obtain ⟨body, hbody, hkey⟩ := took_stringBody ⟨offset + 1, rest⟩ hstring
    have hquoted : Cursor.Took ⟨offset, .char '"' :: rest⟩ behindKey
        (.char '"' :: (body ++ [.char '"'])) :=
      (Cursor.took_mark offset (.char '"') rest).trans hbody
    dsimp only at h
    split at h
    next rest' hcolon =>
      obtain ⟨b₁, h₁, hmark₁⟩ := Cursor.took_blanks_mark hcolon
      obtain ⟨b₂, h₂, hskip₂, -⟩ :=
        Cursor.took_skipBlanks ⟨behindKey.skipBlanks.offset + 1, rest'⟩
      obtain ⟨⟨v, comma⟩, hvalue, h⟩ := bind_eq_ok.mp h
      obtain ⟨s, htook, hs⟩ := hvalues _ _ _ hvalue
      have hmember := hquoted.trans (hmark₁.trans (hskip₂.trans htook))
      have hspelling : .char '"' :: (body ++ [.char '"']) ++ (b₁ ++ [.char ':'] ++ (b₂ ++ s)) =
          memberSpelling body b₁ b₂ s := by
        simp only [memberSpelling, List.cons_append, List.append_assoc, List.nil_append]
      rw [hspelling] at hmember
      dsimp only at h
      split at h
      next hclose =>
        cases h
        obtain ⟨blanks, hblanks, hmark⟩ := Cursor.took_blanks_mark hclose
        exact ⟨_, hmember.trans hmark, reads_members_last hkey h₁ h₂ hs hblanks⟩
      next rest'' hcomma =>
        obtain ⟨⟨members', _⟩, hread, heq⟩ := bind_eq_ok.mp h
        cases heq
        obtain ⟨blanks, hblanks, hmark⟩ := Cursor.took_blanks_mark hcomma
        obtain ⟨blanks', hblanks', hskip, -⟩ :=
          Cursor.took_skipBlanks ⟨comma.skipBlanks.offset + 1, rest''⟩
        obtain ⟨s', htook', hs'⟩ := hmembers _ _ _ hread
        refine ⟨_, hmember.trans (hmark.trans (hskip.trans htook')), ?_⟩
        rw [List.append_assoc, List.singleton_append]
        exact reads_members_cons hkey h₁ h₂ hs hblanks hblanks' hs'
      next => cases h
    next => cases h
  next => cases h

private theorem readsAll (fuel : Nat) :
    ReadsValues fuel ∧ ReadsMembers fuel ∧ ReadsItems fuel := by
  induction fuel with
  | zero => exact ⟨nofun, nofun, nofun⟩
  | succ fuel ih =>
    obtain ⟨hvalues, hmembers, hitems⟩ := ih
    exact ⟨readsValues_succ hmembers hitems, readsMembers_succ hvalues hmembers,
      readsItems_succ hvalues hitems⟩

/-- Every value that is read is a spelling of that value, cut off where the reader stopped. -/
theorem spells_of_readValue {fuel : Nat} {c behind : Cursor} {v : Json}
    (h : readValue fuel c = .ok (v, behind)) : ∃ s, c.Took behind s ∧ Spells s v :=
  (readsAll fuel).1 c behind v h

/-- The fuel of `valueAt` is enough for every spelling. -/
theorem valueAt_append {s u : Text} {v : Json} {follows : Text → Bool}
    (h : Reads readValue follows s v) (hu : follows u = true) (offset : Nat) :
    valueAt ⟨offset, s ++ u⟩ = .ok (v, ⟨offset + s.length, u⟩) := by
  refine h.reads _ offset u ?_ hu
  simp only [List.length_append]
  omega

/-- A text begins with one value at most: two spellings that can be read from the same text are the
same text and spell the same value. -/
theorem Reads.unique {α : Type} {read : Nat → Cursor → Except Fault (α × Cursor)}
    {follows follows' : Text → Bool} {s s' u u' : Text} {a a' : α} (h : Reads read follows s a)
    (h' : Reads read follows' s' a') (hu : follows u = true) (hu' : follows' u' = true)
    (heq : s ++ u = s' ++ u') : s = s' ∧ a = a' := by
  have hread := h.reads (2 * s.length + 2 * s'.length) 0 u (by omega) hu
  have hread' := h'.reads (2 * s.length + 2 * s'.length) 0 u' (by omega) hu'
  rw [heq, hread'] at hread
  obtain ⟨rfl, hbehind⟩ := Prod.mk.inj (Except.ok.inj hread)
  obtain ⟨-, rfl⟩ := Cursor.mk.inj hbehind
  exact ⟨List.append_cancel_right heq, rfl⟩

/-- A document is a spelling with blanks around it. -/
theorem ofText_append {lead s trail : Text} {v : Json} {follows : Text → Bool}
    (hlead : Blanks lead) (h : Reads readValue follows s v) (htrail : Blanks trail)
    (hfollows : follows trail = true) : ofText (lead ++ (s ++ trail)) = .ok v := by
  have hlast := skipBlanks_append htrail (t := []) nofun (0 + lead.length + s.length)
  rw [List.append_nil] at hlast
  simp only [ofText, Cursor.start, skipBlanks_append hlead (h.settled trail),
    valueAt_append h hfollows, ok_bind, hlast]
  rfl

end Json

end NodeBootstrap
