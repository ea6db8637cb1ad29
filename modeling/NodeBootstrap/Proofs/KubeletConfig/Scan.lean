import NodeBootstrap.Proofs.KubeletConfig.ObjectText

/-!
# The scan finds the members as they are written

`membersAt` walks over an object of a document. What it walks over is a well-formed object text, and
what it reports are the members of that text with their places (`membersAt_wellFormed`). So spans
are right by construction: each is the place of the text of a value.

The other way round, every well-formed object text is scanned as it is written
(`membersAt_written`). Hence a text begins with one object text at most (`written_unique`), and it
makes sense to speak of the members of a document.
-/

set_option autoImplicit false

namespace NodeBootstrap.KubeletConfig

open MemberText

/-! ## What is scanned is an object text -/

/-- The cursor behind an expected code point stands behind blanks and that code point. -/
theorem took_of_expect {c : CodePoint} {place behind : Cursor} (h : expect c place = .ok behind) :
    ∃ b, Blanks b ∧ place.Took behind (b ++ [c]) := by
  unfold expect at h
  dsimp only at h
  split at h
  next d rest hrest =>
    split at h
    next hd =>
      cases h
      exact Cursor.took_blanks_mark (hd ▸ hrest)
    next => cases h
  next => cases h

/-- A member that a scan finds is one of a text that begins with a separator and blanks before it:
the head up to the value, and the value. -/
theorem member_spelled {key : Text} {value : Json} {offset : Nat}
    {place inQuotes behindKey behindColon stop : Cursor}
    (hquote : expect (.char '"') place = .ok inQuotes)
    (hstring : Json.stringBody (inQuotes.offset - 1) inQuotes.offset inQuotes.rest =
      .ok (key, behindKey))
    (hcolon : expect (.char ':') behindKey = .ok behindColon)
    (hvalue : Json.valueAt behindColon.skipBlanks = .ok (value, stop))
    (b separator : Text) (hb : Blanks b)
    (hoffset : place.offset = offset + (b ++ separator).length) :
    ∃ m : MemberText, m.Spelled separator ∧ m.key = key ∧ m.content = value ∧
      b ++ separator ++ place.rest = m.head ++ (m.value ++ stop.rest) ∧
        behindColon.skipBlanks.offset = offset + m.head.length ∧
          stop.offset = offset + m.head.length + m.value.length := by
  obtain ⟨b', hb', hquote⟩ := took_of_expect hquote
  obtain ⟨spelling, hquoted, hkey⟩ := Json.took_stringBody inQuotes hstring
  obtain ⟨b₁, hb₁, hcolon⟩ := took_of_expect hcolon
  obtain ⟨b₂, hb₂, hskip, -⟩ := Cursor.took_skipBlanks behindColon
  obtain ⟨s, htook, hs⟩ := Json.spells_of_readValue hvalue
  have hhead := (hquote.trans hquoted).trans (hcolon.trans hskip)
  have hspelling : b' ++ [.char '"'] ++ (spelling ++ [.char '"']) ++ (b₁ ++ [.char ':'] ++ b₂) =
      b' ++ Json.memberSpelling spelling b₁ b₂ [] := by
    simp only [Json.memberSpelling, List.append_assoc, List.cons_append, List.nil_append,
      List.append_nil]
  rw [hspelling] at hhead
  have hstart : behindColon.skipBlanks.offset =
      offset + (b ++ (separator ++ (b' ++ Json.memberSpelling spelling b₁ b₂ []))).length := by
    rw [hhead.offset, hoffset]
    simp only [List.length_append]
    omega
  refine ⟨⟨b ++ (separator ++ (b' ++ Json.memberSpelling spelling b₁ b₂ [])), key, s, value⟩,
    ⟨⟨b, b', spelling, b₁, b₂, hb, hb', hb₁, hb₂, rfl, hkey⟩, hs⟩, rfl, rfl, ?_, hstart, ?_⟩
  · rw [hhead.rest, htook.rest]
    simp only [List.append_assoc]
  · rw [htook.offset, hstart]

/-- The members that a scan finds from a place on are those of a text that begins with a separator
and blanks before it. -/
theorem membersFrom_spelled {document : Text} {fuel stop offset : Nat} {place : Cursor}
    {members : List (Text × Member)}
    (h : membersFrom document fuel place = .ok (members, stop)) (b separator : Text)
    (hb : Blanks b) (hoffset : place.offset = offset + (b ++ separator).length) :
    ∃ texts closing rest, AllSpelled separator texts ∧
      (∃ b, Blanks b ∧ closing = b ++ [.char '}']) ∧
        b ++ separator ++ place.rest = body texts ++ (closing ++ rest) ∧
          members = placed offset texts ∧ stop = offset + (body texts ++ closing).length := by
  induction fuel generalizing place offset b separator members stop with
  | zero => cases h
  | succ fuel ih =>
    obtain ⟨inQuotes, hquote, h⟩ := bind_eq_ok.mp h
    obtain ⟨⟨key, behindKey⟩, hstring, h⟩ := bind_eq_ok.mp h
    obtain ⟨behindColon, hcolon, h⟩ := bind_eq_ok.mp h
    obtain ⟨⟨value, next⟩, hvalue, h⟩ := bind_eq_ok.mp h
    obtain ⟨m, hm, rfl, rfl, htext, hstart, hnext⟩ := member_spelled hquote
      (mapError_eq_ok.mp hstring) hcolon (mapError_eq_ok.mp hvalue) b separator hb hoffset
    dsimp only at h
    split at h
    next rest hclose =>
      cases h
      obtain ⟨c, hc, hmark⟩ := Cursor.took_blanks_mark hclose
      refine ⟨[m], c ++ [.char '}'], rest, ⟨hm, trivial⟩, ⟨c, hc, rfl⟩, ?_, ?_, ?_⟩
      · rw [htext, hmark.rest, body_cons, body_nil, List.append_nil]
        simp only [List.append_assoc]
      · rw [placed, placed, hstart, hnext]
      · have hstop : next.skipBlanks.offset + 1 = _ := hmark.offset
        rw [hstop, hnext]
        simp only [body_cons, body_nil, List.length_append, List.length_nil]
        omega
    next =>
      obtain ⟨behind, hcomma, h⟩ := bind_eq_ok.mp h
      obtain ⟨⟨members', stop'⟩, hmembers, heq⟩ := bind_eq_ok.mp h
      cases heq
      obtain ⟨c, hc, hskip, -⟩ := Cursor.took_skipBlanks next
      obtain ⟨c', hc', hmark⟩ := took_of_expect hcomma
      have hbehind := hskip.trans hmark
      rw [← List.append_assoc] at hbehind
      obtain ⟨texts, closing, rest, htexts, hclosing, hbody, rfl, rfl⟩ :=
        ih hmembers (c ++ c') (text ",") (hc.append hc') hbehind.offset
      refine ⟨m :: texts, closing, rest, ⟨hm, htexts⟩, hclosing, ?_, ?_, ?_⟩
      · have hrest : next.rest = body texts ++ (closing ++ rest) := by
          rw [← hbody]
          exact hbehind.rest
        rw [htext, hrest, body_cons]
        simp only [List.append_assoc]
      · rw [placed, hstart, hnext]
      · rw [hnext, body_cons]
        simp only [List.length_append]
        omega

/-- The members that a scan finds are those of a well-formed object text that begins at the place.
-/
theorem membersAt_wellFormed {document : Text} {offset stop : Nat}
    {members : List (Text × Member)} (h : membersAt document offset = .ok (members, stop)) :
    ∃ (o : ObjectText) (rest : Text), o.WellFormed ∧ document.drop offset = o.written ++ rest ∧
      members = placed (offset + o.opening.length) o.members ∧
        stop = offset + o.written.length := by
  obtain ⟨behind, hbrace, h⟩ := bind_eq_ok.mp h
  obtain ⟨b, hb, hopening⟩ := took_of_expect hbrace
  have hdrop : document.drop offset = b ++ [.char '{'] ++ behind.rest := hopening.rest
  have hwithin : behind.offset = offset + (b ++ [CodePoint.char '{']).length := by
    have hpositive : 0 < (document.drop offset).length := by
      rw [hdrop]
      simp only [List.length_append, List.length_singleton]
      omega
    rw [hopening.offset, Cursor.within]
    rw [List.length_drop] at hpositive
    simp only
    omega
  dsimp only at h
  split at h
  next rest hclose =>
    cases h
    obtain ⟨c, hc, hmark⟩ := Cursor.took_blanks_mark hclose
    refine ⟨⟨b ++ [.char '{'], [], c ++ [.char '}']⟩, rest, ⟨⟨b, hb, rfl⟩, trivial, ⟨c, hc, rfl⟩⟩,
      ?_, rfl, ?_⟩
    · rw [hdrop, hmark.rest]
      simp only [ObjectText.written, body_nil, List.nil_append, List.append_assoc]
    · have hstop : behind.skipBlanks.offset + 1 = _ := hmark.offset
      rw [hstop, hwithin]
      simp only [ObjectText.written, body_nil, List.nil_append, List.length_append, Nat.add_assoc]
  next =>
    obtain ⟨c, hc, hskip, -⟩ := Cursor.took_skipBlanks behind
    have hinside : behind.skipBlanks.offset = offset + (b ++ [CodePoint.char '{']).length +
        (c ++ []).length := by rw [hskip.offset, hwithin, List.append_nil]
    obtain ⟨texts, closing, rest, htexts, hclosing, hbody, rfl, rfl⟩ :=
      membersFrom_spelled h c [] hc hinside
    refine ⟨⟨b ++ [.char '{'], texts, closing⟩, rest, ⟨⟨b, hb, rfl⟩, htexts, hclosing⟩, ?_, rfl, ?_⟩
    · rw [List.append_nil] at hbody
      rw [hdrop, hskip.rest, hbody]
      simp only [ObjectText.written, List.append_assoc]
    · simp only [ObjectText.written, List.length_append, Nat.add_assoc]

/-! ## Every object text is scanned -/

/-- An expected code point behind blanks. -/
theorem expect_append {b : Text} (hb : Blanks b) (c : CodePoint) (hc : c.isJsonBlank = false)
    (offset : Nat) (t : Text) :
    expect c ⟨offset, b ++ c :: t⟩ = .ok ⟨offset + b.length + 1, t⟩ := by
  simp only [expect, skipBlanks_mark hb c hc, if_true]

section Forward

variable {document key spelling b b' b₁ b₂ s : Text} {value : Json} {fuel offset start stop : Nat}

private theorem start_eq
    (hstart : offset + (b' ++ Json.memberSpelling spelling b₁ b₂ []).length = start) :
    offset + b'.length + 1 + spelling.length + 1 + b₁.length + 1 + b₂.length = start := by
  rw [List.length_append, Json.length_memberSpelling, List.length_nil] at hstart
  omega

/-- The last member is scanned as it is written. -/
theorem membersFrom_last (hb' : Blanks b') (hkey : Json.SpellsString spelling key)
    (hb₁ : Blanks b₁) (hb₂ : Blanks b₂) (hs : Json.Spells s value) (hb : Blanks b) (t : Text)
    (hstart : offset + (b' ++ Json.memberSpelling spelling b₁ b₂ []).length = start) :
    membersFrom document (fuel + 1)
        ⟨offset, b' ++ (Json.memberSpelling spelling b₁ b₂ [] ++ (s ++ (b ++ .char '}' :: t)))⟩ =
      .ok ([(key, ⟨value, start, start + s.length⟩)], start + s.length + b.length + 1) := by
  have hend : Json.endsValue (b ++ .char '}' :: t) = true := Json.endsValue_append hb rfl
  simp only [membersFrom, Json.memberSpelling_append, List.nil_append,
    expect_append hb' (.char '"') rfl, ok_bind, hkey _ _ _, malformed, mapError_ok,
    expect_append hb₁ (.char ':') rfl, skipBlanks_append hb₂ (hs.settled _),
    Json.valueAt_append hs hend, start_eq hstart, skipBlanks_mark hb (.char '}') rfl]
  rfl

/-- A member before another is scanned as it is written. -/
theorem membersFrom_cons {members : List (Text × Member)} {t : Text} (hb' : Blanks b')
    (hkey : Json.SpellsString spelling key) (hb₁ : Blanks b₁) (hb₂ : Blanks b₂)
    (hs : Json.Spells s value) (hb : Blanks b)
    (hstart : offset + (b' ++ Json.memberSpelling spelling b₁ b₂ []).length = start)
    (hrest : membersFrom document fuel ⟨start + s.length + b.length + 1, t⟩ =
      .ok (members, stop)) :
    membersFrom document (fuel + 1)
        ⟨offset, b' ++ (Json.memberSpelling spelling b₁ b₂ [] ++ (s ++ (b ++ .char ',' :: t)))⟩ =
      .ok ((key, ⟨value, start, start + s.length⟩) :: members, stop) := by
  have hend : Json.endsValue (b ++ .char ',' :: t) = true := Json.endsValue_append hb rfl
  have hcomma : ∀ offset, expect (.char ',') ⟨offset, .char ',' :: t⟩ = .ok ⟨offset + 1, t⟩ :=
    fun offset => expect_append blanks_nil (.char ',') rfl offset t
  simp only [membersFrom, Json.memberSpelling_append, List.nil_append,
    expect_append hb' (.char '"') rfl, ok_bind, hkey _ _ _, malformed, mapError_ok,
    expect_append hb₁ (.char ':') rfl, skipBlanks_append hb₂ (hs.settled _),
    Json.valueAt_append hs hend, start_eq hstart, skipBlanks_mark hb (.char ',') rfl, hcomma,
    hrest]
  rfl

end Forward

/-- Members are scanned as they are written, behind the separator in front of the first. -/
theorem membersFrom_written {document separator closing : Text} {m : MemberText}
    {rest : List MemberText} (hmembers : AllSpelled separator (m :: rest))
    (hclosing : ∃ b, Blanks b ∧ closing = b ++ [.char '}']) :
    ∃ b b' s, Blanks b ∧ Blanks b' ∧ (∃ t, s = .char '"' :: t) ∧ rest.length < s.length ∧
      body (m :: rest) ++ closing = b ++ (separator ++ (b' ++ s)) ∧
        ∀ fuel place t, rest.length < fuel →
          membersFrom document fuel ⟨place + (b ++ separator).length, b' ++ (s ++ t)⟩ =
            .ok (placed place (m :: rest), place + (body (m :: rest) ++ closing).length) := by
  induction rest generalizing separator m with
  | nil =>
    obtain ⟨⟨⟨b, b', spelling, b₁, b₂, hb, hb', h₁, h₂, hhead, hkey⟩, hvalue⟩, -⟩ := hmembers
    obtain ⟨c, hc, rfl⟩ := hclosing
    refine ⟨b, b', Json.memberSpelling spelling b₁ b₂ [] ++ (m.value ++ (c ++ [.char '}'])), hb,
      hb', ⟨_, rfl⟩, ?_, ?_, fun fuel place t hfuel => ?_⟩
    · simp only [List.length_append, List.length_nil, Json.length_memberSpelling]
      omega
    · simp only [body_cons, body_nil, hhead, List.append_nil, List.append_assoc]
    · obtain ⟨fuel, rfl⟩ := Nat.exists_eq_add_one.mpr (Nat.zero_lt_of_lt hfuel)
      have hstart : place + (b ++ separator).length +
          (b' ++ Json.memberSpelling spelling b₁ b₂ []).length = place + m.head.length := by
        simp only [hhead, List.length_append]
        omega
      simp only [List.append_assoc, List.singleton_append]
      rw [membersFrom_last hb' hkey h₁ h₂ hvalue hc t hstart]
      simp only [placed, body_cons, body_nil, List.length_append, List.length_nil, Nat.add_assoc,
        List.length_singleton, Nat.zero_add]
  | cons next rest ih =>
    obtain ⟨⟨⟨b, b', spelling, b₁, b₂, hb, hb', h₁, h₂, hhead, hkey⟩, hvalue⟩, hrest⟩ := hmembers
    obtain ⟨c, c', s, hc, -, -, hlength, htext, hscan⟩ := ih hrest
    refine ⟨b, b', Json.memberSpelling spelling b₁ b₂ [] ++
      (m.value ++ (c ++ (text "," ++ (c' ++ s)))), hb, hb', ⟨_, rfl⟩, ?_, ?_,
        fun fuel place t hfuel => ?_⟩
    · simp only [List.length_append, List.length_cons, Json.length_memberSpelling]
      omega
    · rw [body_cons]
      simp only [List.append_assoc]
      rw [htext, hhead]
      simp only [List.append_assoc]
    · obtain ⟨fuel, rfl⟩ := Nat.exists_eq_add_one.mpr (Nat.zero_lt_of_lt hfuel)
      have hstart : place + (b ++ separator).length +
          (b' ++ Json.memberSpelling spelling b₁ b₂ []).length = place + m.head.length := by
        simp only [hhead, List.length_append]
        omega
      have hcomma : ∀ start, start + (c ++ text ",").length = start + c.length + 1 := fun start => by
        rw [List.length_append, ← Nat.add_assoc]
        rfl
      have hnext := hscan fuel (place + m.head.length + m.value.length) t
        (Nat.lt_of_succ_lt_succ hfuel)
      have hstop : place + m.head.length + m.value.length +
          (body (next :: rest) ++ closing).length =
            place + (body (m :: next :: rest) ++ closing).length := by
        simp only [body_cons m, List.length_append]
        omega
      rw [hcomma, hstop] at hnext
      simp only [List.append_assoc]
      exact membersFrom_cons hb' hkey h₁ h₂ hvalue hc hstart hnext

/-- Members are scanned alike from blanks in front of them. -/
theorem membersFrom_blanks {b : Text} (hb : Blanks b) (document : Text) (fuel offset : Nat)
    {t : Text} (ht : Settled t) :
    membersFrom document (fuel + 1) ⟨offset, b ++ t⟩ =
      membersFrom document (fuel + 1) ⟨offset + b.length, t⟩ := by
  have hskip := skipBlanks_append blanks_nil ht (offset + b.length)
  rw [List.nil_append, List.length_nil, Nat.add_zero] at hskip
  simp only [membersFrom, expect, skipBlanks_append hb ht, hskip]

/-- Every well-formed object text of a document is scanned as it is written. -/
theorem membersAt_written {document front rest : Text} {o : ObjectText} (ho : o.WellFormed)
    (hdocument : document = front ++ (o.written ++ rest)) :
    membersAt document front.length =
      .ok (placed (front.length + o.opening.length) o.members,
        front.length + o.written.length) := by
  obtain ⟨opening, members, closing⟩ := o
  obtain ⟨⟨lead, hlead, hopening⟩, hmembers, hclosing⟩ := ho
  dsimp only at hopening hmembers hclosing
  have hwithin : Cursor.within document front.length =
      ⟨front.length, lead ++ .char '{' :: (body members ++ closing ++ rest)⟩ := by
    have hfront : min front.length document.length = front.length := by
      rw [hdocument, List.length_append]
      omega
    rw [Cursor.within, hfront, hdocument, List.drop_left]
    simp only [ObjectText.written, hopening, List.append_assoc, List.cons_append,
      List.nil_append]
  have hlength : front.length + lead.length + 1 = front.length + opening.length := by
    rw [hopening, List.length_append, Nat.add_assoc]
    rfl
  simp only [membersAt, hwithin, expect_append hlead (.char '{') rfl, ok_bind, hlength]
  cases members with
  | nil =>
    obtain ⟨c, hc, rfl⟩ := hclosing
    simp only [body_nil, List.nil_append, List.append_assoc, List.singleton_append,
      skipBlanks_mark hc (.char '}') rfl, placed, ObjectText.written, List.length_append,
      List.length_singleton, Nat.add_assoc]
    rfl
  | cons m members =>
    obtain ⟨b, b', s, hb, hb', ⟨t, rfl⟩, hcount, htext, hscan⟩ :=
      @membersFrom_written document _ _ _ _ hmembers hclosing
    have hskip : Cursor.skipBlanks ⟨front.length + opening.length,
        body (m :: members) ++ closing ++ rest⟩ =
          ⟨front.length + opening.length + (b ++ b').length, .char '"' :: (t ++ rest)⟩ := by
      have hmark := skipBlanks_mark (hb.append hb') (.char '"') rfl (t ++ rest)
        (front.length + opening.length)
      rw [htext]
      simp only [List.nil_append, List.append_assoc, List.cons_append] at hmark ⊢
      exact hmark
    have hresult := hscan ((t ++ rest).length + 1 + 1) (front.length + opening.length) rest (by
      rw [List.length_cons] at hcount
      rw [List.length_append]
      omega)
    rw [List.cons_append, membersFrom_blanks hb' _ _ _ (settled_cons rfl _), List.append_nil,
      Nat.add_assoc _ b.length] at hresult
    rw [hskip, show (b ++ b').length = b.length + b'.length from List.length_append]
    refine hresult.trans ?_
    simp only [ObjectText.written, List.length_append, Nat.add_assoc]

/-! ## One layout only -/

/-- Members are known from their text and the places of their values. -/
theorem members_unique {place : Nat} {members members' : List MemberText} {t t' : Text}
    (hplaced : placed place members = placed place members')
    (htext : body members ++ t = body members' ++ t') : members = members' ∧ t = t' := by
  induction members generalizing place members' with
  | nil =>
    cases members' with
    | nil => exact ⟨rfl, htext⟩
    | cons m' members' => cases hplaced
  | cons m members ih =>
    cases members' with
    | nil => cases hplaced
    | cons m' members' =>
      obtain ⟨head, key, value, content⟩ := m
      obtain ⟨head', key', value', content'⟩ := m'
      simp only [placed, List.cons.injEq, Prod.mk.injEq, Member.mk.injEq] at hplaced
      obtain ⟨⟨rfl, rfl, hstart, hstop⟩, hrest⟩ := hplaced
      simp only [body_cons, List.append_assoc] at htext
      obtain ⟨rfl, hvalues⟩ := List.append_inj htext (by omega)
      obtain ⟨rfl, hbodies⟩ := List.append_inj hvalues (by omega)
      obtain ⟨rfl, rfl⟩ := ih hrest hbodies
      exact ⟨rfl, rfl⟩

/-- A text begins with one well-formed object text at most: its members, their keys and values and
everything around them are determined. -/
theorem written_unique {o o' : ObjectText} {t t' : Text} (ho : o.WellFormed) (ho' : o'.WellFormed)
    (htext : o.written ++ t = o'.written ++ t') : o = o' := by
  have hscan := @membersAt_written _ [] t o ho rfl
  have hscan' := @membersAt_written _ [] t' o' ho' rfl
  rw [List.nil_append, htext] at hscan
  rw [List.nil_append, hscan] at hscan'
  obtain ⟨hplaced, hlength⟩ := Prod.mk.inj (Except.ok.inj hscan')
  obtain ⟨opening, members, closing⟩ := o
  obtain ⟨opening', members', closing'⟩ := o'
  obtain ⟨⟨lead, hlead, hopening⟩, -, -⟩ := ho
  obtain ⟨⟨lead', hlead', hopening'⟩, -, -⟩ := ho'
  dsimp only at hopening hopening' hplaced
  have hskip := skipBlanks_mark hlead (.char '{') rfl (body members ++ (closing ++ t)) 0
  have hskip' := skipBlanks_mark hlead' (.char '{') rfl (body members' ++ (closing' ++ t')) 0
  simp only [ObjectText.written, hopening, hopening', List.append_assoc, List.cons_append,
    List.nil_append, List.length_append, List.length_cons, List.length_nil] at htext hlength hplaced
  rw [htext, hskip'] at hskip
  have hleads : lead'.length = lead.length := by
    have := (Cursor.mk.inj hskip).1
    omega
  obtain ⟨rfl, hbodies⟩ := List.append_inj htext hleads.symm
  obtain ⟨rfl, hclosings⟩ := members_unique hplaced (List.cons.inj hbodies).2
  obtain ⟨rfl, -⟩ := List.append_inj hclosings (by omega)
  rw [hopening, hopening']

end NodeBootstrap.KubeletConfig
