import NodeBootstrap.Proofs.KubeletConfig.Table

/-!
# The scan agrees with the reader

`scanObject` reads an object of its own accord, next to the reader of values. The two accept the same
texts and stop at the same place (`scanObject_agrees`), and the table tabulates what the reader
finds: its keys and values, each at the last place where its key is written.

One direction goes along the reader: where `Json.readMembers` finds members, so does `membersFrom`
(`membersFrom_of_readMembers`). From there on both sides are told by the object text that stands in
the document, and the places in the table are those of the text.
-/

set_option autoImplicit false

namespace NodeBootstrap

theorem Cursor.skipBlanks_skipBlanks (place : Cursor) :
    place.skipBlanks.skipBlanks = place.skipBlanks := by
  obtain ⟨blanks, t, -, -, ht, hskip⟩ := skipBlanks_eq place
  rw [hskip]
  exact skipBlanks_append blanks_nil ht _

namespace Json

/-- A mark behind blanks that ends a value ends it with the blanks. -/
theorem endsValue_of_skipBlanks {place : Cursor} {t : Text} (h : place.skipBlanks.rest = t)
    (hend : endsValue t = true) : endsValue place.rest = true := by
  obtain ⟨blanks, hblanks, htook, -⟩ := Cursor.took_skipBlanks place
  rw [htook.rest, h]
  exact endsValue_append hblanks hend

/-- What is read with some fuel in front of what ends it is read with enough fuel. -/
theorem valueAt_of_readValue {fuel : Nat} {place behind : Cursor} {v : Json}
    (h : readValue fuel place = .ok (v, behind)) (hend : endsValue behind.rest = true) :
    valueAt place = .ok (v, behind) := by
  obtain ⟨s, ⟨hrest, hoffset⟩, hs⟩ := spells_of_readValue h
  obtain ⟨offset, t⟩ := place
  obtain ⟨offset', u⟩ := behind
  dsimp only at hrest hoffset hend
  rw [hrest, hoffset]
  exact valueAt_append hs hend offset

/-- Words and numbers are no objects. -/
theorem scalarAt_ne_object {place behind : Cursor} {members : List (Text × Json)} :
    scalarAt place ≠ .ok (.object members, behind) := by
  intro h
  unfold scalarAt at h
  split at h
  next word v hword =>
    have hmem := List.mem_of_find?_eq_some hword
    cases h
    simp [words] at hmem
  next =>
    split at h
    next => cases h
    next => split at h <;> cases h

/-- A value that is an object begins with a brace. Behind it and blanks, the object is closed, or its
members are read. -/
theorem object_of_valueAt {place behind : Cursor} {members : List (Text × Json)}
    (h : valueAt place = .ok (.object members, behind)) :
    ∃ rest, place.rest = .char '{' :: rest ∧
      ((∃ t, (Cursor.skipBlanks ⟨place.offset + 1, rest⟩).rest = .char '}' :: t ∧ members = []) ∨
        ∃ fuel read, readMembers fuel (Cursor.skipBlanks ⟨place.offset + 1, rest⟩) =
          .ok (read, behind) ∧ members = OrderedMap.ofList read) := by
  unfold valueAt readValue at h
  split at h
  next =>
    obtain ⟨⟨s, _⟩, -, heq⟩ := bind_eq_ok.mp h
    cases heq
  next rest hbrace =>
    refine ⟨rest, hbrace, ?_⟩
    dsimp only at h
    split at h
    next t hclose =>
      cases h
      exact .inl ⟨t, hclose, rfl⟩
    next =>
      obtain ⟨⟨read, _⟩, hread, heq⟩ := bind_eq_ok.mp h
      cases heq
      exact .inr ⟨_, read, hread, rfl⟩
  next rest hbracket =>
    dsimp only at h
    split at h
    next => cases h
    next =>
      obtain ⟨⟨items, _⟩, -, heq⟩ := bind_eq_ok.mp h
      cases heq
  next => exact absurd h scalarAt_ne_object

end Json

namespace KubeletConfig

open MemberText

theorem expect_of_skipBlanks {c : CodePoint} {place : Cursor} {rest : Text}
    (h : place.skipBlanks.rest = c :: rest) :
    expect c place = .ok ⟨place.skipBlanks.offset + 1, rest⟩ := by
  simp only [expect, h, if_true]

/-- What is read as members is scanned. -/
theorem membersFrom_of_readMembers {document : Text} {fuel : Nat} {place behind : Cursor}
    {members : List (Text × Json)}
    (h : Json.readMembers fuel place.skipBlanks = .ok (members, behind)) :
    ∃ scanned, membersFrom document fuel place = .ok (scanned, behind.offset) := by
  induction fuel generalizing place members with
  | zero => cases h
  | succ fuel ih =>
    unfold Json.readMembers at h
    split at h
    next rest hquote =>
      obtain ⟨⟨key, behindKey⟩, hstring, h⟩ := bind_eq_ok.mp h
      have hkey : malformed document (Json.stringBody (place.skipBlanks.offset + 1 - 1)
          (place.skipBlanks.offset + 1) rest) = .ok (key, behindKey) := mapError_eq_ok.mpr hstring
      dsimp only at h
      split at h
      next rest' hcolon =>
        obtain ⟨⟨v, stop⟩, hvalue, h⟩ := bind_eq_ok.mp h
        have hread : ∀ {t : Text}, stop.skipBlanks.rest = t → Json.endsValue t = true →
            malformed document (Json.valueAt
              (Cursor.skipBlanks ⟨behindKey.skipBlanks.offset + 1, rest'⟩)) = .ok (v, stop) :=
          fun ht hend => mapError_eq_ok.mpr
            (Json.valueAt_of_readValue hvalue (Json.endsValue_of_skipBlanks ht hend))
        dsimp only at h
        split at h
        next rest'' hclose =>
          cases h
          simp only [membersFrom, expect_of_skipBlanks hquote, ok_bind, hkey,
            expect_of_skipBlanks hcolon, hread hclose rfl, hclose]
          exact ⟨_, rfl⟩
        next rest'' hcomma =>
          obtain ⟨⟨others, _⟩, hothers, heq⟩ := bind_eq_ok.mp h
          cases heq
          obtain ⟨scanned, hscanned⟩ := ih hothers
          have hnext : expect (.char ',') stop.skipBlanks =
              .ok ⟨stop.skipBlanks.offset + 1, rest''⟩ := by
            have htwice := Cursor.skipBlanks_skipBlanks stop
            rw [expect_of_skipBlanks ((congrArg Cursor.rest htwice).trans hcomma), htwice]
          simp only [membersFrom, expect_of_skipBlanks hquote, ok_bind, hkey,
            expect_of_skipBlanks hcolon, hread hcomma rfl, hcomma, hnext, hscanned]
          exact ⟨_, rfl⟩
        next => cases h
      next => cases h
    next => cases h

/-- A text in which an object is read begins with an object text. -/
theorem objectText_of_valueAt {place behind : Cursor} {members : List (Text × Json)}
    (h : Json.valueAt place = .ok (.object members, behind)) :
    ∃ o : ObjectText, o.IsValue ∧ place.Took behind o.written ∧ o.content = .object members := by
  obtain ⟨rest, hbrace, hinside⟩ := Json.object_of_valueAt h
  obtain ⟨o, t, ho, htext⟩ : ∃ (o : ObjectText) (t : Text), o.IsValue ∧
      place.rest = o.written ++ t := by
    rcases hinside with ⟨t, hclose, -⟩ | ⟨fuel, read, hread, -⟩
    · obtain ⟨b, hb, htook⟩ := Cursor.took_blanks_mark hclose
      refine ⟨⟨[.char '{'], [], b ++ [.char '}']⟩, t,
        ⟨⟨⟨[], blanks_nil, rfl⟩, trivial, b, hb, rfl⟩, rfl⟩, ?_⟩
      have hrest : rest = b ++ [.char '}'] ++ t := htook.rest
      rw [hbrace, hrest]
      rfl
    · obtain ⟨scanned, hscanned⟩ := @membersFrom_of_readMembers [] _ _ _ _ hread
      obtain ⟨texts, closing, t, htexts, hclosing, hbody, -, -⟩ :=
        membersFrom_spelled hscanned [] [] blanks_nil
          (show place.offset + 1 = place.offset + 1 + ([] ++ [] : Text).length from rfl)
      refine ⟨⟨[.char '{'], texts, closing⟩, t,
        ⟨⟨⟨[], blanks_nil, rfl⟩, htexts, hclosing⟩, rfl⟩, ?_⟩
      have hrest : rest = body texts ++ (closing ++ t) := hbody
      rw [hbrace, hrest]
      simp only [ObjectText.written, List.append_assoc, List.cons_append, List.nil_append]
  have hread := Json.valueAt_append ho.reads (u := t) rfl place.offset
  rw [← htext, h] at hread
  obtain ⟨hcontent, rfl⟩ := Prod.mk.inj (Except.ok.inj hread)
  exact ⟨o, ho, ⟨htext, rfl⟩, hcontent.symm⟩

/-! ## Places of a table -/

/-- The text of a member in its document. -/
def Member.slice (document : Text) (m : Member) : Text := (document.take m.stop).drop m.start

section Places

variable {document front rest : Text} {o : ObjectText} {e : Text × Member}

/-- A member that is placed has its value at its place: the text of the value alone is read there. -/
theorem slice_of_mem_placed (ho : o.WellFormed)
    (hdocument : document = front ++ (o.written ++ rest))
    (h : e ∈ placed (front.length + o.opening.length) o.members) :
    Json.Spells (e.2.slice document) e.2.value := by
  obtain ⟨before, m, after, hmembers, rfl⟩ := exists_of_mem_placed h
  obtain ⟨⟨_, -, hvalue⟩, -⟩ := AllSpelled.split (hmembers ▸ ho.members)
  have hfront : document = (front ++ o.opening ++ body before ++ m.head) ++
      (m.value ++ (body after ++ (o.closing ++ rest))) := by
    rw [hdocument, ObjectText.written, hmembers, body_append, body_cons]
    simp only [List.append_assoc]
  have hstart : front.length + o.opening.length + (body before).length + m.head.length =
      (front ++ o.opening ++ body before ++ m.head).length := by
    simp only [List.length_append]
  have hslice : Member.slice document ⟨m.content,
      (front ++ o.opening ++ body before ++ m.head).length,
        (front ++ o.opening ++ body before ++ m.head).length + m.value.length⟩ = m.value := by
    rw [Member.slice, hfront, List.take_length_add_append, List.drop_left, List.take_left]
  rw [hstart, hslice]
  exact hvalue

/-- The places of members lie between the place where they begin and that where they end. -/
theorem inside_of_mem_placed {separator : Text} {place : Nat} {members : List MemberText}
    (hmembers : AllSpelled separator members) (h : e ∈ placed place members) :
    place < e.2.start ∧ e.2.start < e.2.stop ∧ e.2.stop ≤ place + (body members).length := by
  obtain ⟨before, m, after, rfl, rfl⟩ := exists_of_mem_placed h
  obtain ⟨⟨_, hm⟩, -⟩ := hmembers.split
  have hhead := hm.head_pos
  have hvalue : 0 < m.value.length := by
    obtain ⟨c, t, hstarts, -⟩ := hm.2.starts
    rw [hstarts]
    exact Nat.succ_pos _
  simp only [body_append, body_cons, List.length_append]
  omega

/-- Each member is placed behind the one before, with text between them. -/
theorem placed_pairwise {separator : Text} {members : List MemberText}
    (hmembers : AllSpelled separator members) (place : Nat) :
    (placed place members).Pairwise fun e e' => e.2.stop < e'.2.start := by
  induction members generalizing separator place with
  | nil => exact .nil
  | cons m rest ih =>
    refine List.pairwise_cons.mpr ⟨fun e he => ?_, ih hmembers.2 _⟩
    exact (inside_of_mem_placed hmembers.2 he).1

end Places

/-! ## The scan and the reader -/

/-- A table of the object that stands in a document between two offsets and that the reader reads as
these members. -/
structure Tabulates (document : Text) (start stop : Nat) (members : OrderedMap Text Json)
    (table : OrderedMap Text Member) : Prop where
  /-- The table is that of the object as it is written: its members in order, without those whose
  key is written again. -/
  order : ∃ o : ObjectText, o.IsValue ∧ (document.take stop).drop start = o.written ∧
    o.content = .object members ∧
      table = OrderedMap.latest (placed (start + o.opening.length) o.members)
  /-- No key stands twice. -/
  distinct : table.keys.Nodup
  /-- Keys and values are those that the reader finds. -/
  values : ∀ key, (table.get? key).map Member.value = members.get? key
  /-- Each place holds one value, from its first code point to its last, and a document of that
  text alone is that value. -/
  complete : ∀ e ∈ table, Json.ofText (e.2.slice document) = .ok e.2.value ∧
    Json.valueAt (Cursor.start (e.2.slice document)) =
      .ok (e.2.value, ⟨(e.2.slice document).length, []⟩)
  /-- The places lie inside the braces. -/
  inside : ∀ e ∈ table, start < e.2.start ∧ e.2.start < e.2.stop ∧ e.2.stop < stop
  /-- The places do not meet, and stand in the order of the table. -/
  apart : table.Pairwise fun e e' => e.2.stop < e'.2.start

/-- The members of an object text are tabulated at their places. -/
theorem tabulates_placed {document front rest : Text} {o : ObjectText}
    {members : List (Text × Json)} (ho : o.IsValue)
    (hdocument : document = front ++ (o.written ++ rest)) (hcontent : o.content = .object members) :
    Tabulates document front.length (front.length + o.written.length) members
      (memberTable (placed (front.length + o.opening.length) o.members)) := by
  have hmembers := ho.wellFormed.members
  have hlatest := OrderedMap.latest_sublist (placed (front.length + o.opening.length) o.members)
  rw [memberTable_eq_latest]
  refine ⟨⟨o, ho, ?_, hcontent, rfl⟩, OrderedMap.nodup_keys_latest _, fun key => ?_,
    fun e he => ?_, fun e he => ?_, (placed_pairwise hmembers _).sublist hlatest⟩
  · rw [hdocument, List.take_length_add_append, List.drop_left, List.take_left]
  · obtain rfl : OrderedMap.ofList (entries o.members) = members := Json.object.inj hcontent
    rw [OrderedMap.get?_latest, OrderedMap.get?_ofList, lastOf_entries]
    exact map_value_lastOf_placed _ _ _
  · have hspells := slice_of_mem_placed ho.wellFormed hdocument (hlatest.subset he)
    have hread := Json.valueAt_append hspells (u := []) rfl 0
    rw [List.append_nil, Nat.zero_add] at hread
    have hwhole := Json.ofText_append blanks_nil hspells blanks_nil rfl
    rw [List.nil_append, List.append_nil] at hwhole
    exact ⟨hwhole, hread⟩
  · obtain ⟨hstart, hvalue, hstop⟩ := inside_of_mem_placed hmembers (hlatest.subset he)
    obtain ⟨b, -, hclosing⟩ := ho.wellFormed.closing
    simp only [ObjectText.written, hclosing, List.length_append, List.length_singleton]
    omega

/-- An object text with blanks in front of it. -/
def ObjectText.behind (lead : Text) (o : ObjectText) : ObjectText :=
  { o with opening := lead ++ o.opening }

theorem ObjectText.written_behind (lead : Text) (o : ObjectText) :
    (o.behind lead).written = lead ++ o.written := List.append_assoc ..

theorem ObjectText.IsValue.behind {lead : Text} {o : ObjectText} (ho : o.IsValue)
    (hlead : Blanks lead) : (o.behind lead).WellFormed :=
  ⟨⟨lead, hlead, by rw [ObjectText.behind, ho.opening]⟩, ho.wellFormed.members,
    ho.wellFormed.closing⟩

/-- An object behind blanks is scanned as it is written. -/
theorem membersAt_behind_blanks {document front lead rest : Text} {o : ObjectText} (ho : o.IsValue)
    (hlead : Blanks lead) (hdocument : document = front ++ (lead ++ (o.written ++ rest))) :
    membersAt document front.length =
      .ok (placed ((front ++ lead).length + o.opening.length) o.members,
        (front ++ lead).length + o.written.length) := by
  have htext : document = front ++ ((o.behind lead).written ++ rest) := by
    rw [hdocument, ObjectText.written_behind, List.append_assoc]
  rw [membersAt_written (ho.behind hlead) htext, ObjectText.written_behind]
  simp only [ObjectText.behind, List.length_append, Nat.add_assoc]

/-- Where the reader finds an object, the scan finds its table and stops at the same place. -/
theorem scanObject_of_valueAt {document : Text} {offset : Nat} {behind : Cursor}
    {members : List (Text × Json)}
    (h : Json.valueAt (Cursor.within document offset).skipBlanks = .ok (.object members, behind)) :
    ∃ table, scanObject document offset = .ok (table, behind.offset) ∧
      Tabulates document (Cursor.within document offset).skipBlanks.offset behind.offset members
        table := by
  obtain ⟨o, ho, htook, hcontent⟩ := objectText_of_valueAt h
  obtain ⟨lead, hlead, hskip, -⟩ := Cursor.took_skipBlanks (Cursor.within document offset)
  have hdrop : document.drop offset = lead ++ (o.written ++ behind.rest) := by
    rw [← htook.rest]
    exact hskip.rest
  have hoffset : (document.take offset).length = offset := by
    have hpositive : 0 < (document.drop offset).length := by
      rw [hdrop, ObjectText.written, ho.opening]
      simp only [List.length_append, List.length_singleton]
      omega
    rw [List.length_drop] at hpositive
    rw [List.length_take]
    omega
  have hdocument : document = (document.take offset ++ lead) ++ (o.written ++ behind.rest) := by
    rw [List.append_assoc, ← hdrop, List.take_append_drop]
  have hbrace : (Cursor.within document offset).skipBlanks.offset =
      (document.take offset ++ lead).length := by
    rw [hskip.offset, List.length_append, List.length_take]
    rfl
  have hscan := membersAt_behind_blanks ho hlead (hdocument.trans (List.append_assoc ..))
  rw [hoffset] at hscan
  rw [htook.offset, hbrace]
  refine ⟨_, ?_, tabulates_placed ho hdocument hcontent⟩
  rw [scanObject, hscan]
  rfl

/-- Where the scan finds an object, so does the reader. -/
theorem valueAt_of_scanObject {document : Text} {offset stop : Nat} {table : OrderedMap Text Member}
    (h : scanObject document offset = .ok (table, stop)) :
    ∃ members behind, Json.valueAt (Cursor.within document offset).skipBlanks =
      .ok (.object members, behind) := by
  obtain ⟨⟨members, _⟩, hmembers, -⟩ := bind_eq_ok.mp h
  obtain ⟨o, rest, ho, hdrop, -, -⟩ := membersAt_wellFormed hmembers
  obtain ⟨lead, s, hlead, -, hwritten, hreads⟩ := ho.reads
  have hskip := skipBlanks_append hlead (hreads.settled rest) (min offset document.length)
  rw [← List.append_assoc, ← hwritten, ← hdrop] at hskip
  exact ⟨_, _, (congrArg Json.valueAt hskip).trans (Json.valueAt_append hreads rfl _)⟩

/-- **The scan of an object agrees with the reader of values.** Behind blanks, the scan finds an
object exactly if the reader does. It stops where the reader stops, and its table is one of what the
reader finds. Everything else is a fault. -/
theorem scanObject_agrees (document : Text) (offset : Nat) :
    match Json.valueAt (Cursor.within document offset).skipBlanks with
    | .ok (.object members, behind) =>
      ∃ table, scanObject document offset = .ok (table, behind.offset) ∧
        Tabulates document (Cursor.within document offset).skipBlanks.offset behind.offset members
          table
    | _ => ∃ fault, scanObject document offset = .error fault := by
  split
  next members behind hread => exact scanObject_of_valueAt hread
  next hread =>
    cases hscan : scanObject document offset with
    | error fault => exact ⟨fault, rfl⟩
    | ok found =>
      obtain ⟨members, behind, hobject⟩ := valueAt_of_scanObject hscan
      exact absurd hobject (hread members behind)

end KubeletConfig
end NodeBootstrap
