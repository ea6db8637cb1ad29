import NodeBootstrap.KubeletConfig.Members
import NodeBootstrap.Proofs.Json.Locality

/-!
# Objects as they are written

An object of a document with all its text: what stands before the first member, the members with
everything between them, and what stands behind the last. Each member is cut at its value. What is
in front of the value (blanks, the comma behind the member before, the key as it is spelled, the
colon) is the head of the member.

A well-formed object text is read as one value, the object of its members, whatever follows it.
-/

set_option autoImplicit false

namespace NodeBootstrap.KubeletConfig

/-- A member as it is written: the text from the end of the member before up to the value, the key
that is read in it, the text of the value and the value that is read in it. -/
structure MemberText where
  head : Text
  key : Text
  value : Text
  content : Json

/-- An object as it is written: up to its brace, its members, and from behind the last value on. -/
structure ObjectText where
  opening : Text
  members : List MemberText
  closing : Text

namespace MemberText

/-- The text of a member. -/
def written (m : MemberText) : Text := m.head ++ m.value

/-- A head that spells the key and a value that spells the content. The separator is what stands
between this member and the one before; blanks may be around it. -/
def Spelled (separator : Text) (m : MemberText) : Prop :=
  (∃ b b' body b₁ b₂, Blanks b ∧ Blanks b' ∧ Blanks b₁ ∧ Blanks b₂ ∧
    m.head = b ++ (separator ++ (b' ++ Json.memberSpelling body b₁ b₂ [])) ∧
      Json.SpellsString body m.key) ∧
    Json.Spells m.value m.content

/-- Members that follow a separator, and each other behind a comma. -/
def AllSpelled (separator : Text) : List MemberText → Prop
  | [] => True
  | m :: rest => m.Spelled separator ∧ AllSpelled (text ",") rest

/-- The text of members. -/
def body (members : List MemberText) : Text := members.flatMap written

/-- Keys and values of members, repeated keys too. -/
def entries (members : List MemberText) : List (Text × Json) :=
  members.map fun m => (m.key, m.content)

/-- Members with the places of their values, from a place of the document on. -/
def placed (place : Nat) : List MemberText → List (Text × Member)
  | [] => []
  | m :: rest =>
    let start := place + m.head.length
    let stop := start + m.value.length
    (m.key, ⟨m.content, start, stop⟩) :: placed stop rest

@[simp] theorem body_nil : body [] = [] := rfl

@[simp] theorem body_cons (m : MemberText) (rest : List MemberText) :
    body (m :: rest) = m.head ++ (m.value ++ body rest) := by
  simp only [body, List.flatMap_cons, written, List.append_assoc]

theorem body_append (first second : List MemberText) :
    body (first ++ second) = body first ++ body second := List.flatMap_append

@[simp] theorem entries_nil : entries [] = [] := rfl

@[simp] theorem entries_cons (m : MemberText) (rest : List MemberText) :
    entries (m :: rest) = (m.key, m.content) :: entries rest := rfl

theorem entries_append (first second : List MemberText) :
    entries (first ++ second) = entries first ++ entries second := List.map_append

/-- A member that is placed stands behind the members before it and behind its head. -/
theorem exists_of_mem_placed {place : Nat} {members : List MemberText} {e : Text × Member}
    (h : e ∈ placed place members) :
    ∃ before m after, members = before ++ m :: after ∧
      e = (m.key, ⟨m.content, place + (body before).length + m.head.length,
        place + (body before).length + m.head.length + m.value.length⟩) := by
  induction members generalizing place with
  | nil => cases h
  | cons first rest ih =>
    rcases List.mem_cons.mp h with rfl | h
    · exact ⟨[], first, rest, rfl, rfl⟩
    · obtain ⟨before, m, after, rfl, rfl⟩ := ih h
      refine ⟨first :: before, m, after, rfl, ?_⟩
      simp only [body_cons, List.length_append, Nat.add_assoc]

/-- Among members that follow a separator each is spelled, and those behind it follow a comma. -/
theorem AllSpelled.split {separator : Text} {before after : List MemberText} {m : MemberText}
    (h : AllSpelled separator (before ++ m :: after)) :
    (∃ separator, m.Spelled separator) ∧ AllSpelled (text ",") after := by
  induction before generalizing separator with
  | nil => exact ⟨⟨_, h.1⟩, h.2⟩
  | cons first before ih => exact ih h.2

/-- A member has a head. -/
theorem Spelled.head_pos {separator : Text} {m : MemberText} (h : m.Spelled separator) :
    0 < m.head.length := by
  obtain ⟨⟨b, b', body, b₁, b₂, -, -, -, -, hhead, -⟩, -⟩ := h
  simp only [hhead, List.length_append, Json.length_memberSpelling]
  omega

end MemberText

namespace ObjectText

open MemberText

/-- The text of an object. -/
def written (o : ObjectText) : Text := o.opening ++ (body o.members ++ o.closing)

/-- The value of an object: of a key written twice the last value counts. -/
def content (o : ObjectText) : Json := .object (OrderedMap.ofList (entries o.members))

/-- An object text in the grammar of documents. -/
structure WellFormed (o : ObjectText) : Prop where
  opening : ∃ b, Blanks b ∧ o.opening = b ++ [.char '{']
  members : AllSpelled [] o.members
  closing : ∃ b, Blanks b ∧ o.closing = b ++ [.char '}']

/-- A well-formed object text that begins with its brace, as the text of a value does. -/
structure IsValue (o : ObjectText) : Prop where
  wellFormed : o.WellFormed
  opening : o.opening = [.char '{']

/-- What stands behind a value of an object ends it. -/
theorem endsValue_body {members : List MemberText} {closing rest : Text}
    (hmembers : AllSpelled (text ",") members)
    (hclosing : ∃ b, Blanks b ∧ closing = b ++ [.char '}']) :
    Json.endsValue (body members ++ (closing ++ rest)) = true := by
  cases members with
  | nil =>
    obtain ⟨b, hb, rfl⟩ := hclosing
    simp only [body_nil, List.nil_append, List.append_assoc]
    exact Json.endsValue_append hb rfl
  | cons m members =>
    obtain ⟨⟨⟨b, b', spelling, b₁, b₂, hb, -, -, -, hhead, -⟩, -⟩, -⟩ := hmembers
    simp only [body_cons, hhead, List.append_assoc]
    exact Json.endsValue_append hb rfl

/-- Members and what closes the object are read as the entries, behind the separator in front of
the first. -/
theorem reads_members {separator closing : Text} {m : MemberText} {rest : List MemberText}
    (hmembers : AllSpelled separator (m :: rest))
    (hclosing : ∃ b, Blanks b ∧ closing = b ++ [.char '}']) :
    ∃ b b' s, Blanks b ∧ Blanks b' ∧
      body (m :: rest) ++ closing = b ++ (separator ++ (b' ++ s)) ∧
        Json.Reads Json.readMembers Json.anything s (entries (m :: rest)) := by
  induction rest generalizing separator m with
  | nil =>
    obtain ⟨⟨⟨b, b', spelling, b₁, b₂, hb, hb', h₁, h₂, hhead, hkey⟩, hvalue⟩, -⟩ := hmembers
    obtain ⟨blanks, hblanks, rfl⟩ := hclosing
    refine ⟨b, b', _, hb, hb', ?_, Json.reads_members_last hkey h₁ h₂ hvalue hblanks⟩
    simp only [body_cons, body_nil, hhead, Json.memberSpelling, List.append_assoc,
      List.cons_append, List.nil_append]
  | cons next rest ih =>
    obtain ⟨⟨⟨b, b', spelling, b₁, b₂, hb, hb', h₁, h₂, hhead, hkey⟩, hvalue⟩, hrest⟩ := hmembers
    obtain ⟨c, c', s, hc, hc', htext, hreads⟩ := ih hrest
    refine ⟨b, b', _, hb, hb', ?_, Json.reads_members_cons hkey h₁ h₂ hvalue hc hc' hreads⟩
    have hcomma : c ++ (.char ',' :: (c' ++ s)) = body (next :: rest) ++ closing := htext.symm
    rw [body_cons, hcomma]
    simp only [hhead, Json.memberSpelling, List.append_assoc, List.cons_append, List.nil_append]

/-- A well-formed object text is blanks and then a text that is read as its content, before
anything. -/
theorem WellFormed.reads {o : ObjectText} (h : o.WellFormed) :
    ∃ lead s, Blanks lead ∧ o.opening = lead ++ [.char '{'] ∧ o.written = lead ++ s ∧
      Json.Reads Json.readValue Json.anything s o.content := by
  obtain ⟨opening, members, closing⟩ := o
  obtain ⟨⟨lead, hlead, hopening⟩, hmembers, hclosing⟩ := h
  dsimp only at hopening hclosing hmembers
  cases members with
  | nil =>
    obtain ⟨b, hb, rfl⟩ := hclosing
    refine ⟨lead, _, hlead, hopening, ?_, Json.reads_object_empty hb⟩
    simp only [written, body_nil, hopening, List.append_assoc, List.cons_append, List.nil_append]
  | cons m members =>
    obtain ⟨b, b', s, hb, hb', htext, hreads⟩ := reads_members hmembers hclosing
    refine ⟨lead, _, hlead, hopening, ?_, Json.reads_object (hb.append hb') hreads⟩
    simp only [written, htext, hopening, List.append_assoc, List.cons_append, List.nil_append]

/-- An object text that begins with its brace is read as its content, before anything. -/
theorem IsValue.reads {o : ObjectText} (h : o.IsValue) :
    Json.Reads Json.readValue Json.anything o.written o.content := by
  obtain ⟨lead, s, -, hopening, hwritten, hreads⟩ := h.wellFormed.reads
  have hnone : lead = [] :=
    List.append_cancel_right ((hopening.symm.trans h.opening).trans (List.nil_append _).symm)
  rw [hwritten, hnone, List.nil_append]
  exact hreads

/-- An object text that begins with its brace spells its content. -/
theorem IsValue.spells {o : ObjectText} (h : o.IsValue) : Json.Spells o.written o.content :=
  h.reads.weaken

/-- A document that is an object text is read as its content. -/
theorem WellFormed.ofText {o : ObjectText} (h : o.WellFormed) {trail : Text}
    (htrail : Blanks trail) : Json.ofText (o.written ++ trail) = .ok o.content := by
  obtain ⟨lead, s, hlead, -, hwritten, hreads⟩ := h.reads
  rw [hwritten, List.append_assoc]
  exact Json.ofText_append hlead hreads htrail rfl

end ObjectText

end NodeBootstrap.KubeletConfig
