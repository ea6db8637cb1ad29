import NodeBootstrap.Proofs.KubeletConfig.Edit
import NodeBootstrap.Proofs.KubeletConfig.Scan

/-!
# The table of members

The table of a document has the member that counts of each key. Where that member is an object, a
scan of its value finds an object text again: it is the whole text of the member, and its content is
the value of the member.
-/

set_option autoImplicit false

namespace NodeBootstrap.KubeletConfig

open MemberText

/-! ## The table -/

/-- The table has the members that count in the order of their places. -/
theorem memberTable_eq_latest (members : List (Text × Member)) :
    memberTable members = OrderedMap.latest members := by
  have hfold : ∀ (table : OrderedMap Text Member) (members : List (Text × Member)),
      members.foldl (fun table m => OrderedMap.erase table m.1 ++ [m]) table =
        table.filter (fun e => e.1 ∉ OrderedMap.keys members) ++ OrderedMap.latest members := by
    intro table members
    induction members generalizing table with
    | nil =>
      rw [List.foldl_nil, OrderedMap.latest, List.append_nil]
      exact (List.filter_eq_self.mpr fun _ _ => rfl).symm
    | cons m members ih =>
      have hearlier : ∀ e : Text × Member, (e.1 ∉ OrderedMap.keys members ∧ e.1 ≠ m.1) ↔
          e.1 ∉ OrderedMap.keys (m :: members) := fun e => by
        have hkeys : OrderedMap.keys (m :: members) = m.1 :: OrderedMap.keys members := rfl
        rw [hkeys, List.mem_cons, not_or, and_comm]
      rw [List.foldl_cons, ih, List.filter_append, OrderedMap.erase, List.filter_filter,
        List.append_assoc, OrderedMap.latest]
      congr 1
      · refine List.filter_congr fun e _ => ?_
        rw [← Bool.decide_and, decide_eq_decide]
        exact hearlier e
      · by_cases hm : m.1 ∈ OrderedMap.keys members
        · simp [hm]
        · simp [hm]
  rw [memberTable, hfold]
  rfl

/-- The table of members has the last member of each key. -/
theorem get?_memberTable (members : List (Text × Member)) (key : Text) :
    (memberTable members).get? key = OrderedMap.lastOf members key := by
  rw [memberTable_eq_latest, OrderedMap.get?_latest]

/-- The last member of the table is the last of the text. -/
theorem getLast?_memberTable (members : List (Text × Member)) (e : Text × Member) :
    (memberTable (members ++ [e])).getLast? = some e := by
  rw [memberTable, List.foldl_append, List.foldl_cons, List.foldl_nil, List.getLast?_append,
    List.getLast?_singleton, Option.some_or]

/-! ## Objects inside objects -/

/-- The text that a scan finds at a value that is an object is the whole text of the value. -/
theorem membersAt_value {document value u : Text} {place stop : Nat} {content : Json}
    {members : List (Text × Member)} (hdrop : document.drop place = value ++ u)
    (hspells : Json.Spells value content) (hu : Json.endsValue u = true)
    (h : membersAt document place = .ok (members, stop)) :
    ∃ o : ObjectText, o.IsValue ∧ o.written = value ∧ o.content = content ∧
      members = placed (place + o.opening.length) o.members := by
  obtain ⟨o, rest, ho, htext, hmembers, -⟩ := membersAt_wellFormed h
  obtain ⟨lead, s, hlead, hopening, hwritten, hreads⟩ := ho.reads
  rw [hdrop, hwritten, List.append_assoc] at htext
  have hnone : lead = [] := by
    obtain ⟨c, t, hvalue, hc⟩ := hspells.starts
    cases lead with
    | nil => rfl
    | cons d lead =>
      rw [hvalue] at htext
      have hd := hlead d List.mem_cons_self
      rw [← (List.cons.inj htext).1, hc] at hd
      cases hd
  rw [hnone, List.nil_append] at htext hwritten hopening
  obtain ⟨hvalue, hcontent⟩ := hspells.unique hreads hu rfl htext
  exact ⟨o, ⟨ho, hopening⟩, hwritten.trans hvalue.symm, hcontent.symm, hmembers⟩

/-- A scan of a member that counts finds an object text, which is the whole text of its value. -/
theorem membersAt_member {document rest key : Text} {offset stop : Nat} {o : ObjectText}
    {found : Member} {members : List (Text × Member)} (ho : o.WellFormed)
    (hdrop : document.drop offset = o.written ++ rest)
    (hfound : OrderedMap.lastOf (placed (offset + o.opening.length) o.members) key = some found)
    (h : membersAt document found.start = .ok (members, stop)) :
    ∃ (m : MemberText) (o' : ObjectText) (u : Text), counting o.members key = some m ∧
      o'.IsValue ∧ o'.written = m.value ∧ o'.content = m.content ∧
        found.stop = found.start + o'.written.length ∧
          document.drop found.start = o'.written ++ u ∧
            members = placed (found.start + o'.opening.length) o'.members := by
  obtain ⟨before, m, after, hsplit, -, -, hcounts, rfl⟩ := exists_of_lastOf_placed hfound
  obtain ⟨⟨_, -, hvalue⟩, hafter⟩ := AllSpelled.split (hsplit ▸ ho.members)
  have hplace : document.drop (offset + o.opening.length + (body before).length + m.head.length) =
      m.value ++ (body after ++ (o.closing ++ rest)) := by
    rw [Nat.add_assoc, Nat.add_assoc, ← List.drop_drop, hdrop, ObjectText.written, hsplit,
      body_append, body_cons]
    have hlength : o.opening.length + ((body before).length + m.head.length) =
        (o.opening ++ (body before ++ m.head)).length := by simp only [List.length_append]
    have htext : o.opening ++ (body before ++ (m.head ++ (m.value ++ body after)) ++ o.closing) ++
        rest = o.opening ++ (body before ++ m.head) ++
          (m.value ++ (body after ++ (o.closing ++ rest))) := by simp only [List.append_assoc]
    rw [hlength, htext, List.drop_left]
  obtain ⟨o', ho', hwritten, hcontent, hmembers⟩ := membersAt_value hplace hvalue
    (ObjectText.endsValue_body hafter ho.closing) h
  rw [← hwritten] at hplace
  exact ⟨m, o', _, hcounts, ho', hwritten, hcontent, by rw [hwritten], hplace, hmembers⟩

end NodeBootstrap.KubeletConfig
