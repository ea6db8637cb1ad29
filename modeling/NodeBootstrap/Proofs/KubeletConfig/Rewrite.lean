import NodeBootstrap.KubeletConfig.Windows
import NodeBootstrap.Proofs.Json.Written
import NodeBootstrap.Proofs.KubeletConfig.Table

/-!
# What the change for Windows does to a document

The text of a kubelet config for Windows is the text of the config with an edit of its members:
values of four fields are replaced, one of them two objects deep, and fields that are missing are
put behind others. All other text stays.
-/

set_option autoImplicit false

namespace NodeBootstrap.KubeletConfig

open MemberText OrderedMap

/-! ## Single edits -/

namespace MemberText

/-- A member with another value, given by its text and what it reads as. -/
def holding (m : MemberText) (value : Text) (content : Json) : MemberText :=
  { m with value, content }

/-- A member with a value as it is written anew. -/
def set (m : MemberText) (value : Json) : MemberText := m.holding (encoded value) value

/-- A member with an object text. -/
def nest (m : MemberText) (o : ObjectText) : MemberText := m.holding o.written o.content

/-- A member put behind another. -/
def further (key : Text) (value : Json) : MemberText :=
  ⟨text "," ++ encoded (.string key) ++ text ":", key, encoded value, value⟩

/-- The edit of the member of one key. -/
def atKey (key : Text) (edit : MemberText → MemberText) (m : MemberText) : List MemberText :=
  if m.key = key then [edit m] else [m]

end MemberText

/-- An object text with its members edited. -/
def ObjectText.edit (o : ObjectText) (f : MemberText → List MemberText) : ObjectText :=
  { o with members := edited f o.members }

variable {place : Nat} {members : List MemberText} {key : Text} {found : Member}
  {f : MemberText → List MemberText}

/-- A replaced value is the edit that sets it. -/
theorem picks_replace {m : MemberText} {value : Json}
    (hfound : lastOf (placed place members) key = some found)
    (hm : counting members key = some m) (hf : f m = [m.set value]) :
    Picks place members f (key, found.replace value) := by
  have hstop := (found_of_counting hfound hm).2
  refine ⟨found, m, hfound, hm, ⟨Nat.le_refl _, ?_, Nat.le_refl _⟩, ?_⟩
  · exact Nat.le.intro hstop.symm
  · have hspan : Patch.substituted [found.replace value] found.start ([] ++ m.value) =
        [] ++ encoded value := Patch.substituted_span found.start [] m.value rfl hstop
    rw [List.nil_append, List.nil_append] at hspan
    rw [hf, hspan, body_cons, body_nil, List.append_nil]
    rfl

/-- A member inserted behind another is the edit that puts it there. -/
theorem picks_follow {m : MemberText} {key' : Text} {value : Json}
    (hfound : lastOf (placed place members) key = some found)
    (hm : counting members key = some m) (hf : f m = [m, further key' value]) :
    Picks place members f (key, found.follow key' value) := by
  have hstop := (found_of_counting hfound hm).2
  refine ⟨found, m, hfound, hm, ⟨?_, Nat.le_refl _, Nat.le_refl _⟩, ?_⟩
  · exact Nat.le.intro hstop.symm
  · have hspan : Patch.substituted [found.follow key' value] found.start (m.value ++ []) =
        m.value ++ furtherMember key' value :=
      Patch.substituted_span found.start m.value [] hstop hstop
    rw [List.append_nil] at hspan
    rw [hf, hspan, body_cons, body_cons, body_nil, List.append_nil]
    simp only [furtherMember, further, List.append_assoc]

/-- Patches inside an object text that do an edit of its members do that edit of the object. -/
theorem substituted_object {o : ObjectText} {picks : List (Text × Patch)} (ho : o.WellFormed)
    (hnodup : (picks.map Prod.fst).Nodup)
    (hpicks : ∀ e ∈ picks, Picks (place + o.opening.length) o.members f e)
    (hothers : ∀ m ∈ o.members, m.key ∉ picks.map Prod.fst → f m = [m]) :
    Patch.substituted (picks.map Prod.snd) place o.written = (o.edit f).written := by
  have hheads := ho.members.head_pos
  have hspans := (picksWithin_of_picks hpicks).span hheads
  have hsplit : Patch.substituted (picks.map Prod.snd ++ []) (place + o.opening.length)
      (body o.members ++ o.closing) = _ :=
    Patch.substituted_append (place + o.opening.length) (body o.members) o.closing
      (fun p hp => ⟨Nat.le_trans (hspans p hp).2.1 (hspans p hp).2.2, (hspans p hp).2.2⟩) nofun
  rw [List.append_nil] at hsplit
  rw [ObjectText.written, Patch.substituted_append_of_behind place o.opening _
    fun p hp => (hspans p hp).1, hsplit, substituted_picks hheads hnodup hpicks hothers,
    Patch.substituted_nil]
  rfl

/-- A patch that does an edit of an object inside a member does the edit of that member. -/
theorem picks_nest {o : ObjectText} {m : MemberText} {g : MemberText → List MemberText}
    {key' : Text} {p : Patch} (hfound : lastOf (placed place members) key = some found)
    (hm : counting members key = some m) (ho : o.WellFormed) (hwritten : o.written = m.value)
    (hstop : found.stop = found.start + o.written.length)
    (hpick : Picks (found.start + o.opening.length) o.members g (key', p))
    (hothers : ∀ m ∈ o.members, m.key ≠ key' → g m = [m]) (hf : f m = [m.nest (o.edit g)]) :
    Picks place members f (key, p) := by
  refine ⟨found, m, hfound, hm, ?_, ?_⟩
  · obtain ⟨inner, -, hinner, -, ⟨hstart, hspan, hend⟩, -⟩ := hpick
    have hplace := place_lt_of_lastOf_placed ho.members.head_pos hinner
    rw [ObjectText.written, List.length_append, List.length_append] at hstop
    have hfirst : found.start ≤ p.start := by dsimp only at hstart; omega
    have hlast : p.stop ≤ found.stop := by dsimp only at hend; omega
    exact ⟨hfirst, hspan, hlast⟩
  · have hobject : Patch.substituted ([(key', p)].map Prod.snd) found.start o.written =
        (o.edit g).written := by
      refine substituted_object ho (List.pairwise_singleton _ _) (fun e he => ?_) fun m hm hne => ?_
      · rw [List.mem_singleton.mp he]
        exact hpick
      · exact hothers m hm fun heq => hne (List.mem_singleton.mpr heq)
    rw [hf, ← hwritten, body_cons, body_nil, List.append_nil]
    exact congrArg (m.head ++ ·) hobject

/-- The patches of a document: those inside members, and those that put further members behind the
last. -/
theorem applyAll_document {o : ObjectText} (picks : List (Text × Patch)) (further : List Patch)
    (trail : Text) (ho : o.WellFormed) (hnodup : (picks.map Prod.fst).Nodup)
    (hpicks : ∀ e ∈ picks, Picks o.opening.length o.members f e)
    (hothers : ∀ m ∈ o.members, m.key ∉ picks.map Prod.fst → f m = [m])
    (hfurther : ∀ q ∈ further, q.start = o.opening.length + (body o.members).length ∧
      q.stop = q.start) :
    Patch.applyAll (picks.map Prod.snd ++ further) (o.written ++ trail) =
      o.opening ++ (body (edited f o.members) ++
        (further.flatMap Patch.replacement ++ (o.closing ++ trail))) := by
  have hheads := ho.members.head_pos
  have hwithin := picksWithin_of_picks hpicks
  have hspans := hwithin.span hheads
  have hlength : (o.written ++ trail).length =
      o.opening.length + (body o.members).length + o.closing.length + trail.length := by
    simp only [ObjectText.written, List.length_append]
    omega
  have hall : ∀ p ∈ picks.map Prod.snd ++ further, p.Within 0 (o.written ++ trail).length := by
    intro p hp
    rw [hlength]
    rcases List.mem_append.mp hp with hp | hp
    · obtain ⟨hstart, hspan, hstop⟩ := hspans p hp
      exact ⟨by omega, by omega, by omega⟩
    · have := hfurther p hp
      exact ⟨by omega, by omega, by omega⟩
  have hapart : (picks.map Prod.snd ++ further).Pairwise Patch.Apart := by
    refine List.pairwise_append.mpr ⟨hwithin.apart hheads hnodup, ?_, fun p hp q hq => ?_⟩
    · refine List.pairwise_of_forall_mem_list ?_
      intro p hp q hq
      have := hfurther p hp
      have := hfurther q hq
      exact ⟨by omega, by omega⟩
    · obtain ⟨hstart, hspan, hstop⟩ := hspans p hp
      have := hfurther q hq
      exact ⟨by omega, by omega⟩
  have htext : o.written ++ trail = o.opening ++ (body o.members ++ (o.closing ++ trail)) := by
    simp only [ObjectText.written, List.append_assoc]
  rw [Patch.applyAll_eq hall hapart, htext, Patch.substituted_append_of_behind, Nat.zero_add,
    Patch.substituted_append, substituted_picks hheads hnodup hpicks hothers,
    Patch.substituted_insertions _ _ hfurther]
  · intro p hp
    obtain ⟨-, hspan, hstop⟩ := hspans p hp
    exact ⟨Nat.le_trans hspan hstop, hstop⟩
  · intro q hq
    exact Nat.le_of_eq (hfurther q hq).1.symm
  · intro p hp
    rw [Nat.zero_add]
    rcases List.mem_append.mp hp with hp | hp
    · exact (hspans p hp).1
    · have := hfurther p hp
      omega

/-! ## What the change finds -/

theorem memberOn_last {document key : Text} {path : List Text} {table : OrderedMap Text Member}
    {found : Member} (h : memberOn document path table [key] = .ok found) :
    table.get? key = some found := by
  unfold memberOn at h
  split at h
  next => cases h
  next member hmember =>
    rw [if_pos rfl] at h
    cases h
    exact hmember

theorem memberOn_cons {document key next : Text} {path keys : List Text}
    {table : OrderedMap Text Member} {found : Member}
    (h : memberOn document path table (key :: next :: keys) = .ok found) :
    ∃ outer fields members stop, table.get? key = some outer ∧ outer.value = .object fields ∧
      membersAt document outer.start = .ok (members, stop) ∧
        memberOn document path (memberTable members) (next :: keys) = .ok found := by
  unfold memberOn at h
  split at h
  next => cases h
  next outer houter =>
    rw [if_neg (List.cons_ne_nil next keys)] at h
    split at h
    next fields hfields =>
      obtain ⟨⟨inner, last⟩, hscan, h⟩ := bind_eq_ok.mp h
      obtain ⟨⟨members, stop⟩, hmembers, heq⟩ := bind_eq_ok.mp hscan
      cases heq
      exact ⟨outer, fields, members, _, houter, hfields, hmembers, h⟩
    next => cases h

theorem windowsCaFile_eq_ok {directory file : Text} {old : Json}
    (h : windowsCaFile directory old = .ok file) :
    ∃ path, old = .string path ∧ DrivePath.baseName path ≠ [] ∧
      file = DrivePath.join directory (DrivePath.baseName path) := by
  unfold windowsCaFile at h
  split at h
  next path =>
    dsimp only at h
    split at h
    next => cases h
    next hname =>
      cases h
      exact ⟨path, rfl, fun heq => hname (by rw [heq]; rfl), rfl⟩
  next => cases h

/-- A document that is loaded is a well-formed object text with blanks behind it. -/
theorem load_eq_ok {contents : Bytes} {document : Text} {table : OrderedMap Text Member}
    (h : load contents = .ok (document, table)) :
    ∃ (o : ObjectText) (trail : Text), Utf8.decode contents = .ok document ∧ o.WellFormed ∧
      Blanks trail ∧ document = o.written ++ trail ∧
        table = memberTable (placed o.opening.length o.members) := by
  obtain ⟨document', hdecode, h⟩ := bind_eq_ok.mp h
  have hdecode := mapError_eq_ok.mp hdecode
  split at h
  next => cases h
  next =>
    obtain ⟨⟨table', stop⟩, hscan, h⟩ := bind_eq_ok.mp h
    obtain ⟨⟨members, stop'⟩, hmembers, heq⟩ := bind_eq_ok.mp hscan
    cases heq
    dsimp only at h
    split at h
    next hend =>
      cases h
      obtain ⟨o, trail, ho, hdocument, hplaced, hstop⟩ := membersAt_wellFormed hmembers
      rw [List.drop_zero] at hdocument
      rw [Nat.zero_add] at hplaced hstop
      refine ⟨o, trail, hdecode, ho, ?_, hdocument, by rw [hplaced]⟩
      obtain ⟨b, hb, htook, -⟩ := Cursor.took_skipBlanks (Cursor.within document stop)
      have hrest : (Cursor.within document stop).rest = trail := by
        rw [Cursor.within, hstop, hdocument, List.drop_left]
      rw [← hrest, htook.rest, List.isEmpty_iff.mp hend, List.append_nil]
      exact hb
    next => cases h

/-- A document that begins with a brace, and of which a scan leaves blanks only, is loaded. -/
theorem load_of_scan {contents : Bytes} {document : Text} {table : OrderedMap Text Member}
    {stop : Nat} (hdecode : Utf8.decode contents = .ok document)
    (hstart : (Cursor.start document).skipBlanks.rest.head? = some (.char '{'))
    (hscan : scanObject document 0 = .ok (table, stop))
    (hend : (Cursor.within document stop).skipBlanks.rest = []) :
    load contents = .ok (document, table) := by
  simp only [load, hdecode, mapError_ok, ok_bind, hstart, hscan, hend, List.isEmpty_nil, if_true,
    ne_eq, not_true_eq_false, if_false]
  rfl

/-! ## The edit of a document -/

/-- The member that counts for a key holds an object text. -/
def Holds (members : List MemberText) (key : Text) (o : ObjectText) : Prop :=
  o.IsValue ∧ ∃ m, counting members key = some m ∧ m.value = o.written ∧ m.content = o.content

/-- Where the path of the certificate file stands: in the member that counts of the object that the
member that counts holds, and so on. -/
structure CaFileAt (o authentication x509 : ObjectText) (path : Text) : Prop where
  settings : Holds o.members (text "authentication") authentication
  certificates : Holds authentication.members (text "x509") x509
  caFile : (counting x509.members (text "clientCAFile")).map content = some (.string path)

namespace ObjectText

/-- Whether a member has a key. -/
def hasKey (o : ObjectText) (key : Text) : Bool := (counting o.members key).isSome

/-- The object of the certificate settings with another path in it. -/
def withCaFile (authentication x509 : ObjectText) (path : Text) : ObjectText :=
  authentication.edit <| atKey (text "x509") fun m =>
    m.nest <| x509.edit <| atKey (text "clientCAFile") fun m => m.set (.string path)

/-- What becomes of a member of a kubelet config that counts. `qosThere` says whether the switch for
cgroups is there; without it, it is put behind the period for volume statistics. -/
def windowsMember (authentication : ObjectText) (qosThere : Bool) (m : MemberText) :
    List MemberText :=
  if m.key = text "authentication" then [m.nest authentication]
  else if m.key = cgroupDriver then [m.set (.string windowsCgroupDriver)]
  else if m.key = cgroupsPerQos then [m.set (.bool false)]
  else if m.key = enforceNodeAllocatable then [m.set (.array [])]
  else if m.key = volumeStatsPeriod ∧ qosThere = false then
    [m, further cgroupsPerQos (.bool false)]
  else [m]

/-- A kubelet config for Windows: its members edited and, if no limits for pods were there, those
behind the last. -/
def forWindows (o authentication : ObjectText) : ObjectText :=
  let members := edited (windowsMember authentication (o.hasKey cgroupsPerQos)) o.members
  { o with
    members :=
      if o.hasKey enforceNodeAllocatable then members
      else members ++ [further enforceNodeAllocatable (.array [])] }

end ObjectText

/-- The patch for the certificate file does the edit of the settings that it is in. -/
theorem picks_caFile {document trail : Text} {o : ObjectText} {caFile : Member} {path : Text}
    (new : Text) (ho : o.WellFormed) (hdocument : document = o.written ++ trail)
    (h : memberOn document caFilePath (memberTable (placed o.opening.length o.members)) caFilePath =
      .ok caFile) (hpath : caFile.value = .string path) :
    ∃ authentication x509, CaFileAt o authentication x509 path ∧
      ∀ f, (∀ m, m.key = text "authentication" →
          f m = [m.nest (ObjectText.withCaFile authentication x509 new)]) →
        Picks o.opening.length o.members f
          (text "authentication", caFile.replace (.string new)) := by
  obtain ⟨first, -, members₁, stop₁, hfirst, -, hscan₁, h⟩ := memberOn_cons h
  obtain ⟨second, -, members₂, stop₂, hsecond, -, hscan₂, h⟩ := memberOn_cons h
  have hlast := memberOn_last h
  rw [get?_memberTable] at hfirst hsecond hlast
  have hdrop : document.drop 0 = o.written ++ trail := by rw [List.drop_zero, hdocument]
  rw [← Nat.zero_add o.opening.length] at hfirst
  obtain ⟨m₁, authentication, u₁, hm₁, hvalue₁, hwritten₁, hcontent₁, hstop₁, hdrop₁, rfl⟩ :=
    membersAt_member ho hdrop hfirst hscan₁
  obtain ⟨m₂, x509, u₂, hm₂, hvalue₂, hwritten₂, hcontent₂, hstop₂, hdrop₂, rfl⟩ :=
    membersAt_member hvalue₁.wellFormed hdrop₁ hsecond hscan₂
  obtain ⟨m₃, hm₃⟩ := exists_counting hlast
  refine ⟨authentication, x509, ⟨⟨hvalue₁, m₁, hm₁, hwritten₁.symm, hcontent₁.symm⟩,
    ⟨hvalue₂, m₂, hm₂, hwritten₂.symm, hcontent₂.symm⟩, ?_⟩, fun f hf => ?_⟩
  · rw [hm₃, Option.map_some, ← (found_of_counting hlast hm₃).1, hpath]
  · rw [Nat.zero_add] at hfirst
    have hinner : Picks (second.start + x509.opening.length) x509.members
        (atKey (text "clientCAFile") fun m => m.set (.string new))
        (text "clientCAFile", caFile.replace (.string new)) :=
      picks_replace hlast hm₃ (if_pos (exists_of_counting hm₃).1)
    have hmiddle : Picks (first.start + authentication.opening.length) authentication.members
        (atKey (text "x509") fun m =>
          m.nest (x509.edit (atKey (text "clientCAFile") fun m => m.set (.string new))))
        (text "x509", caFile.replace (.string new)) :=
      picks_nest hsecond hm₂ hvalue₂.wellFormed hwritten₂ hstop₂ hinner
        (fun m _ hne => if_neg hne) (if_pos (exists_of_counting hm₂).1)
    exact picks_nest hfirst hm₁ hvalue₁.wellFormed hwritten₁ hstop₁ hmiddle
      (fun m _ hne => if_neg hne) (hf m₁ (exists_of_counting hm₁).1)

section Members

open ObjectText

variable {authentication : ObjectText} {qosThere : Bool} {m : MemberText}

theorem windowsMember_authentication (h : m.key = text "authentication") :
    windowsMember authentication qosThere m = [m.nest authentication] := if_pos h

theorem windowsMember_driver (h : m.key = cgroupDriver) :
    windowsMember authentication qosThere m = [m.set (.string windowsCgroupDriver)] := by
  rw [windowsMember, h, if_neg (by decide), if_pos rfl]

theorem windowsMember_qos (h : m.key = cgroupsPerQos) :
    windowsMember authentication qosThere m = [m.set (.bool false)] := by
  rw [windowsMember, h, if_neg (by decide), if_neg (by decide), if_pos rfl]

theorem windowsMember_enforce (h : m.key = enforceNodeAllocatable) :
    windowsMember authentication qosThere m = [m.set (.array [])] := by
  rw [windowsMember, h, if_neg (by decide), if_neg (by decide), if_neg (by decide), if_pos rfl]

theorem windowsMember_period (h : m.key = volumeStatsPeriod) (hqos : qosThere = false) :
    windowsMember authentication qosThere m = [m, further cgroupsPerQos (.bool false)] := by
  rw [windowsMember, h, if_neg (by decide), if_neg (by decide), if_neg (by decide),
    if_neg (by decide), if_pos ⟨rfl, hqos⟩]

/-- Members of other keys stay. -/
theorem windowsMember_other (hauthentication : m.key ≠ text "authentication")
    (hdriver : m.key ≠ cgroupDriver) (hqos : m.key ≠ cgroupsPerQos)
    (henforce : m.key ≠ enforceNodeAllocatable)
    (hperiod : ¬ (m.key = volumeStatsPeriod ∧ qosThere = false)) :
    windowsMember authentication qosThere m = [m] := by
  rw [windowsMember, if_neg hauthentication, if_neg hdriver, if_neg hqos, if_neg henforce,
    if_neg hperiod]

end Members

/-- A key of the table is that of a member of the text. -/
theorem hasKey_eq (o : ObjectText) (place : Nat) (key : Text) :
    o.hasKey key = ((memberTable (placed place o.members)).get? key).isSome := by
  have hvalues := congrArg Option.isSome (map_value_lastOf_placed place o.members key)
  rw [Option.isSome_map, Option.isSome_map] at hvalues
  rw [ObjectText.hasKey, get?_memberTable, hvalues]

theorem ne_of_hasKey_eq_false {o : ObjectText} {key : Text} (h : o.hasKey key = false) :
    ∀ m ∈ o.members, m.key ≠ key :=
  counting_eq_none.mp (Option.isSome_eq_false_iff.mp h |> Option.isNone_iff_eq_none.mp)

/-- A required field is the member of the table. -/
theorem requiredField_eq_ok {document key : Text} {o : ObjectText}
    (h : requiredField document (memberTable (placed place o.members)) key = .ok found) :
    lastOf (placed place o.members) key = some found ∧ o.hasKey key = true := by
  have hfound := memberOn_last h
  refine ⟨get?_memberTable _ _ ▸ hfound, ?_⟩
  rw [hasKey_eq o place, hfound]
  rfl

section Fields

open ObjectText

variable {o authentication : ObjectText} {anchor : Member} {value : Json}

/-- A field that is there is set in its place. -/
theorem setField_of_hasKey (h : o.hasKey key = true) :
    ∃ found m, lastOf (placed place o.members) key = some found ∧ counting o.members key = some m ∧
      setField (memberTable (placed place o.members)) key value anchor = found.replace value := by
  rw [hasKey_eq o place] at h
  obtain ⟨found, hfound⟩ := Option.isSome_iff_exists.mp h
  rw [setField, hfound]
  rw [get?_memberTable] at hfound
  obtain ⟨m, hm⟩ := exists_counting hfound
  exact ⟨found, m, hfound, hm, rfl⟩

/-- A field that is not there is put behind another. -/
theorem setField_of_not_hasKey (h : o.hasKey key = false) :
    setField (memberTable (placed place o.members)) key value anchor = anchor.follow key value := by
  rw [hasKey_eq o place] at h
  rw [setField, Option.isNone_iff_eq_none.mp (Option.isSome_eq_false_iff.mp h)]

/-- The key of the member at which the switch for cgroups is set. -/
def qosPlace (o : ObjectText) : Text :=
  if o.hasKey cgroupsPerQos then cgroupsPerQos else volumeStatsPeriod

/-- The patch for the switch for cgroups does its part of the edit. -/
theorem picks_qos (hanchor : lastOf (placed place o.members) volumeStatsPeriod = some anchor) :
    Picks place o.members (windowsMember authentication (o.hasKey cgroupsPerQos))
      (qosPlace o,
        setField (memberTable (placed place o.members)) cgroupsPerQos (.bool false) anchor) := by
  cases hqos : o.hasKey cgroupsPerQos with
  | true =>
    obtain ⟨found, m, hfound, hm, hset⟩ := setField_of_hasKey hqos
    rw [qosPlace, hqos, if_pos rfl, hset]
    exact picks_replace hfound hm (windowsMember_qos (exists_of_counting hm).1)
  | false =>
    obtain ⟨m, hm⟩ := exists_counting hanchor
    rw [qosPlace, hqos, if_neg Bool.false_ne_true, setField_of_not_hasKey hqos]
    exact picks_follow hanchor hm (windowsMember_period (exists_of_counting hm).1 rfl)

/-- The last member stands behind those before it, and ends where the members end. -/
theorem placed_concat (place : Nat) (init : List MemberText) (last : MemberText) :
    ∃ start, placed place (init ++ [last]) = placed place init ++
      [(last.key, ⟨last.content, start, place + (body (init ++ [last])).length⟩)] := by
  induction init generalizing place with
  | nil =>
    refine ⟨place + last.head.length, ?_⟩
    simp only [List.nil_append, placed, body_cons, body_nil, List.append_nil,
      List.length_append, Nat.add_assoc]
  | cons m init ih =>
    obtain ⟨start, hstart⟩ := ih (place + m.head.length + m.value.length)
    refine ⟨start, ?_⟩
    rw [List.cons_append, placed, placed, hstart, body_cons]
    simp only [List.cons_append, List.length_append, Nat.add_assoc]

/-- The last member of the table ends where the members end. -/
theorem last_stop (hanchor : lastOf (placed place o.members) key = some anchor) :
    (((memberTable (placed place o.members)).getLast?.map (·.2)).getD anchor).stop =
      place + (body o.members).length := by
  rcases List.eq_nil_or_concat o.members with hnone | ⟨init, last, hmembers⟩
  · rw [hnone] at hanchor
    cases hanchor
  · obtain ⟨start, hstart⟩ := placed_concat place init last
    rw [hmembers, List.concat_eq_append, hstart, getLast?_memberTable]
    rfl

/-- The keys of the members that the edit changes, that for the limits of pods left out. -/
def windowsKeys (o : ObjectText) : List Text :=
  [text "authentication", cgroupDriver, qosPlace o]

theorem nodup_windowsKeys (o : ObjectText) : (windowsKeys o ++ [enforceNodeAllocatable]).Nodup := by
  unfold windowsKeys qosPlace
  split <;> decide

/-- The edit leaves the members of all other keys. -/
theorem windowsMember_of_not_mem {m : MemberText} (hm : m ∈ o.members)
    (hkeys : m.key ∉ windowsKeys o) (henforce : m.key ≠ enforceNodeAllocatable) :
    windowsMember authentication (o.hasKey cgroupsPerQos) m = [m] := by
  simp only [windowsKeys, List.mem_cons, List.not_mem_nil, or_false, not_or] at hkeys
  obtain ⟨hauthentication, hdriver, hplace⟩ := hkeys
  cases hqos : o.hasKey cgroupsPerQos with
  | true =>
    rw [qosPlace, hqos, if_pos rfl] at hplace
    exact windowsMember_other hauthentication hdriver hplace henforce fun h => nomatch h.2
  | false =>
    rw [qosPlace, hqos, if_neg Bool.false_ne_true] at hplace
    exact windowsMember_other hauthentication hdriver (ne_of_hasKey_eq_false hqos m hm) henforce
      fun h => hplace h.1

/-- The four patches of a document do the edit. -/
theorem applyAll_windows {trail : Text} {caPatch : Patch} {driver : Member} (ho : o.WellFormed)
    (hcaFile : Picks o.opening.length o.members
      (windowsMember authentication (o.hasKey cgroupsPerQos)) (text "authentication", caPatch))
    (hdriver : lastOf (placed o.opening.length o.members) cgroupDriver = some driver)
    (hanchor : lastOf (placed o.opening.length o.members) volumeStatsPeriod = some anchor) :
    Patch.applyAll [caPatch, driver.replace (.string windowsCgroupDriver),
      setField (memberTable (placed o.opening.length o.members)) cgroupsPerQos (.bool false) anchor,
      setField (memberTable (placed o.opening.length o.members)) enforceNodeAllocatable (.array [])
        (((memberTable (placed o.opening.length o.members)).getLast?.map (·.2)).getD anchor)]
      (o.written ++ trail) = (o.forWindows authentication).written ++ trail := by
  have hdriverPick : Picks o.opening.length o.members
      (windowsMember authentication (o.hasKey cgroupsPerQos))
      (cgroupDriver, driver.replace (.string windowsCgroupDriver)) := by
    obtain ⟨m, hm⟩ := exists_counting hdriver
    exact picks_replace hdriver hm (windowsMember_driver (exists_of_counting hm).1)
  have hqosPick : Picks o.opening.length o.members
      (windowsMember authentication (o.hasKey cgroupsPerQos)) (qosPlace o, _) := picks_qos hanchor
  have hpicks := List.forall_mem_cons.mpr ⟨hcaFile, List.forall_mem_cons.mpr ⟨hdriverPick,
    List.forall_mem_singleton.mpr hqosPick⟩⟩
  cases henforce : o.hasKey enforceNodeAllocatable with
  | true =>
    obtain ⟨found, m, hfound, hm, hset⟩ : ∃ found m,
        lastOf (placed o.opening.length o.members) enforceNodeAllocatable = some found ∧ _ :=
      setField_of_hasKey henforce
    have henforcePick : Picks o.opening.length o.members
        (windowsMember authentication (o.hasKey cgroupsPerQos)) (enforceNodeAllocatable, _) :=
      picks_replace hfound hm (windowsMember_enforce (exists_of_counting hm).1)
    have hall := List.forall_mem_append.mpr ⟨hpicks, List.forall_mem_singleton.mpr henforcePick⟩
    have hothers : ∀ m ∈ o.members, m.key ∉ windowsKeys o ++ [enforceNodeAllocatable] →
        windowsMember authentication (o.hasKey cgroupsPerQos) m = [m] := fun m hm hkeys =>
      windowsMember_of_not_mem hm (fun h => hkeys (List.mem_append_left _ h))
        fun h => hkeys (List.mem_append_right _ (List.mem_singleton.mpr h))
    rw [hset]
    refine (applyAll_document [(text "authentication", _), (cgroupDriver, _), (qosPlace o, _),
      (enforceNodeAllocatable, _)] [] trail ho (nodup_windowsKeys o) hall hothers nofun).trans ?_
    simp only [ObjectText.forWindows, henforce, if_true, ObjectText.written, List.flatMap_nil,
      List.nil_append, List.append_assoc]
  | false =>
    have hnodup := (List.nodup_append.mp (nodup_windowsKeys o)).1
    have hothers : ∀ m ∈ o.members, m.key ∉ windowsKeys o →
        windowsMember authentication (o.hasKey cgroupsPerQos) m = [m] := fun m hm hkeys =>
      windowsMember_of_not_mem hm hkeys (ne_of_hasKey_eq_false henforce m hm)
    rw [setField_of_not_hasKey henforce]
    refine (applyAll_document [(text "authentication", _), (cgroupDriver, _), (qosPlace o, _)] [_]
      trail ho hnodup hpicks hothers ?_).trans ?_
    · refine List.forall_mem_singleton.mpr ⟨?_, rfl⟩
      exact last_stop hanchor
    · have hlast : body [further enforceNodeAllocatable (.array [])] =
          furtherMember enforceNodeAllocatable (.array []) := by
        simp only [body_cons, body_nil, further, furtherMember, List.append_nil, List.append_assoc]
      simp only [ObjectText.forWindows, henforce, Bool.false_eq_true, if_false, body_append, hlast,
        ObjectText.written, List.flatMap_cons, List.flatMap_nil, List.append_nil,
        List.append_assoc, Member.follow]

end Fields

/-- The text that the change for Windows gives is the edited object text of the document, with the
blanks that were behind it. -/
theorem forWindows_written {directory : Text} {contents : Bytes} {result : Text}
    (h : forWindows directory contents = .ok result) :
    ∃ (o authentication x509 : ObjectText) (path trail : Text),
      Utf8.decode contents = .ok (o.written ++ trail) ∧ o.WellFormed ∧ Blanks trail ∧
        CaFileAt o authentication x509 path ∧ o.hasKey cgroupDriver = true ∧
          o.hasKey volumeStatsPeriod = true ∧ DrivePath.baseName path ≠ [] ∧
            result = (o.forWindows (ObjectText.withCaFile authentication x509
              (DrivePath.join directory (DrivePath.baseName path)))).written ++ trail := by
  obtain ⟨⟨document, table⟩, hload, h⟩ := bind_eq_ok.mp h
  obtain ⟨ps, hpatches, heq⟩ := bind_eq_ok.mp h
  cases heq
  obtain ⟨o, trail, hdecode, ho, htrail, hdocument, rfl⟩ := load_eq_ok hload
  obtain ⟨caFile, hcaFile, h⟩ := bind_eq_ok.mp hpatches
  obtain ⟨new, hnew, h⟩ := bind_eq_ok.mp h
  obtain ⟨driver, hdriver, h⟩ := bind_eq_ok.mp h
  obtain ⟨anchor, hanchor, h⟩ := bind_eq_ok.mp h
  cases h
  obtain ⟨path, hpath, hname, rfl⟩ := windowsCaFile_eq_ok hnew
  obtain ⟨authentication, x509, hcertificate, hpick⟩ :=
    picks_caFile (DrivePath.join directory (DrivePath.baseName path)) ho hdocument hcaFile hpath
  obtain ⟨hdriver, hdriverKey⟩ := requiredField_eq_ok hdriver
  obtain ⟨hanchor, hanchorKey⟩ := requiredField_eq_ok hanchor
  refine ⟨o, authentication, x509, path, trail, hdocument ▸ hdecode, ho, htrail, hcertificate,
    hdriverKey, hanchorKey, hname, ?_⟩
  rw [hdocument]
  exact applyAll_windows ho (hpick _ fun m hm => windowsMember_authentication hm) hdriver hanchor

end NodeBootstrap.KubeletConfig
