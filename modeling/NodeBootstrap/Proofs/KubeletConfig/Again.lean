import NodeBootstrap.Proofs.DrivePath
import NodeBootstrap.Proofs.KubeletConfig.Meaning

/-!
# A kubelet config changed again

A config for Windows has all the fields that the change rests on, so it can be changed again. The
second change finds the members that the first has written and leaves the text as it is, but for
one of them: the certificate file is looked for in the install directory once more. Hence a second
change does nothing exactly if that path is settled, that is, if its last name leads from the
install directory to the same path again (`windowsKubeletConfig_again`).

It is for every name without a colon in a directory that takes names. A name that begins with the
mark of a drive loses it (`not_windowsKubeletConfig_again`).
-/

set_option autoImplicit false

namespace NodeBootstrap.KubeletConfig

open MemberText OrderedMap

/-! ## What a change rests on is determined -/

theorem Holds.unique {members : List MemberText} {key : Text} {o o' : ObjectText}
    (h : Holds members key o) (h' : Holds members key o') : o = o' := by
  obtain ⟨ho, m, hm, hwritten, -⟩ := h
  obtain ⟨ho', m', hm', hwritten', -⟩ := h'
  obtain rfl : m = m' := Option.some.inj (hm.symm.trans hm')
  exact @written_unique _ _ [] [] ho.wellFormed ho'.wellFormed
    (congrArg (· ++ []) (hwritten.symm.trans hwritten'))

variable {o authentication x509 : ObjectText} {path : Text}

theorem CaFileAt.unique {authentication' x509' : ObjectText} {path' : Text}
    (h : CaFileAt o authentication x509 path) (h' : CaFileAt o authentication' x509' path') :
    authentication = authentication' ∧ x509 = x509' ∧ path = path' := by
  obtain rfl := h.settings.unique h'.settings
  obtain rfl := h.certificates.unique h'.certificates
  have hpath := Option.some.inj (h.caFile.symm.trans h'.caFile)
  exact ⟨rfl, rfl, Json.string.inj hpath⟩

/-! ## A config that can be changed -/

section Accepted

variable {document front rest key : Text} {contents : Bytes} {directory : Text}

/-- The place of the value of a member that counts, in a document that goes on with an object. -/
theorem lastOf_placed_held {m : MemberText} (hm : counting o.members key = some m)
    (hdocument : document = front ++ (o.written ++ rest)) :
    ∃ place : Text, ∃ rest', document = place ++ (m.value ++ rest') ∧
      (memberTable (placed (front.length + o.opening.length) o.members)).get? key =
        some ⟨m.content, place.length, place.length + m.value.length⟩ := by
  obtain ⟨rfl, before, after, hmembers, hafter⟩ := exists_of_counting hm
  refine ⟨front ++ (o.opening ++ (body before ++ m.head)), body after ++ (o.closing ++ rest), ?_,
    ?_⟩
  · rw [hdocument, ObjectText.written, hmembers, body_append, body_cons]
    simp only [List.append_assoc]
  · rw [get?_memberTable, hmembers, lastOf_placed _ hafter]
    simp only [List.length_append, Nat.add_assoc]

/-- A path of keys leads through an object that a member holds. -/
theorem memberOn_held {o' : ObjectText} (next : Text) (keys path : List Text)
    (h : Holds o.members key o') (hdocument : document = front ++ (o.written ++ rest)) :
    ∃ front' rest' : Text, document = front' ++ (o'.written ++ rest') ∧
      memberOn document path (memberTable (placed (front.length + o.opening.length) o.members))
          (key :: next :: keys) =
        memberOn document path
          (memberTable (placed (front'.length + o'.opening.length) o'.members)) (next :: keys) := by
  obtain ⟨ho', m, hm, hvalue, hcontent⟩ := h
  obtain ⟨front', rest', hplace, hfound⟩ := lastOf_placed_held hm hdocument
  rw [hvalue] at hplace
  refine ⟨front', rest', hplace, ?_⟩
  rw [memberOn, hfound]
  dsimp only
  rw [if_neg (List.cons_ne_nil next keys), hcontent]
  simp only [ObjectText.content, scanObject, membersAt_written ho'.wellFormed hplace, ok_bind]
  rfl

/-- A path of one key leads to the member that counts for it. -/
theorem memberOn_counting {m : MemberText} (path : List Text)
    (hm : counting o.members key = some m) (hdocument : document = front ++ (o.written ++ rest)) :
    ∃ found, memberOn document path
        (memberTable (placed (front.length + o.opening.length) o.members)) [key] = .ok found ∧
      found.value = m.content := by
  obtain ⟨place, rest', -, hfound⟩ := lastOf_placed_held hm hdocument
  exact ⟨_, by rw [memberOn, hfound]; rfl, rfl⟩

/-- A document that writes an object is loaded. -/
theorem load_written {trail : Text} (h : Writes contents o trail) :
    load contents =
      .ok (o.written ++ trail, memberTable (placed o.opening.length o.members)) := by
  have hmembers := @membersAt_written _ [] trail o h.wellFormed rfl
  rw [List.nil_append, List.length_nil, Nat.zero_add, Nat.zero_add] at hmembers
  have hscan : scanObject (o.written ++ trail) 0 =
      .ok (memberTable (placed o.opening.length o.members), o.written.length) := by
    rw [scanObject, hmembers]
    rfl
  obtain ⟨lead, hlead, hopening⟩ := h.wellFormed.opening
  have hbrace : (Cursor.start (o.written ++ trail)).skipBlanks.rest.head? = some (.char '{') := by
    rw [Cursor.start, ObjectText.written, hopening]
    simp only [List.append_assoc, List.cons_append, List.nil_append,
      skipBlanks_mark hlead (.char '{') rfl, List.head?_cons]
  have hend : (Cursor.within (o.written ++ trail) o.written.length).skipBlanks.rest = [] := by
    have hnone : Settled [] := fun c hc => absurd hc (Option.not_mem_none c)
    have hlast := skipBlanks_append h.trail hnone o.written.length
    rw [List.append_nil] at hlast
    rw [Cursor.within, List.drop_left, Nat.min_eq_left (by rw [List.length_append]; omega), hlast]
  exact load_of_scan h.decoded hbrace hscan hend

/-- A config in which the fields are that the changes rest on, and in which the path of the
certificate file has a name, can be changed. -/
theorem exists_forWindows {trail : Text} (h : Writes contents o trail)
    (hpath : CaFileAt o authentication x509 path) (hdriver : o.hasKey cgroupDriver = true)
    (hperiod : o.hasKey volumeStatsPeriod = true) (hname : DrivePath.baseName path ≠ []) :
    ∃ result, forWindows directory contents = .ok result := by
  have hdocument : o.written ++ trail = [] ++ (o.written ++ trail) := rfl
  obtain ⟨front₁, rest₁, hdocument₁, hstep₁⟩ :=
    memberOn_held (text "x509") [text "clientCAFile"] caFilePath hpath.settings hdocument
  obtain ⟨front₂, rest₂, hdocument₂, hstep₂⟩ :=
    memberOn_held (text "clientCAFile") [] caFilePath hpath.certificates hdocument₁
  obtain ⟨m, hm, hcontent⟩ := Option.map_eq_some_iff.mp hpath.caFile
  obtain ⟨caFile, hcaFile, hvalue⟩ := memberOn_counting caFilePath hm hdocument₂
  obtain ⟨m₁, hm₁⟩ := Option.isSome_iff_exists.mp hdriver
  obtain ⟨driver, hdriver, -⟩ := memberOn_counting [cgroupDriver] hm₁ hdocument
  obtain ⟨m₂, hm₂⟩ := Option.isSome_iff_exists.mp hperiod
  obtain ⟨anchor, hanchor, -⟩ := memberOn_counting [volumeStatsPeriod] hm₂ hdocument
  rw [← hstep₂, ← hstep₁] at hcaFile
  rw [List.length_nil, Nat.zero_add] at hcaFile hdriver hanchor
  have hnew : windowsCaFile directory caFile.value =
      .ok (DrivePath.join directory (DrivePath.baseName path)) := by
    rw [hvalue, hcontent, windowsCaFile, if_neg fun hempty => hname (List.isEmpty_iff.mp hempty)]
  have hpatches : ∃ ps, patches directory (o.written ++ trail)
      (memberTable (placed o.opening.length o.members)) = .ok ps := by
    unfold patches requiredField
    rw [show memberOn _ caFilePath _ caFilePath = _ from hcaFile, ok_bind, hnew, ok_bind, hdriver,
      ok_bind, hanchor, ok_bind]
    exact ⟨_, rfl⟩
  obtain ⟨ps, hpatches⟩ := hpatches
  refine ⟨Patch.applyAll ps (o.written ++ trail), ?_⟩
  rw [forWindows, load_written h, ok_bind]
  dsimp only
  rw [hpatches]
  rfl

end Accepted

/-! ## The edit made twice -/

namespace ObjectText

variable {key : Text} {m x : MemberText} {qosThere : Bool}

theorem hasKey_eq_isSome (o : ObjectText) (key : Text) :
    o.hasKey key = (lastOf (entries o.members) key).isSome := by
  rw [hasKey, lastOf_entries, Option.isSome_map]

/-- What has come of a member is left by a second edit. -/
theorem windowsMember_again (hx : x ∈ windowsMember authentication qosThere m) :
    windowsMember authentication true x = [x] := by
  unfold windowsMember at hx
  split at hx
  next hkey =>
    obtain rfl := List.mem_singleton.mp hx
    exact windowsMember_authentication hkey
  next hauthentication =>
  split at hx
  next hkey =>
    obtain rfl := List.mem_singleton.mp hx
    exact windowsMember_driver hkey
  next hdriver =>
  split at hx
  next hkey =>
    obtain rfl := List.mem_singleton.mp hx
    exact windowsMember_qos hkey
  next hqos =>
  split at hx
  next hkey =>
    obtain rfl := List.mem_singleton.mp hx
    exact windowsMember_enforce hkey
  next henforce =>
  have hsame : windowsMember authentication true m = [m] :=
    windowsMember_other hauthentication hdriver hqos henforce nofun
  split at hx
  next =>
    rcases List.mem_cons.mp hx with rfl | hx
    · exact hsame
    · obtain rfl := List.mem_singleton.mp hx
      exact windowsMember_qos rfl
  next =>
    obtain rfl := List.mem_singleton.mp hx
    exact hsame

/-- A config for Windows is one. -/
theorem forWindows_again (hauthentication : o.hasKey (text "authentication") = true)
    (hdriver : o.hasKey cgroupDriver = true) (hperiod : o.hasKey volumeStatsPeriod = true) :
    (o.forWindows authentication).forWindows authentication = o.forWindows authentication := by
  have hqos : (o.forWindows authentication).hasKey cgroupsPerQos = true := by
    rw [hasKey_eq_isSome, lastOf_forWindows hauthentication hdriver hperiod,
      get?_set_ne _ _ (by decide), get?_set_self]
    rfl
  have henforce : (o.forWindows authentication).hasKey enforceNodeAllocatable = true := by
    rw [hasKey_eq_isSome, lastOf_forWindows hauthentication hdriver hperiod, get?_set_self]
    rfl
  have hmembers : edited (windowsMember authentication true) (o.forWindows authentication).members =
      (o.forWindows authentication).members := by
    refine edited_eq_self fun x hx => ?_
    have hfirst : ∀ {key}, counting (edited (windowsMember authentication (o.hasKey cgroupsPerQos))
        o.members) key = some x → windowsMember authentication true x = [x] := fun h => by
      obtain ⟨m, -, hm⟩ := exists_of_counting_edited (fun m _ => exists_key_windowsMember m) h
      exact windowsMember_again hm
    unfold ObjectText.forWindows at hx
    dsimp only at hx
    split at hx
    next => exact hfirst hx
    next =>
      rw [counting_append] at hx
      rcases Option.or_eq_some_iff.mp hx with hlast | ⟨-, hx⟩
      · obtain ⟨-, before, after, hsplit, -⟩ := exists_of_counting hlast
        have hx : x ∈ [further enforceNodeAllocatable (.array [])] :=
          hsplit ▸ List.mem_append_right _ List.mem_cons_self
        obtain rfl := List.mem_singleton.mp hx
        exact windowsMember_enforce rfl
      · exact hfirst hx
  rw [ObjectText.forWindows, hqos, henforce, if_pos rfl, hmembers]

/-- An edit of one member that leaves what it has made leaves an object that it has made. -/
theorem edit_atKey_again (edit : MemberText → MemberText) (hkey : ∀ m, (edit m).key = m.key)
    (hedit : ∀ m, edit (edit m) = edit m) (o : ObjectText) :
    (o.edit (atKey key edit)).edit (atKey key edit) = o.edit (atKey key edit) := by
  have hone : ∀ m, ∃ m' ∈ atKey key edit m, m'.key = m.key := by
    intro m
    unfold atKey
    split
    next => exact ⟨edit m, List.mem_singleton.mpr rfl, hkey m⟩
    next => exact ⟨m, List.mem_singleton.mpr rfl, rfl⟩
  have hmembers : edited (atKey key edit) (edited (atKey key edit) o.members) =
      edited (atKey key edit) o.members := by
    refine edited_eq_self fun x hx => ?_
    obtain ⟨m, -, hm⟩ := exists_of_counting_edited (fun m _ => hone m) hx
    unfold atKey at hm
    split at hm
    next h =>
      obtain rfl := List.mem_singleton.mp hm
      rw [atKey, if_pos ((hkey m).trans h), hedit]
    next h =>
      obtain rfl := List.mem_singleton.mp hm
      exact if_neg h
  exact congrArg (fun members => { o with members }) hmembers

/-- The member that counts for the key of an edit, after it. -/
theorem counting_edit_atKey {edit : MemberText → MemberText} (hkey : ∀ m, (edit m).key = m.key)
    (hm : counting o.members key = some m) :
    counting (o.edit (atKey key edit)).members key = some (edit m) := by
  obtain ⟨rfl, before, after, hmembers, hafter⟩ := exists_of_counting hm
  have hone : atKey m.key edit m = [edit m] := if_pos rfl
  have hsplit : edited (atKey m.key edit) (before ++ m :: after) =
      before ++ (atKey m.key edit m ++ after) := edited_split hafter fun m' hne => if_neg hne
  rw [ObjectText.edit, hmembers, hsplit, hone, List.singleton_append, ← hkey m]
  exact counting_split before (by rwa [hkey m])

/-- The member that counts for a key that is set where it stands, in a config for Windows. -/
theorem counting_forWindows {edit : MemberText → MemberText}
    (hqos : key ≠ cgroupsPerQos) (henforce : key ≠ enforceNodeAllocatable)
    (hedit : ∀ m : MemberText, m.key = key →
      windowsMember authentication (o.hasKey cgroupsPerQos) m = [edit m] ∧ (edit m).key = key)
    (hm : counting o.members key = some m) :
    counting (o.forWindows authentication).members key = some (edit m) := by
  have hmembers : counting (edited (windowsMember authentication (o.hasKey cgroupsPerQos))
      o.members) key = some (edit m) := by
    obtain ⟨hone, hkey⟩ := hedit m (exists_of_counting hm).1
    rw [counting_windowsMembers fun heq => absurd heq hqos, hm, Option.bind_some, hone,
      counting_cons, if_pos hkey]
    rfl
  unfold ObjectText.forWindows
  dsimp only
  split
  next => exact hmembers
  next =>
    have hlast : counting [further enforceNodeAllocatable (.array [])] key = none :=
      counting_eq_none.mpr (List.forall_mem_singleton.mpr (Ne.symm henforce))
    rw [counting_append, hmembers, hlast, Option.none_or]

/-- The fields that a change rests on are there, and in a config for Windows too. -/
theorem hasKey_forWindows (h : CaFileAt o authentication x509 path)
    (hdriver : o.hasKey cgroupDriver = true) (hperiod : o.hasKey volumeStatsPeriod = true)
    (new : Text) :
    o.hasKey (text "authentication") = true ∧
      (o.forWindows (withCaFile authentication x509 new)).hasKey cgroupDriver = true ∧
        (o.forWindows (withCaFile authentication x509 new)).hasKey volumeStatsPeriod = true := by
  obtain ⟨-, m, hm, -, -⟩ := h.settings
  have hauthentication : o.hasKey (text "authentication") = true := by
    rw [hasKey, hm]
    rfl
  refine ⟨hauthentication, ?_, ?_⟩
  · rw [hasKey_eq_isSome, lastOf_forWindows hauthentication hdriver hperiod,
      get?_set_ne _ _ (by decide), get?_set_ne _ _ (by decide), get?_set_self]
    rfl
  · rw [hasKey_eq_isSome, lastOf_forWindows hauthentication hdriver hperiod,
      get?_set_ne _ _ (by decide), get?_set_ne _ _ (by decide), get?_set_ne _ _ (by decide),
      get?_set_ne _ _ (by decide), get?_ofList, ← hasKey_eq_isSome, hperiod]

/-- Where the path of the certificate file stands in a config for Windows, and what it is. -/
theorem caFileAt_forWindows (h : CaFileAt o authentication x509 path) (new : Text) :
    CaFileAt (o.forWindows (withCaFile authentication x509 new))
      (withCaFile authentication x509 new)
      (x509.edit (atKey (text "clientCAFile") fun m => m.set (.string new))) new := by
  obtain ⟨⟨hauthentication, m₁, hm₁, -, -⟩, ⟨hx509, m₂, hm₂, -, -⟩, hcaFile⟩ := h
  obtain ⟨m₃, hm₃, -⟩ := Option.map_eq_some_iff.mp hcaFile
  refine ⟨⟨hauthentication.withCaFile hx509 new,
      m₁.nest (withCaFile authentication x509 new), ?_, rfl, rfl⟩,
    ⟨hx509.edit_atKey fun _ _ hm => hm.holding (spells_encoded_string new), _,
      counting_edit_atKey (fun _ => rfl) hm₂, rfl, rfl⟩, ?_⟩
  · exact counting_forWindows (by decide) (by decide)
      (fun m hm => ⟨windowsMember_authentication hm, hm⟩) hm₁
  · have hset : counting (x509.edit (atKey (text "clientCAFile") fun m =>
        m.set (.string new))).members (text "clientCAFile") = some (m₃.set (.string new)) :=
      counting_edit_atKey (fun _ => rfl) hm₃
    rw [hset]
    rfl

/-- Certificate settings with a path in them are left by putting the same path there. -/
theorem withCaFile_again (authentication x509 : ObjectText) (new : Text) :
    withCaFile (withCaFile authentication x509 new)
        (x509.edit (atKey (text "clientCAFile") fun m => m.set (.string new))) new =
      withCaFile authentication x509 new := by
  have hinner : (x509.edit _).edit (atKey (text "clientCAFile") _) = _ :=
    edit_atKey_again (fun m => m.set (.string new)) (fun _ => rfl) (fun _ => rfl) x509
  rw [withCaFile, hinner]
  exact edit_atKey_again (fun m => m.nest (x509.edit _)) (fun _ => rfl) (fun _ => rfl)
    authentication

end ObjectText

/-! ## The change made twice -/

section Again

variable {directory path trail : Text} {contents result : Bytes}

/-- The fields that a change of a document rests on determine the text that it gives. -/
theorem forWindows_determined {t : Text} (h : Writes contents o trail)
    (hpath : CaFileAt o authentication x509 path) (ht : forWindows directory contents = .ok t) :
    DrivePath.baseName path ≠ [] ∧
      t = (o.forWindows (ObjectText.withCaFile authentication x509
        (DrivePath.join directory (DrivePath.baseName path)))).written ++ trail := by
  obtain ⟨o', authentication', x509', path', trail', hdecode, ho, htrail, hpath', -, -, hname,
    ht⟩ := forWindows_written ht
  obtain ⟨rfl, rfl⟩ := h.unique ⟨hdecode, ho, htrail⟩
  obtain ⟨rfl, rfl, rfl⟩ := hpath.unique hpath'
  exact ⟨hname, ht⟩

/-- What a change of a document writes: the fields of a config for Windows, with the path of the
certificate file that the document had. -/
theorem windowsKubeletConfig_determined (h : Writes contents o trail)
    (hpath : CaFileAt o authentication x509 path)
    (hresult : Ignition.windowsKubeletConfig directory contents = .ok result) :
    DrivePath.baseName path ≠ [] ∧
      Ignition.encodeContents ((o.forWindows (ObjectText.withCaFile authentication x509
        (DrivePath.join directory (DrivePath.baseName path)))).written ++ trail) = .ok result := by
  obtain ⟨t, ht, hencode⟩ := bind_eq_ok.mp hresult
  obtain ⟨hname, rfl⟩ := forWindows_determined h hpath (mapError_eq_ok.mp ht)
  exact ⟨hname, hencode⟩

/-- A second change leaves the text exactly if the path of the certificate file that the first has
written is settled in the install directory. -/
theorem again_iff_settled (h : Writes contents o trail)
    (hpath : CaFileAt o authentication x509 path) (hdriver : o.hasKey cgroupDriver = true)
    (hperiod : o.hasKey volumeStatsPeriod = true)
    (hresult : Ignition.windowsKubeletConfig directory contents = .ok result) :
    Ignition.windowsKubeletConfig directory result = .ok result ↔
      DrivePath.Settled directory (DrivePath.join directory (DrivePath.baseName path)) := by
  obtain ⟨-, hencode⟩ := windowsKubeletConfig_determined h hpath hresult
  generalize DrivePath.join directory (DrivePath.baseName path) = new at hencode ⊢
  have hwritten : Writes result
      (o.forWindows (ObjectText.withCaFile authentication x509 new)) trail :=
    ⟨Utf8.decode_encode (mapError_eq_ok.mp hencode),
      h.wellFormed.forWindows_caFile hpath hperiod new, h.trail⟩
  have hagain := ObjectText.caFileAt_forWindows hpath new
  obtain ⟨hauthentication, hdriver', hperiod'⟩ :=
    ObjectText.hasKey_forWindows hpath hdriver hperiod new
  constructor
  · intro hsame
    obtain ⟨hname, hencode'⟩ := windowsKubeletConfig_determined hwritten hagain hsame
    refine ⟨hname, ?_⟩
    generalize DrivePath.join directory (DrivePath.baseName new) = new' at hencode' ⊢
    have hwritten' : Writes result _ trail :=
      ⟨Utf8.decode_encode (mapError_eq_ok.mp hencode'),
        hwritten.wellFormed.forWindows_caFile hagain hperiod' new', h.trail⟩
    have hpath' := ObjectText.caFileAt_forWindows hagain new'
    rw [(hwritten'.unique hwritten).1] at hpath'
    exact (hpath'.unique hagain).2.2
  · intro hsettled
    obtain ⟨t, ht⟩ := exists_forWindows hwritten hagain hdriver' hperiod' hsettled.name
    obtain ⟨-, rfl⟩ := forWindows_determined hwritten hagain ht
    rw [hsettled.path, ObjectText.withCaFile_again,
      ObjectText.forWindows_again hauthentication hdriver hperiod] at ht
    rw [Ignition.windowsKubeletConfig, ht]
    exact hencode

/-- A config for Windows that is changed again in the same install directory stays exactly if the
path of its certificate file is settled there. It is if the name of the file has no colon and the
directory takes names. -/
theorem windowsKubeletConfig_again
    (h : Ignition.windowsKubeletConfig directory contents = .ok result) :
    ∃ (o authentication x509 : ObjectText) (path trail : Text),
      Writes contents o trail ∧ CaFileAt o authentication x509 path ∧
        (Ignition.windowsKubeletConfig directory result = .ok result ↔
          DrivePath.Settled directory (DrivePath.join directory (DrivePath.baseName path))) ∧
        (.char ':' ∉ DrivePath.baseName path → DrivePath.TakesNames directory →
          Ignition.windowsKubeletConfig directory result = .ok result) := by
  obtain ⟨o, authentication, x509, path, trail, hwritten, hpath, hdriver, hperiod, -⟩ :=
    windowsKubeletConfig_eq_ok h
  have hiff := again_iff_settled hwritten hpath hdriver hperiod h
  refine ⟨o, authentication, x509, path, trail, hwritten, hpath, hiff, fun hcolon hdirectory => ?_⟩
  have hname := (windowsKubeletConfig_determined hwritten hpath h).1
  exact hiff.mpr (DrivePath.settled_join (DrivePath.isName_baseName hname hcolon) hdirectory)

theorem windowsKubeletConfig_again_brief :
    Ignition.windowsKubeletConfig (text "k") (Utf8.ofLiteral briefConfig) =
        .ok (Utf8.ofLiteral briefWindowsConfig) ∧
      ∃ (o authentication x509 : ObjectText) (path trail : Text),
        Writes (Utf8.ofLiteral briefConfig) o trail ∧ CaFileAt o authentication x509 path ∧
          (Ignition.windowsKubeletConfig (text "k") (Utf8.ofLiteral briefWindowsConfig) =
              .ok (Utf8.ofLiteral briefWindowsConfig) ↔
            DrivePath.Settled (text "k")
              (DrivePath.join (text "k") (DrivePath.baseName path))) ∧
          (.char ':' ∉ DrivePath.baseName path → DrivePath.TakesNames (text "k") →
            Ignition.windowsKubeletConfig (text "k") (Utf8.ofLiteral briefWindowsConfig) =
              .ok (Utf8.ofLiteral briefWindowsConfig)) :=
  ⟨windowsKubeletConfig_brief, windowsKubeletConfig_again windowsKubeletConfig_brief⟩

end Again

/-! ## A name that begins with the mark of a drive -/

/-- A config for Windows with a member that says where the certificate file is. -/
def markedConfig (caFile : String) : String :=
  "\x7b\"volumeStatsAggPeriod\":0,\"cgroupsPerQOS\":false,\"authentication\":\x7b\"x509\":\x7b" ++
    (caFile ++ "\x7d\x7d,\"cgroupDriver\":\"cgroupfs\",\"enforceNodeAllocatable\":[]\x7d")

theorem text_pieces (first second third : List Char) :
    text (String.ofList first ++ (String.ofList second ++ String.ofList third)) =
      first.map .char ++ (second.map .char ++ third.map .char) :=
  text_append (text_ofList first) (text_append (text_ofList second) (text_ofList third))

/-- The patches of the config, from the length of the path in its quotes. -/
def markedPatches (length : Nat) (caFile : String) : List Patch := [
  ⟨89, 89 + length, encoded (.string (text caFile))⟩,
  ⟨107 + length, 117 + length, encoded (.string windowsCgroupDriver)⟩,
  ⟨42, 47, encoded (.bool false)⟩,
  ⟨143 + length, 145 + length, encoded (.array [])⟩]

/-- The file of the name `ca.crt` on the drive `d`, given in a directory of a Linux worker. -/
theorem forWindows_marked :
    forWindows (text "C:\\k")
        (Utf8.ofLiteral (markedConfig "\"clientCAFile\":\"/etc/kubernetes/d:ca.crt\"")) =
      .ok (text (markedConfig "\"clientCAFile\":\"d:ca.crt\"")) := by
  have hdocument : text (markedConfig "\"clientCAFile\":\"/etc/kubernetes/d:ca.crt\"") = _ :=
    text_pieces _ _ _
  have hresult : text (markedConfig "\"clientCAFile\":\"d:ca.crt\"") = _ :=
    text_pieces _ _ _
  rw [forWindows_of_patches (markedPatches 26 "d:ca.crt") hdocument (by decide +kernel)
    (by decide +kernel), Patch.applyAll_eq (by decide +kernel) (by decide +kernel), hresult]
  exact congrArg Except.ok (by decide +kernel)

/-- The same file is looked for in the install directory. -/
theorem forWindows_marked_again :
    forWindows (text "C:\\k") (Utf8.ofLiteral (markedConfig "\"clientCAFile\":\"d:ca.crt\"")) =
      .ok (text (markedConfig "\"clientCAFile\":\"C:\\\\k\\\\ca.crt\"")) := by
  have hdocument : text (markedConfig "\"clientCAFile\":\"d:ca.crt\"") = _ :=
    text_pieces _ _ _
  have hresult : text (markedConfig "\"clientCAFile\":\"C:\\\\k\\\\ca.crt\"") = _ :=
    text_pieces _ _ _
  rw [forWindows_of_patches (markedPatches 10 "C:\\k\\ca.crt") hdocument (by decide +kernel)
    (by decide +kernel), Patch.applyAll_eq (by decide +kernel) (by decide +kernel), hresult]
  exact congrArg Except.ok (by decide +kernel)

/-- A name that begins with the mark of a drive is a path on that drive, so nothing is put in front
of it, and the second change takes the mark off. -/
theorem not_windowsKubeletConfig_again :
    ¬ ∀ (directory : Text) (contents result : Bytes),
      Ignition.windowsKubeletConfig directory contents = .ok result →
        Ignition.windowsKubeletConfig directory result = .ok result := by
  intro hagain
  have hsame := hagain _ _ _ (windowsKubeletConfig_of_forWindows forWindows_marked)
  rw [windowsKubeletConfig_of_forWindows forWindows_marked_again] at hsame
  have htext := Utf8.text_eq_of_ofLiteral_eq (Except.ok.inj hsame)
  have hfirst : text (markedConfig "\"clientCAFile\":\"d:ca.crt\"") = _ :=
    text_pieces _ _ _
  have hsecond : text (markedConfig "\"clientCAFile\":\"C:\\\\k\\\\ca.crt\"") = _ :=
    text_pieces _ _ _
  rw [hfirst, hsecond] at htext
  exact absurd htext (by decide +kernel)

end NodeBootstrap.KubeletConfig
