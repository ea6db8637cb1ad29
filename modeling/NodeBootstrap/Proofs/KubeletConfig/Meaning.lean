import NodeBootstrap.Ignition.Rule
import NodeBootstrap.Proofs.KubeletConfig.Rewrite

/-!
# What a kubelet config for Windows says

The edited text of a kubelet config is again a document, and its value is that of the config with
four fields changed. Together with the text this is the whole effect of the change.
-/

set_option autoImplicit false

namespace NodeBootstrap.KubeletConfig

open MemberText OrderedMap

/-! ## Edited texts are well formed -/

theorem spells_encoded_string (t : Text) : Json.Spells (encoded (.string t)) (.string t) :=
  (Json.reads_stringText t).weaken

theorem spells_encoded_false : Json.Spells (encoded (.bool false)) (.bool false) := by
  have hword : (text "false", Json.bool false) ∈ Json.words := by
    simp only [Json.words, List.mem_cons, true_or, or_true]
  exact (Json.reads_word hword).weaken

theorem spells_encoded_empty : Json.Spells (encoded (.array [])) (.array []) :=
  (Json.reads_array_empty blanks_nil).weaken

variable {m : MemberText} {separator : Text}

theorem MemberText.Spelled.holding (h : m.Spelled separator) {value : Text} {content : Json}
    (hvalue : Json.Spells value content) : (m.holding value content).Spelled separator :=
  ⟨h.1, hvalue⟩

theorem spelled_further {key : Text} {value : Json} (hvalue : Json.Spells (encoded value) value) :
    (further key value).Spelled (text ",") := by
  refine ⟨⟨[], [], key.flatMap (Json.escaped false), [], [], blanks_nil, blanks_nil, blanks_nil,
    blanks_nil, ?_, Json.spellsString_escaped key⟩, hvalue⟩
  simp only [further, encoded, Json.write, Json.Layout.compact, Json.stringText,
    Json.memberSpelling, List.nil_append, List.append_assoc, List.cons_append]
  rfl

/-- An edit of one member leaves an object text well formed. -/
theorem ObjectText.IsValue.edit_atKey {o : ObjectText} (ho : o.IsValue) {key : Text}
    {edit : MemberText → MemberText}
    (hedit : ∀ m separator, m.Spelled separator → (edit m).Spelled separator) :
    (o.edit (atKey key edit)).IsValue := by
  refine ⟨⟨ho.wellFormed.opening, allSpelled_edited ho.wellFormed.members ?_,
    ho.wellFormed.closing⟩, ho.opening⟩
  intro m _ _ separator hm
  unfold atKey
  split
  next => exact ⟨List.cons_ne_nil _ _, hedit m separator hm, trivial⟩
  next => exact ⟨List.cons_ne_nil _ _, hm, trivial⟩

theorem ObjectText.IsValue.withCaFile {authentication x509 : ObjectText}
    (hauthentication : authentication.IsValue) (hx509 : x509.IsValue) (path : Text) :
    (ObjectText.withCaFile authentication x509 path).IsValue :=
  hauthentication.edit_atKey fun _ _ hm => hm.holding <|
    (hx509.edit_atKey fun _ _ hm => hm.holding (spells_encoded_string path)).spells

/-- Something is left of each member. -/
theorem windowsMember_ne_nil (authentication : ObjectText) (qosThere : Bool) (m : MemberText) :
    ObjectText.windowsMember authentication qosThere m ≠ [] := by
  unfold ObjectText.windowsMember
  repeat' split
  all_goals exact List.cons_ne_nil _ _

/-- What becomes of a spelled member is spelled. -/
theorem windowsMember_spelled {authentication : ObjectText}
    (hauthentication : authentication.IsValue)
    (qosThere : Bool) (hm : m.Spelled separator) :
    AllSpelled separator (ObjectText.windowsMember authentication qosThere m) := by
  unfold ObjectText.windowsMember
  split
  · exact ⟨hm.holding hauthentication.spells, trivial⟩
  split
  · exact ⟨hm.holding (spells_encoded_string _), trivial⟩
  split
  · exact ⟨hm.holding spells_encoded_false, trivial⟩
  split
  · exact ⟨hm.holding spells_encoded_empty, trivial⟩
  split
  · exact ⟨hm, spelled_further spells_encoded_false, trivial⟩
  · exact ⟨hm, trivial⟩

/-- A kubelet config for Windows is a well-formed object text. -/
theorem ObjectText.WellFormed.forWindows {o authentication : ObjectText} (ho : o.WellFormed)
    (hmembers : o.members ≠ []) (hauthentication : authentication.IsValue) :
    (o.forWindows authentication).WellFormed := by
  have hspelled : AllSpelled []
      (edited (windowsMember authentication (o.hasKey cgroupsPerQos)) o.members) :=
    allSpelled_edited ho.members fun m _ _ _ hm =>
      ⟨windowsMember_ne_nil _ _ m, windowsMember_spelled hauthentication _ hm⟩
  refine ⟨ho.opening, ?_, ho.closing⟩
  unfold ObjectText.forWindows
  dsimp only
  split
  · exact hspelled
  · exact hspelled.append (edited_ne_nil (windowsMember_ne_nil _ _) hmembers)
      ⟨spelled_further spells_encoded_empty, trivial⟩

theorem ObjectText.WellFormed.forWindows_caFile {o authentication x509 : ObjectText}
    {path : Text} (ho : o.WellFormed) (hpath : CaFileAt o authentication x509 path)
    (hperiod : o.hasKey volumeStatsPeriod = true) (new : Text) :
    (o.forWindows (ObjectText.withCaFile authentication x509 new)).WellFormed := by
  have hmembers : o.members ≠ [] := fun hnone => by
    rw [ObjectText.hasKey, hnone] at hperiod
    cases hperiod
  exact ho.forWindows hmembers (hpath.settings.1.withCaFile hpath.certificates.1 new)

/-! ## Values of edited texts -/

/-- Another value in the member that counts is another value of the object. -/
theorem ofList_edited_atKey {members : List MemberText} {key : Text}
    {edit : MemberText → MemberText} (hm : counting members key = some m)
    (hedit : (edit m).key = key) :
    ofList (entries (edited (atKey key edit) members)) =
      (ofList (entries members)).set key (edit m).content := by
  obtain ⟨rfl, before, after, rfl, hafter⟩ := exists_of_counting hm
  have hkeys : ∀ e ∈ entries after, e.1 ≠ m.key := List.forall_mem_map.mpr hafter
  have hone : entries (atKey m.key edit m) = [(m.key, (edit m).content)] := by
    rw [atKey, if_pos rfl, entries_cons, hedit]
    rfl
  have hsplit : edited (atKey m.key edit) (before ++ m :: after) =
      before ++ (atKey m.key edit m ++ after) := edited_split hafter fun m' hne => if_neg hne
  rw [hsplit]
  simp only [entries_append, entries_cons, hone, List.singleton_append]
  exact ofList_replace m.content _ hkeys

/-- The settings with another path of the certificate file in them, as a value. -/
theorem content_withCaFile {o authentication x509 : ObjectText} {path : Text} (new : Text)
    (h : CaFileAt o authentication x509 path) :
    (ObjectText.withCaFile authentication x509 new).content =
      .object ((ofList (entries authentication.members)).set (text "x509")
        (.object ((ofList (entries x509.members)).set (text "clientCAFile") (.string new)))) := by
  obtain ⟨-, m, hm, -, -⟩ := h.certificates
  obtain ⟨m', hm', -⟩ := Option.map_eq_some_iff.mp h.caFile
  have hinner : (x509.edit (atKey (text "clientCAFile") fun m => m.set (.string new))).content =
      .object ((ofList (entries x509.members)).set (text "clientCAFile") (.string new)) :=
    congrArg Json.object (ofList_edited_atKey hm' (exists_of_counting hm').1)
  rw [← hinner]
  exact congrArg Json.object (ofList_edited_atKey hm (exists_of_counting hm).1)

/-- The members that come of one have its key, but for the switch for cgroups. -/
theorem key_of_mem_windowsMember {authentication : ObjectText} {qosThere : Bool} {x : MemberText}
    (hx : x ∈ ObjectText.windowsMember authentication qosThere m) :
    x.key = m.key ∨ (x.key = cgroupsPerQos ∧ m.key = volumeStatsPeriod ∧ qosThere = false) := by
  unfold ObjectText.windowsMember at hx
  split at hx
  · exact .inl (List.mem_singleton.mp hx ▸ rfl)
  split at hx
  · exact .inl (List.mem_singleton.mp hx ▸ rfl)
  split at hx
  · exact .inl (List.mem_singleton.mp hx ▸ rfl)
  split at hx
  · exact .inl (List.mem_singleton.mp hx ▸ rfl)
  split at hx
  next hperiod =>
    rcases List.mem_cons.mp hx with hx | hx
    · exact .inl (congrArg MemberText.key hx)
    · exact .inr ⟨congrArg MemberText.key (List.mem_singleton.mp hx), hperiod⟩
  next => exact .inl (List.mem_singleton.mp hx ▸ rfl)

/-- The first that comes of a member has its key. -/
theorem exists_key_windowsMember {authentication : ObjectText} {qosThere : Bool} (m : MemberText) :
    ∃ x ∈ ObjectText.windowsMember authentication qosThere m, x.key = m.key := by
  unfold ObjectText.windowsMember
  repeat' split
  all_goals exact ⟨_, List.mem_cons_self, rfl⟩

section Values

open ObjectText

variable {o authentication : ObjectText} {key : Text}

/-- The member that counts for a key after the edit of members has come of the one that counted for
it. -/
theorem counting_windowsMembers (hkey : key = cgroupsPerQos → o.hasKey cgroupsPerQos = true) :
    counting (edited (windowsMember authentication (o.hasKey cgroupsPerQos)) o.members) key =
      (counting o.members key).bind fun m =>
        counting (windowsMember authentication (o.hasKey cgroupsPerQos) m) key := by
  refine counting_edited key (fun _ _ _ => rfl) (fun m _ hne => ?_) fun _ m _ hm hnone => ?_
  · refine counting_eq_none.mpr fun x hx heq => ?_
    rcases key_of_mem_windowsMember hx with h | ⟨h, -, hqos⟩
    · exact hne (h.symm.trans heq)
    · rw [hkey (heq.symm.trans h)] at hqos
      cases hqos
  · obtain ⟨x, hx, hxkey⟩ := exists_key_windowsMember m
    exact counting_eq_none.mp hnone x hx (hxkey.trans hm)

/-- The value of a key after the edit of members, from what becomes of the member that counted for
it. -/
theorem lastOf_windowsMembers {g : MemberText → Json}
    (hkey : key = cgroupsPerQos → o.hasKey cgroupsPerQos = true)
    (hg : ∀ m : MemberText, m.key = key →
      lastOf (entries (windowsMember authentication (o.hasKey cgroupsPerQos) m)) key =
        some (g m)) :
    lastOf (entries (edited (windowsMember authentication (o.hasKey cgroupsPerQos)) o.members))
      key = (counting o.members key).map g := by
  rw [lastOf_entries, counting_windowsMembers hkey]
  cases hm : counting o.members key with
  | none => rfl
  | some m =>
    rw [Option.bind_some, ← lastOf_entries, hg m (exists_of_counting hm).1, Option.map_some]

/-- A key that the edit sets has the value that it is set to. -/
theorem lastOf_windowsMembers_set {value : Json} (hthere : o.hasKey key = true)
    (hset : ∀ m : MemberText, m.key = key →
      ∃ t, windowsMember authentication (o.hasKey cgroupsPerQos) m = [m.holding t value]) :
    lastOf (entries (edited (windowsMember authentication (o.hasKey cgroupsPerQos)) o.members))
      key = some value := by
  rw [lastOf_windowsMembers (g := fun _ => value) (fun heq => heq ▸ hthere) fun m hm => ?_]
  · obtain ⟨m, hm⟩ := Option.isSome_iff_exists.mp hthere
    rw [hm, Option.map_some]
  · obtain ⟨t, ht⟩ := hset m hm
    rw [ht, entries_cons, lastOf, entries_nil, lastOf_nil, Option.none_or]
    exact if_pos hm

/-- The switch for cgroups is off after the edit. -/
theorem lastOf_windowsMembers_qos (hperiod : o.hasKey volumeStatsPeriod = true) :
    lastOf (entries (edited (windowsMember authentication (o.hasKey cgroupsPerQos)) o.members))
      cgroupsPerQos = some (.bool false) := by
  cases hqos : o.hasKey cgroupsPerQos with
  | true =>
    rw [← hqos]
    exact lastOf_windowsMembers_set hqos fun m hm => ⟨_, windowsMember_qos hm⟩
  | false =>
    have hne := ne_of_hasKey_eq_false hqos
    obtain ⟨m, hm⟩ := Option.isSome_iff_exists.mp hperiod
    rw [lastOf_edited volumeStatsPeriod (fun m hm heq => absurd heq (hne m hm))
      (fun m hm hother => ?_) (fun heq => absurd heq (by decide)), hm, Option.bind_some,
      windowsMember_period (exists_of_counting hm).1 rfl]
    · rfl
    · apply lastOf_eq_none.mpr
      intro e he heq
      obtain ⟨x, hx, rfl⟩ := List.mem_map.mp he
      rcases key_of_mem_windowsMember hx with h | ⟨-, h, -⟩
      · exact hne m hm (h.symm.trans heq)
      · exact hother h

/-- Keys that the edit does not set keep their values. -/
theorem lastOf_windowsMembers_other (hauthentication : key ≠ text "authentication")
    (hdriver : key ≠ cgroupDriver) (hqos : key ≠ cgroupsPerQos)
    (henforce : key ≠ enforceNodeAllocatable) :
    lastOf (entries (edited (windowsMember authentication (o.hasKey cgroupsPerQos)) o.members))
      key = lastOf (entries o.members) key := by
  rw [lastOf_entries o.members]
  refine lastOf_windowsMembers (fun heq => absurd heq hqos) ?_
  intro m hm
  subst hm
  by_cases hperiod : m.key = volumeStatsPeriod ∧ o.hasKey cgroupsPerQos = false
  · rw [windowsMember_period hperiod.1 hperiod.2, entries_cons, entries_cons, lastOf, lastOf,
      if_pos rfl]
    rw [entries_nil, lastOf_nil, Option.none_or]
    have hnone : (if (further cgroupsPerQos (.bool false)).key = m.key then
        some (further cgroupsPerQos (.bool false)).content else none) = none :=
      if_neg fun h => hqos h.symm
    rw [hnone, Option.none_or]
  · rw [windowsMember_other hauthentication hdriver hqos henforce hperiod, entries_cons, lastOf,
      if_pos rfl, entries_nil, lastOf_nil, Option.none_or]

/-- The values of a kubelet config for Windows are those of the config with four keys set. -/
theorem lastOf_forWindows (hauthentication : o.hasKey (text "authentication") = true)
    (hdriver : o.hasKey cgroupDriver = true) (hperiod : o.hasKey volumeStatsPeriod = true) :
    lastOf (entries (o.forWindows authentication).members) key =
      (((((ofList (entries o.members)).set (text "authentication") authentication.content).set
        cgroupDriver (.string windowsCgroupDriver)).set cgroupsPerQos (.bool false)).set
          enforceNodeAllocatable (.array [])).get? key := by
  by_cases henforce : key = enforceNodeAllocatable
  · subst henforce
    rw [get?_set_self]
    cases hthere : o.hasKey enforceNodeAllocatable with
    | true =>
      simp only [ObjectText.forWindows, hthere, if_true]
      exact lastOf_windowsMembers_set hthere fun m hm => ⟨_, windowsMember_enforce hm⟩
    | false =>
      simp only [ObjectText.forWindows, hthere, Bool.false_eq_true, if_false, entries_append,
        lastOf_append]
      rfl
  · have hmembers : lastOf (entries (o.forWindows authentication).members) key =
        lastOf (entries (edited (windowsMember authentication (o.hasKey cgroupsPerQos))
          o.members)) key := by
      cases hthere : o.hasKey enforceNodeAllocatable with
      | true => simp only [ObjectText.forWindows, hthere, if_true]
      | false =>
        have hlast : lastOf (entries [further enforceNodeAllocatable (.array [])]) key = none :=
          lastOf_eq_none.mpr (List.forall_mem_singleton.mpr fun h => henforce h.symm)
        simp only [ObjectText.forWindows, hthere, Bool.false_eq_true, if_false, entries_append,
          lastOf_append, hlast, Option.none_or]
    rw [hmembers, get?_set_ne _ _ (Ne.symm henforce)]
    by_cases hqos : key = cgroupsPerQos
    · rw [hqos, get?_set_self, lastOf_windowsMembers_qos hperiod]
    rw [get?_set_ne _ _ (Ne.symm hqos)]
    by_cases hdriverKey : key = cgroupDriver
    · rw [hdriverKey, get?_set_self]
      exact lastOf_windowsMembers_set hdriver fun m hm => ⟨_, windowsMember_driver hm⟩
    rw [get?_set_ne _ _ (Ne.symm hdriverKey)]
    by_cases hcertificate : key = text "authentication"
    · rw [hcertificate, get?_set_self]
      exact lastOf_windowsMembers_set hauthentication fun m hm =>
        ⟨_, windowsMember_authentication hm⟩
    rw [get?_set_ne _ _ (Ne.symm hcertificate), get?_ofList]
    exact lastOf_windowsMembers_other hcertificate hdriverKey hqos henforce

end Values

/-! ## A brief config -/

/-- A config with the fields that the changes rest on and no others. -/
def briefConfig : String :=
  "\x7b\"volumeStatsAggPeriod\":0,\"authentication\":\x7b\"x509\":\x7b\"clientCAFile\":\"a\"\x7d\x7d," ++
    "\"cgroupDriver\":2\x7d"

/-- The config on a node with the install directory `k`. -/
def briefWindowsConfig : String :=
  "\x7b\"volumeStatsAggPeriod\":0,\"cgroupsPerQOS\":false,\"authentication\":\x7b\"x509\":\x7b" ++
    "\"clientCAFile\":\"k\\\\a\"\x7d\x7d,\"cgroupDriver\":\"cgroupfs\",\"enforceNodeAllocatable\":[]\x7d"

/-- The patches of the config, in the order in which they are found. -/
def briefPatches : List Patch := [⟨67, 70, encoded (.string (text "k\\a"))⟩,
  ⟨88, 89, encoded (.string windowsCgroupDriver)⟩,
  ⟨25, 25, furtherMember cgroupsPerQos (.bool false)⟩,
  ⟨89, 89, furtherMember enforceNodeAllocatable (.array [])⟩]

/-- A document whose members are found and patched. The bytes that it is read from are not looked
at. -/
theorem forWindows_of_patches {directory document : Text} {s : String} (ps : List Patch)
    (hdocument : text s = document)
    (hstart : (Cursor.start document).skipBlanks.rest.head? = some (.char '{'))
    (h : (scanObject document 0 >>= fun e =>
      (patches directory document e.1).map fun ps => (e.2, ps)).toOption =
        some (document.length, ps)) :
    forWindows directory (Utf8.ofLiteral s) = .ok (Patch.applyAll ps document) := by
  have hdecode : Utf8.decode (Utf8.ofLiteral s) = .ok document :=
    hdocument ▸ Utf8.decode_encode (Utf8.encode_text s)
  cases hscan : scanObject document 0 with
  | error fault => rw [hscan] at h; cases h
  | ok e =>
    obtain ⟨table, stop⟩ := e
    rw [hscan, ok_bind] at h
    dsimp only at h
    cases hps : patches directory document table with
    | error fault => rw [hps] at h; cases h
    | ok ps' =>
      rw [hps] at h
      obtain ⟨rfl, rfl⟩ := Prod.mk.inj (Option.some.inj h)
      have hend : (Cursor.within document document.length).skipBlanks.rest = [] := by
        rw [Cursor.within, List.drop_length]
        rfl
      rw [forWindows, load_of_scan hdecode hstart hscan hend, ok_bind]
      dsimp only
      rw [hps]
      rfl

theorem forWindows_brief :
    forWindows (text "k") (Utf8.ofLiteral briefConfig) = .ok (text briefWindowsConfig) := by
  have hdocument : text briefConfig = _ := text_append (text_ofList _) (text_ofList _)
  have hresult : text briefWindowsConfig = _ := text_append (text_ofList _) (text_ofList _)
  rw [forWindows_of_patches briefPatches hdocument (by decide +kernel) (by decide +kernel),
    Patch.applyAll_eq (by decide +kernel) (by decide +kernel), hresult]
  exact congrArg Except.ok (by decide +kernel)

theorem windowsKubeletConfig_of_forWindows {directory : Text} {contents : Bytes} {s : String}
    (h : forWindows directory contents = .ok (text s)) :
    Ignition.windowsKubeletConfig directory contents = .ok (Utf8.ofLiteral s) := by
  rw [Ignition.windowsKubeletConfig, h]
  simp only [mapError_ok, ok_bind, Ignition.encodeContents, Utf8.encode_text]

theorem windowsKubeletConfig_brief :
    Ignition.windowsKubeletConfig (text "k") (Utf8.ofLiteral briefConfig) =
      .ok (Utf8.ofLiteral briefWindowsConfig) :=
  windowsKubeletConfig_of_forWindows forWindows_brief

/-! ## Bytes -/

/-- Bytes in UTF-8 that write one object, and blanks behind it. -/
structure Writes (contents : Bytes) (o : ObjectText) (trail : Text) : Prop where
  decoded : Utf8.decode contents = .ok (o.written ++ trail)
  wellFormed : o.WellFormed
  trail : Blanks trail

/-- Bytes write one object at most, and its text is determined. -/
theorem Writes.unique {contents : Bytes} {o o' : ObjectText} {trail trail' : Text}
    (h : Writes contents o trail) (h' : Writes contents o' trail') : o = o' ∧ trail = trail' := by
  have htext : o.written ++ trail = o'.written ++ trail' :=
    Except.ok.inj (h.decoded.symm.trans h'.decoded)
  obtain rfl := written_unique h.wellFormed h'.wellFormed htext
  exact ⟨rfl, List.append_cancel_left htext⟩

/-- What is there when a config is changed: its object, in which the fields are that the changes
rest on, and the object that is written. -/
theorem windowsKubeletConfig_eq_ok {directory : Text} {contents result : Bytes}
    (h : Ignition.windowsKubeletConfig directory contents = .ok result) :
    ∃ (o authentication x509 : ObjectText) (path trail : Text),
      Writes contents o trail ∧ CaFileAt o authentication x509 path ∧
        o.hasKey cgroupDriver = true ∧ o.hasKey volumeStatsPeriod = true ∧
          Writes result (o.forWindows (ObjectText.withCaFile authentication x509
            (DrivePath.join directory (DrivePath.baseName path)))) trail := by
  obtain ⟨t, ht, hencode⟩ := bind_eq_ok.mp h
  obtain ⟨o, authentication, x509, path, trail, hdecode, ho, htrail, hpath, hdriver, hperiod, -,
    rfl⟩ := forWindows_written (mapError_eq_ok.mp ht)
  exact ⟨o, authentication, x509, path, trail, ⟨hdecode, ho, htrail⟩, hpath, hdriver, hperiod,
    Utf8.decode_encode (mapError_eq_ok.mp hencode), ho.forWindows_caFile hpath hperiod _, htrail⟩

/-- The text of the bytes of a kubelet config for Windows: that of the config with its members
edited, and everything else as it was. There is one way only to see the members of the config. -/
theorem windowsKubeletConfig_written {directory : Text} {contents result : Bytes}
    (h : Ignition.windowsKubeletConfig directory contents = .ok result) :
    ∃ (o authentication x509 : ObjectText) (path trail : Text),
      (∀ o' trail', Writes contents o' trail' ↔ o' = o ∧ trail' = trail) ∧
        CaFileAt o authentication x509 path ∧
          Writes result (o.forWindows (ObjectText.withCaFile authentication x509
            (DrivePath.join directory (DrivePath.baseName path)))) trail := by
  obtain ⟨o, authentication, x509, path, trail, hwritten, hpath, -, -, hresult⟩ :=
    windowsKubeletConfig_eq_ok h
  refine ⟨o, authentication, x509, path, trail, fun o' trail' => ⟨fun h' => h'.unique hwritten, ?_⟩,
    hpath, hresult⟩
  rintro ⟨rfl, rfl⟩
  exact hwritten

theorem windowsKubeletConfig_written_brief :
    Ignition.windowsKubeletConfig (text "k") (Utf8.ofLiteral briefConfig) =
        .ok (Utf8.ofLiteral briefWindowsConfig) ∧
      ∃ (o authentication x509 : ObjectText) (path trail : Text),
        (∀ o' trail', Writes (Utf8.ofLiteral briefConfig) o' trail' ↔ o' = o ∧ trail' = trail) ∧
          CaFileAt o authentication x509 path ∧
            Writes (Utf8.ofLiteral briefWindowsConfig)
              (o.forWindows (ObjectText.withCaFile authentication x509
                (DrivePath.join (text "k") (DrivePath.baseName path)))) trail :=
  ⟨windowsKubeletConfig_brief, windowsKubeletConfig_written windowsKubeletConfig_brief⟩

/-! ## Values -/

/-- The value that bytes in UTF-8 hold. -/
def decoded (contents : Bytes) : Except Json.Unreadable Json := do
  let document ← (Utf8.decode contents).mapError .undecodable
  (Json.ofText document).mapError (.malformed document)

/-- The fields of a kubelet config with the four changes. The settings and the certificates in them
are those of the config. -/
def windowsFields (config authentication x509 : OrderedMap Text Json) (caFile : Text) :
    OrderedMap Text Json :=
  (((config.set (text "authentication") (.object (authentication.set (text "x509") (.object
    (x509.set (text "clientCAFile") (.string caFile)))))).set cgroupDriver
      (.string windowsCgroupDriver)).set cgroupsPerQos (.bool false)).set
        enforceNodeAllocatable (.array [])

theorem Writes.decoded_eq {contents : Bytes} {o : ObjectText} {trail : Text}
    (h : Writes contents o trail) : KubeletConfig.decoded contents = .ok o.content := by
  rw [KubeletConfig.decoded, h.decoded]
  simp only [mapError_ok, ok_bind, h.wellFormed.ofText h.trail]

/-- The value of the bytes of a kubelet config for Windows is that of the config with its four
changes, and no others. -/
theorem windowsKubeletConfig_decoded {directory : Text} {contents result : Bytes}
    (h : Ignition.windowsKubeletConfig directory contents = .ok result) :
    ∃ (before after authentication x509 : OrderedMap Text Json) (path : Text),
      decoded contents = .ok (.object before) ∧ decoded result = .ok (.object after) ∧
        before.get? (text "authentication") = some (.object authentication) ∧
        authentication.get? (text "x509") = some (.object x509) ∧
        x509.get? (text "clientCAFile") = some (.string path) ∧
          after.Perm (windowsFields before authentication x509
            (DrivePath.join directory (DrivePath.baseName path))) := by
  obtain ⟨o, authentication, x509, path, trail, hwritten, hpath, hdriver, hperiod, hwindows⟩ :=
    windowsKubeletConfig_eq_ok h
  obtain ⟨-, m₁, hm₁, -, hcontent₁⟩ := hpath.settings
  obtain ⟨-, m₂, hm₂, -, hcontent₂⟩ := hpath.certificates
  have hauthentication : o.hasKey (text "authentication") = true := by
    rw [ObjectText.hasKey, hm₁]
    rfl
  refine ⟨_, _, ofList (entries authentication.members), ofList (entries x509.members), path,
    hwritten.decoded_eq, hwindows.decoded_eq, ?_, ?_, ?_, ?_⟩
  · rw [get?_ofList, lastOf_entries, hm₁, Option.map_some, hcontent₁]
    rfl
  · rw [get?_ofList, lastOf_entries, hm₂, Option.map_some, hcontent₂]
    rfl
  · rw [get?_ofList, lastOf_entries, hpath.caFile]
  · refine perm_of_get?_eq (nodup_keys_ofList _) ?_ fun key => ?_
    · exact nodup_keys_set (nodup_keys_set (nodup_keys_set (nodup_keys_set
        (nodup_keys_ofList _) _ _) _ _) _ _) _ _
    · rw [get?_ofList, lastOf_forWindows hauthentication hdriver hperiod, content_withCaFile _ hpath]
      rfl

theorem windowsKubeletConfig_decoded_brief :
    Ignition.windowsKubeletConfig (text "k") (Utf8.ofLiteral briefConfig) =
        .ok (Utf8.ofLiteral briefWindowsConfig) ∧
      ∃ (before after authentication x509 : OrderedMap Text Json) (path : Text),
        decoded (Utf8.ofLiteral briefConfig) = .ok (.object before) ∧
          decoded (Utf8.ofLiteral briefWindowsConfig) = .ok (.object after) ∧
          before.get? (text "authentication") = some (.object authentication) ∧
          authentication.get? (text "x509") = some (.object x509) ∧
          x509.get? (text "clientCAFile") = some (.string path) ∧
            after.Perm (windowsFields before authentication x509
              (DrivePath.join (text "k") (DrivePath.baseName path))) :=
  ⟨windowsKubeletConfig_brief, windowsKubeletConfig_decoded windowsKubeletConfig_brief⟩

end NodeBootstrap.KubeletConfig
