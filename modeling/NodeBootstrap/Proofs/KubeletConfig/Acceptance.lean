import NodeBootstrap.Proofs.Json.Ascii
import NodeBootstrap.Proofs.KubeletConfig.Again
import NodeBootstrap.Proofs.KubeletConfig.Agreement

/-!
# Which kubelet configs are changed

A change rests on one object, blanks around it, in which five fields are and the path of the
certificate file ends in a name. What the reader of values finds in the bytes decides it
(`namesCaFile_iff`), whatever the scan says on its own account: every other document is refused with
a fault of the kubelet config.

Whether the changed text can be written is another matter. All of it comes from the document, which
was read from bytes, from the install directory, or from the path of the certificate file, and that
path is a value: escapes of the document may have put half of a pair into it. So the name decides
(`encodable_iff`), and a config whose name holds half of a pair is neither changed nor refused as a
config (`windowsKubeletConfig_outcomes`).
-/

set_option autoImplicit false

namespace NodeBootstrap.KubeletConfig

open MemberText OrderedMap

/-! ## What a change rests on -/

/-- The fields of a config that a change rests on. Of a key written twice the last counts. -/
structure Fields (config authentication x509 : OrderedMap Text Json) (path : Text) : Prop where
  settings : config.get? (text "authentication") = some (.object authentication)
  certificates : authentication.get? (text "x509") = some (.object x509)
  caFile : x509.get? (text "clientCAFile") = some (.string path)
  driver : (config.get? cgroupDriver).isSome = true
  period : (config.get? volumeStatsPeriod).isSome = true

/-- Bytes in UTF-8 that hold one object, blanks around it, in which these fields are. The path of
the certificate file ends in this name. -/
def NamesCaFile (contents : Bytes) (name : Text) : Prop :=
  ∃ config authentication x509 path, decoded contents = .ok (.object config) ∧
    Fields config authentication x509 path ∧ DrivePath.baseName path = name ∧ name ≠ []

/-- The same of a text: where the fields are written. -/
structure Changeable (contents : Bytes) (o authentication x509 : ObjectText)
    (path trail : Text) : Prop where
  writes : Writes contents o trail
  caFile : CaFileAt o authentication x509 path
  driver : o.hasKey cgroupDriver = true
  period : o.hasKey volumeStatsPeriod = true
  name : DrivePath.baseName path ≠ []

variable {contents : Bytes} {directory name path trail : Text} {o authentication x509 : ObjectText}

theorem Fields.path_unique {config authentication authentication' x509 x509' : OrderedMap Text Json}
    {path' : Text} (h : Fields config authentication x509 path)
    (h' : Fields config authentication' x509' path') : path = path' := by
  obtain rfl := Json.object.inj (Option.some.inj (h.settings.symm.trans h'.settings))
  obtain rfl := Json.object.inj (Option.some.inj (h.certificates.symm.trans h'.certificates))
  exact Json.string.inj (Option.some.inj (h.caFile.symm.trans h'.caFile))

/-- A document names one certificate file at most. -/
theorem NamesCaFile.unique {name' : Text} (h : NamesCaFile contents name)
    (h' : NamesCaFile contents name') : name = name' := by
  obtain ⟨config, _, _, path, hdecoded, hfields, rfl, -⟩ := h
  obtain ⟨config', _, _, path', hdecoded', hfields', rfl, -⟩ := h'
  obtain rfl := Json.object.inj (Except.ok.inj (hdecoded.symm.trans hdecoded'))
  rw [hfields.path_unique hfields']

/-! ## Values and texts -/

/-- Bytes that hold an object write it. -/
theorem writes_of_decoded {config : OrderedMap Text Json}
    (h : decoded contents = .ok (.object config)) :
    ∃ o trail, Writes contents o trail ∧ o.content = .object config := by
  obtain ⟨document, hdecode, h⟩ := bind_eq_ok.mp h
  obtain ⟨⟨v, behind⟩, hvalue, h⟩ := bind_eq_ok.mp (mapError_eq_ok.mp h)
  dsimp only at h
  split at h
  next hend =>
    cases h
    obtain ⟨o, ho, htook, hcontent⟩ := objectText_of_valueAt hvalue
    obtain ⟨lead, hlead, hskip, -⟩ := Cursor.took_skipBlanks (Cursor.start document)
    obtain ⟨trail, htrail, hlast, -⟩ := Cursor.took_skipBlanks behind
    have hrest : behind.rest = trail := by
      rw [hlast.rest, List.isEmpty_iff.mp hend, List.append_nil]
    have hdocument : document = (o.behind lead).written ++ trail := by
      rw [ObjectText.written_behind, List.append_assoc, ← hrest, ← htook.rest]
      exact hskip.rest
    refine ⟨o.behind lead, trail, ⟨?_, ho.behind hlead, htrail⟩, hcontent⟩
    rw [mapError_eq_ok.mp hdecode, hdocument]
  next => cases h

/-- An object among the values of members is held by the member that counts. -/
theorem holds_of_get? {separator key : Text} {members : List MemberText}
    {inner : OrderedMap Text Json} (hmembers : AllSpelled separator members)
    (h : (ofList (entries members)).get? key = some (.object inner)) :
    ∃ o, Holds members key o ∧ o.content = .object inner := by
  rw [get?_ofList, lastOf_entries] at h
  obtain ⟨m, hm, hcontent⟩ := Option.map_eq_some_iff.mp h
  obtain ⟨-, before, after, rfl, -⟩ := exists_of_counting hm
  obtain ⟨⟨_, -, hvalue⟩, -⟩ := hmembers.split
  rw [hcontent] at hvalue
  obtain ⟨o, ho, htook, hinner⟩ :=
    objectText_of_valueAt (Json.valueAt_append hvalue (u := []) rfl 0)
  have hwritten : m.value = o.written := by simpa using htook.rest
  exact ⟨o, ⟨ho, m, hm, hwritten, hcontent.trans hinner.symm⟩, hinner⟩

/-- What a member holds is the value of its key. -/
theorem Holds.get? {members : List MemberText} {key : Text} (h : Holds members key o) :
    (ofList (entries members)).get? key = some o.content := by
  obtain ⟨-, m, hm, -, hcontent⟩ := h
  rw [get?_ofList, lastOf_entries, hm, Option.map_some, hcontent]

theorem isSome_get?_entries (o : ObjectText) (key : Text) :
    ((ofList (entries o.members)).get? key).isSome = o.hasKey key := by
  rw [get?_ofList, ObjectText.hasKey_eq_isSome]

/-- The fields that a change rests on are there as values exactly if they are there as texts. -/
theorem namesCaFile_iff : NamesCaFile contents name ↔
    ∃ o authentication x509 path trail,
      Changeable contents o authentication x509 path trail ∧ DrivePath.baseName path = name := by
  constructor
  · rintro ⟨config, authentication, x509, path, hdecoded, hfields, rfl, hname⟩
    obtain ⟨o, trail, hwrites, hcontent⟩ := writes_of_decoded hdecoded
    obtain rfl := Json.object.inj hcontent
    obtain ⟨settings, hsettings, hcontent₁⟩ :=
      holds_of_get? hwrites.wellFormed.members hfields.settings
    obtain rfl := Json.object.inj hcontent₁
    obtain ⟨certificates, hcertificates, hcontent₂⟩ :=
      holds_of_get? hsettings.1.wellFormed.members hfields.certificates
    obtain rfl := Json.object.inj hcontent₂
    have hcaFile := hfields.caFile
    rw [get?_ofList, lastOf_entries] at hcaFile
    have hdriver := hfields.driver
    have hperiod := hfields.period
    rw [isSome_get?_entries] at hdriver hperiod
    exact ⟨o, settings, certificates, path, trail,
      ⟨hwrites, ⟨hsettings, hcertificates, hcaFile⟩, hdriver, hperiod, hname⟩, rfl⟩
  · rintro ⟨o, authentication, x509, path, trail, h, rfl⟩
    refine ⟨ofList (entries o.members), ofList (entries authentication.members),
      ofList (entries x509.members), path, h.writes.decoded_eq, ?_, rfl, h.name⟩
    refine ⟨h.caFile.settings.get?, h.caFile.certificates.get?, ?_, ?_, ?_⟩
    · rw [get?_ofList, lastOf_entries, h.caFile.caFile]
    · rw [isSome_get?_entries, h.driver]
    · rw [isSome_get?_entries, h.period]

/-- A config can be changed exactly if it names a certificate file. -/
theorem exists_forWindows_iff :
    (∃ t, forWindows directory contents = .ok t) ↔ ∃ name, NamesCaFile contents name := by
  constructor
  · rintro ⟨t, ht⟩
    obtain ⟨o, authentication, x509, path, trail, hdecode, ho, htrail, hpath, hdriver, hperiod,
      hname, -⟩ := forWindows_written ht
    exact ⟨_, namesCaFile_iff.mpr ⟨o, authentication, x509, path, trail,
      ⟨⟨hdecode, ho, htrail⟩, hpath, hdriver, hperiod, hname⟩, rfl⟩⟩
  · rintro ⟨name, hname⟩
    obtain ⟨o, authentication, x509, path, trail, h, -⟩ := namesCaFile_iff.mp hname
    exact exists_forWindows h.writes h.caFile h.driver h.period h.name

/-! ## What is in an edited text -/

section Edited

variable {members : List MemberText} {key : Text} {m : MemberText} {c : CodePoint}
  {f : MemberText → List MemberText}

/-- What an edit leaves or puts in was there, or it is in what the edit makes of a member. -/
theorem mem_body_edited (h : c ∈ body (edited f members)) :
    c ∈ body members ∨ ∃ m ∈ members, c ∈ body (f m) := by
  induction members with
  | nil => exact .inl h
  | cons first rest ih =>
    rw [edited, body_append] at h
    rcases List.mem_append.mp h with h | h
    · split at h
      next => exact .inr ⟨first, List.mem_cons_self, h⟩
      next =>
        left
        rw [body_cons, body_nil, List.append_nil] at h
        rw [body_cons, ← List.append_assoc]
        exact List.mem_append_left _ h
    · rcases ih h with h | ⟨m, hm, h⟩
      · left
        simp [h]
      · exact .inr ⟨m, List.mem_cons_of_mem _ hm, h⟩

theorem body_subset (o : ObjectText) : body o.members ⊆ o.written := by
  intro c hc
  simp [ObjectText.written, hc]

/-- The text of a member is in that of the object. -/
theorem written_subset (hm : m ∈ o.members) : m.written ⊆ o.written := fun _ hc =>
  body_subset o (List.mem_flatMap.mpr ⟨m, hm, hc⟩)

theorem value_subset (hm : counting o.members key = some m) : m.value ⊆ o.written := by
  obtain ⟨-, before, after, hmembers, -⟩ := exists_of_counting hm
  have hmem : m ∈ o.members := by simp [hmembers]
  intro c hc
  exact written_subset hmem (List.mem_append_right _ hc)

theorem Holds.subset {inner : ObjectText} (h : Holds o.members key inner) :
    inner.written ⊆ o.written := by
  obtain ⟨-, m, hm, hwritten, -⟩ := h
  exact hwritten ▸ value_subset hm

/-- What is in an object with other members was there or is in the members. -/
theorem mem_written_or_body (h : c ∈ ObjectText.written { o with members }) :
    c ∈ o.written ∨ c ∈ body members := by
  simp only [ObjectText.written, List.mem_append] at h ⊢
  rcases h with h | h | h <;> simp [h]

/-- With an edit, what is in an object was there, or it is in what the edit makes of a member. -/
theorem mem_written_edit (h : c ∈ (o.edit f).written) :
    c ∈ o.written ∨ ∃ m ∈ o.members, c ∈ body (f m) := by
  rcases mem_written_or_body h with h | h
  · exact .inl h
  · exact (mem_body_edited h).imp_left fun h => body_subset o h

/-- What is in a member with another value was there or is in the value. -/
theorem mem_body_holding {value : Text} {content : Json}
    (h : c ∈ body [m.holding value content]) : c ∈ m.written ∨ c ∈ value := by
  rw [body_cons, body_nil, List.append_nil] at h
  exact (List.mem_append.mp h).imp_left fun h => List.mem_append_left _ h

theorem mem_body_singleton (h : c ∈ body [m]) : c ∈ m.written := by
  rwa [body_cons, body_nil, List.append_nil] at h

/-- With another value in one member, what is in an object was there or is in the value. -/
theorem mem_written_atKey {edit : MemberText → MemberText} {value : Text}
    (hedit : ∀ m, ∃ content, edit m = m.holding value content)
    (h : c ∈ (o.edit (atKey key edit)).written) : c ∈ o.written ∨ c ∈ value := by
  rcases mem_written_edit h with h | ⟨m, hm, h⟩
  · exact .inl h
  · obtain ⟨content, heq⟩ := hedit m
    unfold atKey at h
    split at h
    next =>
      rw [heq] at h
      exact (mem_body_holding h).imp_left fun h => written_subset hm h
    next => exact .inl (written_subset hm (mem_body_singleton h))

/-- The certificate settings with another path are made of what was there and that path. -/
theorem mem_withCaFile {new : Text} (h : CaFileAt o authentication x509 path)
    (hc : c ∈ (ObjectText.withCaFile authentication x509 new).written) :
    c ∈ o.written ∨ c ∈ encoded (.string new) := by
  rcases mem_written_atKey (fun m => ⟨_, rfl⟩) hc with hc | hc
  · exact .inl (h.settings.subset hc)
  · refine (mem_written_atKey (fun m => ⟨_, rfl⟩) hc).imp_left fun hc => ?_
    exact h.settings.subset (h.certificates.subset hc)

/-- What becomes of a member is made of the member, the new settings and fixed texts in ASCII. -/
theorem mem_windowsMember {qosThere : Bool}
    (h : c ∈ body (ObjectText.windowsMember authentication qosThere m)) :
    c ∈ m.written ∨ c ∈ authentication.written ∨ c.PrintsInAscii := by
  -- a fixed value in the place of the one of the member
  have hset : ∀ {value : Json}, (encoded value).PrintsInAscii → c ∈ body [m.set value] →
      c ∈ m.written ∨ c ∈ authentication.written ∨ c.PrintsInAscii := fun hvalue h =>
    (mem_body_holding h).imp_right fun h => .inr (hvalue c h)
  unfold ObjectText.windowsMember at h
  split at h
  next => exact (mem_body_holding h).imp_right .inl
  split at h
  next => exact hset (by decide +kernel) h
  split at h
  next => exact hset (by decide +kernel) h
  split at h
  next => exact hset (by decide +kernel) h
  split at h
  next =>
    have hsplit : body [m, further cgroupsPerQos (.bool false)] =
        body [m] ++ body [further cgroupsPerQos (.bool false)] := body_append [m] [_]
    have hfurther : Text.PrintsInAscii (body [further cgroupsPerQos (.bool false)]) := by
      decide +kernel
    rw [hsplit] at h
    rcases List.mem_append.mp h with h | h
    · exact .inl (mem_body_singleton h)
    · exact .inr (.inr (hfurther c h))
  next => exact .inl (mem_body_singleton h)

/-- A kubelet config for Windows is made of the config, the new settings and fixed texts in ASCII.
-/
theorem mem_forWindows (h : c ∈ (o.forWindows authentication).written) :
    c ∈ o.written ∨ c ∈ authentication.written ∨ c.PrintsInAscii := by
  have hedited : c ∈ body (edited (ObjectText.windowsMember authentication
      (o.hasKey cgroupsPerQos)) o.members) →
        c ∈ o.written ∨ c ∈ authentication.written ∨ c.PrintsInAscii := by
    intro h
    rcases mem_body_edited h with h | ⟨m, hm, h⟩
    · exact .inl (body_subset o h)
    · exact (mem_windowsMember h).imp_left fun h => written_subset hm h
  rcases mem_written_or_body h with h | h
  · exact .inl h
  split at h
  next => exact hedited h
  next =>
    have hfurther : Text.PrintsInAscii (body [further enforceNodeAllocatable (.array [])]) := by
      decide +kernel
    rw [body_append] at h
    rcases List.mem_append.mp h with h | h
    · exact hedited h
    · exact .inr (.inr (hfurther c h))

end Edited

/-! ## What can be written -/

/-- A joined path is a text that can be written exactly if the directory and the path are. -/
theorem isSurrogate_join (hdirectory : ∀ c ∈ directory, c.isSurrogate = false) (name : Text) :
    (∀ c ∈ DrivePath.join directory name, c.isSurrogate = false) ↔
      ∀ c ∈ name, c.isSurrogate = false := by
  constructor
  · intro h c hc
    exact h c (DrivePath.mem_join hc)
  · intro h c hc
    rcases DrivePath.of_mem_join hc with rfl | hc | hc
    · rfl
    · exact hdirectory c hc
    · exact h c hc

/-- A changed config can be written exactly if the new path of the certificate file can. -/
theorem Changeable.isSurrogate_forWindows (h : Changeable contents o authentication x509 path trail)
    (new : Text) :
    (∀ c ∈ (o.forWindows (ObjectText.withCaFile authentication x509 new)).written ++ trail,
      c.isSurrogate = false) ↔ ∀ c ∈ new, c.isSurrogate = false := by
  have hdocument := Utf8.isSurrogate_of_decode h.writes.decoded
  constructor
  · intro hall
    apply (Json.isSurrogate_stringText new).mp
    intro c hc
    have hagain := ObjectText.caFileAt_forWindows h.caFile new
    obtain ⟨m, hm, -⟩ := Option.map_eq_some_iff.mp h.caFile.caFile
    have hset : counting (x509.edit (atKey (text "clientCAFile") fun m =>
        m.set (.string new))).members (text "clientCAFile") = some (m.set (.string new)) :=
      ObjectText.counting_edit_atKey (fun _ => rfl) hm
    have hinside := hagain.settings.subset (hagain.certificates.subset (value_subset hset hc))
    exact hall c (List.mem_append_left _ hinside)
  · intro hnew c hc
    rcases List.mem_append.mp hc with hc | hc
    · rcases mem_forWindows hc with hc | hc | hc
      · exact hdocument c (List.mem_append_left _ hc)
      · rcases mem_withCaFile h.caFile hc with hc | hc
        · exact hdocument c (List.mem_append_left _ hc)
        · exact (Json.isSurrogate_stringText new).mpr hnew c hc
      · exact hc.isSurrogate
    · exact hdocument c (List.mem_append_right _ hc)

/-! ## Outcomes -/

/-- What comes of a change: a document that names no certificate file is refused as a config. Of one
that does the name says whether the change can be written. -/
inductive Outcome (contents : Bytes) : Except Failure Bytes → Prop
  | refused (fault : Fault) (h : ¬ ∃ name, NamesCaFile contents name) :
      Outcome contents (.error (.kubeletConfig fault))
  | unwritten {name : Text} (fault : Encoding.EncodeFault) (h : NamesCaFile contents name)
      (hname : ¬ ∀ c ∈ name, c.isSurrogate = false) : Outcome contents (.error (.unencodable fault))
  | changed {name : Text} (result : Bytes) (h : NamesCaFile contents name)
      (hname : ∀ c ∈ name, c.isSurrogate = false) : Outcome contents (.ok result)

theorem outcome_windowsKubeletConfig (contents : Bytes)
    (hdirectory : ∀ c ∈ directory, c.isSurrogate = false) :
    Outcome contents (Ignition.windowsKubeletConfig directory contents) := by
  rw [Ignition.windowsKubeletConfig]
  cases ht : forWindows directory contents with
  | error fault =>
    refine .refused fault fun hname => ?_
    obtain ⟨t, hok⟩ := exists_forWindows_iff.mpr hname
    cases ht.symm.trans hok
  | ok t =>
    obtain ⟨name, hname⟩ := exists_forWindows_iff.mp ⟨t, ht⟩
    obtain ⟨o, authentication, x509, path, trail, h, rfl⟩ := namesCaFile_iff.mp hname
    obtain ⟨-, rfl⟩ := forWindows_determined h.writes h.caFile ht
    have hwritable := (h.isSurrogate_forWindows _).trans
      (isSurrogate_join hdirectory (DrivePath.baseName path))
    rw [mapError_ok, ok_bind, Ignition.encodeContents]
    obtain ⟨bytes, hencode, hplain⟩ | ⟨fault, hencode, hhalf⟩ := Utf8.encode_cases _
    · rw [hencode]
      exact .changed bytes hname (hwritable.mp hplain)
    · rw [hencode]
      exact .unwritten fault hname (mt hwritable.mpr hhalf)

/-- **Which kubelet configs are changed.** A config is changed exactly if it is one object in UTF-8
with the fields that the change rests on, and the name of the certificate file has no half of a pair
in it. It is refused as a config exactly if the object or one of the fields is missing. What remains
are names with halves of pairs, for which the changed text cannot be written. -/
theorem windowsKubeletConfig_outcomes (contents : Bytes)
    (hdirectory : ∀ c ∈ directory, c.isSurrogate = false) :
    ((∃ result, Ignition.windowsKubeletConfig directory contents = .ok result) ↔
      ∃ name, NamesCaFile contents name ∧ ∀ c ∈ name, c.isSurrogate = false) ∧
    ((∃ fault, Ignition.windowsKubeletConfig directory contents = .error (.kubeletConfig fault)) ↔
      ¬ ∃ name, NamesCaFile contents name) ∧
    ((∃ fault, Ignition.windowsKubeletConfig directory contents = .error (.unencodable fault)) ↔
      ∃ name, NamesCaFile contents name ∧ ¬ ∀ c ∈ name, c.isSurrogate = false) := by
  have houtcome := outcome_windowsKubeletConfig contents hdirectory
  generalize Ignition.windowsKubeletConfig directory contents = outcome at houtcome ⊢
  cases houtcome with
  | refused fault hnone =>
    refine ⟨iff_of_false nofun ?_, iff_of_true ⟨fault, rfl⟩ hnone, iff_of_false nofun ?_⟩ <;>
      exact fun ⟨name, hname, _⟩ => hnone ⟨name, hname⟩
  | unwritten fault hname hhalf =>
    refine ⟨iff_of_false nofun ?_, iff_of_false nofun fun hnone => hnone ⟨_, hname⟩,
      iff_of_true ⟨fault, rfl⟩ ⟨_, hname, hhalf⟩⟩
    rintro ⟨name', hname', hplain⟩
    obtain rfl := hname.unique hname'
    exact hhalf hplain
  | changed result hname hplain =>
    refine ⟨iff_of_true ⟨result, rfl⟩ ⟨_, hname, hplain⟩,
      iff_of_false nofun fun hnone => hnone ⟨_, hname⟩, iff_of_false nofun ?_⟩
    rintro ⟨name', hname', hhalf⟩
    obtain rfl := hname.unique hname'
    exact hhalf hplain

theorem windowsKubeletConfig_outcomes_brief :
    (∀ c ∈ text "k", c.isSurrogate = false) ∧
      Ignition.windowsKubeletConfig (text "k") (Utf8.ofLiteral briefConfig) =
        .ok (Utf8.ofLiteral briefWindowsConfig) ∧
      ∃ name, NamesCaFile (Utf8.ofLiteral briefConfig) name ∧ ∀ c ∈ name, c.isSurrogate = false :=
  ⟨by decide, windowsKubeletConfig_brief,
    (windowsKubeletConfig_outcomes _ (by decide)).1.mp ⟨_, windowsKubeletConfig_brief⟩⟩

/-! ## A name that cannot be written -/

/-- The brief config with a name that is half of a pair. -/
def halfNameConfig : String :=
  "\x7b\"volumeStatsAggPeriod\":0,\"authentication\":\x7b\"x509\":\x7b\"clientCAFile\":" ++
    ("\"\\ud800\"" ++ "\x7d\x7d,\"cgroupDriver\":2\x7d")

/-- The patches of the config, in the order in which they are found. -/
def halfNamePatches : List Patch := [
  ⟨67, 75, encoded (.string (text "k\\" ++ [.surrogate 0]))⟩,
  ⟨93, 94, encoded (.string windowsCgroupDriver)⟩,
  ⟨25, 25, furtherMember cgroupsPerQos (.bool false)⟩,
  ⟨94, 94, furtherMember enforceNodeAllocatable (.array [])⟩]

/-- The config has all that a change rests on. It is in ASCII, since the half is escaped, but the
changed config is not. -/
theorem not_windowsKubeletConfig_of_namesCaFile :
    ¬ ∀ (directory : Text) (contents : Bytes), (∀ c ∈ directory, c.isSurrogate = false) →
      ((∃ result, Ignition.windowsKubeletConfig directory contents = .ok result) ↔
        ∃ name, NamesCaFile contents name) := by
  intro haccepts
  have hdocument : text halfNameConfig = _ := text_pieces _ _ _
  have hpatched : forWindows (text "k") (Utf8.ofLiteral halfNameConfig) = .ok _ :=
    forWindows_of_patches halfNamePatches hdocument (by decide +kernel) (by decide +kernel)
  have hname := exists_forWindows_iff.mp ⟨_, hpatched⟩
  obtain ⟨result, hresult⟩ := (haccepts (text "k") _ (by decide)).mpr hname
  obtain ⟨t, ht, hencode⟩ := bind_eq_ok.mp hresult
  rw [mapError_eq_ok.mp ht] at hpatched
  obtain rfl := Except.ok.inj hpatched
  have hplain := (Utf8.exists_encode_iff _).mp ⟨result, mapError_eq_ok.mp hencode⟩
  rw [Patch.applyAll_eq (by decide +kernel) (by decide +kernel)] at hplain
  exact absurd hplain (by decide +kernel)

end NodeBootstrap.KubeletConfig
