import NodeBootstrap.Proofs.Ignition.Materialized

/-!
# The flags of a payload

What a node knows of flags behind a walk is a matter of what the unit of the kubelet declares and of
whether the cloud config is there. The kubelet must not be started with a cloud config that was not
written, nor without the flag if one was; so the flag goes with the file (`walk_flags`).

The flags stand in the order in which they are set: the address of the node before the walk, the
cloud provider and the verbosity, and last the cloud config.
-/

set_option autoImplicit false

namespace NodeBootstrap.Ignition

open OrderedMap FileTree

/-- The flag for the cloud provider. -/
def providerFlag : Text := text "cloud-provider"

/-- The cloud config of a payload, with its path: the last file with the path that the last of the
flags points at. The path of a default rule is none of a cloud config. -/
def cloudConfig? (flags : List (Text × Text)) (entries : List Json) : Option (Text × Json) := do
  let path ← lastOf flags CloudConfig.flagName
  if path ∈ keys defaultRules then none
  else (lastEntry entries path).map fun entry => (path, entry)

/-- The flags of the kubelet before the files are gone through. -/
def collectedBefore (n : Node) (nodeIp : Option Text) (flags : List (Text × Text)) : Flags :=
  ofOption Node.nodeIpFlag ((nodeIp.filter (!·.isEmpty)).map .text) ++
    ofOption providerFlag ((lastOf flags providerFlag).map .text) ++
    [(verbosityFlag,
      .text (((lastOf flags verbosityFlag).filter (!·.isEmpty)).getD n.defaultVerbosity))]

/-- The flags of the kubelet behind a walk. -/
def collected (n : Node) (nodeIp : Option Text) (flags : List (Text × Text))
    (entries : List Json) : Flags :=
  collectedBefore n nodeIp flags ++
    ofOption CloudConfig.flagName
      ((cloudConfig? flags entries).map fun _ => .text (n.layout.file CloudConfig.fileName))

/-- The bytes of the flat form of the cloud config in a file entry. -/
def FlatForm (path : Text) (entry : Json) (bytes : Bytes) : Prop :=
  ∃ (members config : OrderedMap Text Json) (source : Json) (contents : Bytes),
    entry = .object members ∧ sourceOf path members = .ok source ∧
      DataUri.decode source = .ok contents ∧ Json.ofBytes contents = .ok (.object config) ∧
        Utf8.encode (CloudConfig.render config) = .ok bytes

variable {n : Node} {test : Text → Except Failure Bool} {nodeIp : Option Text} {path : Text}
  {entry : Json} {entries : List Json} {flags : List (Text × Text)} {contents bytes : Bytes}
  {s s' : NodeState} {document : Json} {ws : List (Rule × Bytes)}

/-! ## Whether there is a cloud config -/

theorem lastEntry_eq_none :
    lastEntry entries path = none ↔ ∀ entry ∈ entries, pathOf? entry ≠ some path := by
  rw [lastEntry, lastOf_eq_none, List.forall_mem_filterMap]
  refine forall₂_congr fun entry _ => ?_
  cases pathOf? entry with
  | none => exact ⟨fun _ => nofun, fun _ => nofun⟩
  | some found => simp only [Option.map_some, Option.some.injEq, forall_eq', ne_eq]

theorem cloudConfig?_eq_some :
    cloudConfig? flags entries = some (path, entry) ↔
      lastOf flags CloudConfig.flagName = some path ∧ path ∉ keys defaultRules ∧
        lastEntry entries path = some entry := by
  unfold cloudConfig?
  cases lastOf flags CloudConfig.flagName with
  | none => exact ⟨nofun, nofun⟩
  | some declared =>
    have hpath : (some declared >>= fun path =>
        if path ∈ keys defaultRules then none
        else (lastEntry entries path).map fun entry => (path, entry)) =
      if declared ∈ keys defaultRules then none
      else (lastEntry entries declared).map fun entry => (declared, entry) := rfl
    rw [hpath, Option.some.injEq]
    split
    next hmem => exact ⟨nofun, fun ⟨heq, hnot, _⟩ => absurd (heq ▸ hmem) hnot⟩
    next hmem =>
      rw [Option.map_eq_some_iff]
      constructor
      · rintro ⟨found, hfound, heq⟩
        cases heq
        exact ⟨rfl, hmem, hfound⟩
      · rintro ⟨rfl, -, hfound⟩
        exact ⟨entry, hfound, rfl⟩

/-- There is a cloud config if and only if a file has the path that the flags point at, and that is
no path of a default rule. -/
theorem cloudConfig?_ne_none :
    cloudConfig? flags entries ≠ none ↔
      ∃ path, lastOf flags CloudConfig.flagName = some path ∧ path ∉ keys defaultRules ∧
        ∃ entry ∈ entries, pathOf? entry = some path := by
  have hfile : ∀ path, (∃ entry ∈ entries, pathOf? entry = some path) ↔
      ∃ entry, lastEntry entries path = some entry := by
    intro path
    rw [← Option.ne_none_iff_exists', ne_eq, lastEntry_eq_none]
    simp only [Classical.not_forall, ne_eq, Classical.not_not, exists_prop]
  simp only [Option.ne_none_iff_exists', Prod.exists, cloudConfig?_eq_some, hfile, exists_and_left]

/-- The rule for the cloud config holds for its path. -/
theorem ruleAt_cloudConfig (h : cloudConfig? flags entries = some (path, entry)) :
    ruleAt flags path = some cloudConfigRule := by
  obtain ⟨hpointed, hdefault, -⟩ := cloudConfig?_eq_some.mp h
  rw [ruleAt, get?_eq_none hdefault, if_pos hpointed, Option.none_or]

/-- A cloud config is written if and only if there is one. -/
theorem Walk.exists_cloudConfig
    (h : Walk n contents defaultRules s s' document flags entries ws) :
    (∃ w ∈ ws, w.1.transform = some .cloudConfig) ↔ cloudConfig? flags entries ≠ none := by
  constructor
  · rintro ⟨w, hw, hcloud⟩
    obtain ⟨path, hrule, hentry⟩ := h.rule_of_mem w hw
    obtain ⟨hdefault, hpointed, -⟩ := pointed_of_ruleAt hrule hcloud
    obtain ⟨entry, hentry⟩ := Option.ne_none_iff_exists'.mp hentry
    rw [cloudConfig?_eq_some.mpr ⟨hpointed, hdefault, hentry⟩]
    exact Option.some_ne_none _
  · intro hsome
    obtain ⟨⟨path, entry⟩, hfound⟩ := Option.ne_none_iff_exists'.mp hsome
    obtain ⟨bytes, -, hmem, -⟩ :=
      h.last (ruleAt_cloudConfig hfound) (cloudConfig?_eq_some.mp hfound).2.2
    exact ⟨_, hmem, rfl⟩

/-! ## The flags of the kubelet -/

theorem firstFlags_eq_ok {first : Flags} (h : Node.firstFlagsBy test nodeIp = .ok first) :
    first = ofOption Node.nodeIpFlag ((nodeIp.filter (!·.isEmpty)).map .text) := by
  unfold Node.firstFlagsBy at h
  split at h
  next => exact (Except.ok.inj h).symm
  next => exact (Except.ok.inj h).symm
  next address hne =>
    cases address with
    | nil => exact absurd rfl hne
    | cons c address =>
      obtain ⟨valid, -, h⟩ := bind_eq_ok.mp h
      cases valid with
      | false => cases h
      | true => exact (Except.ok.inj h).symm

theorem carriedFlags_ofList (flags : List (Text × Text)) :
    carriedFlags (ofList flags) =
      ofOption providerFlag ((lastOf flags providerFlag).map .text) ++
        ofOption verbosityFlag ((lastOf flags verbosityFlag).map .text) := by
  have hcarried : carriedOver = [providerFlag, verbosityFlag] := rfl
  rw [carriedFlags, hcarried]
  simp only [List.filterMap_cons, List.filterMap_nil, get?_ofList]
  cases lastOf flags providerFlag <;> cases lastOf flags verbosityFlag <;> rfl

/-- The verbosity that a unit declares counts unless it is empty. -/
theorem withVerbosity_append {before : Flags} (hbefore : verbosityFlag ∉ before.keys)
    (declared : Option Text) :
    withVerbosity n (before ++ ofOption verbosityFlag (declared.map .text)) =
      before ++ [(verbosityFlag,
        .text ((declared.filter (!·.isEmpty)).getD n.defaultVerbosity))] := by
  have hget : (before ++ ofOption verbosityFlag (declared.map .text) : Flags).get? verbosityFlag =
      declared.map .text := by
    rw [get?_append, get?_eq_none hbefore, Option.none_or]
    cases declared with
    | none => rfl
    | some value => exact if_pos rfl
  rw [withVerbosity, hget, set_append hbefore]
  cases declared with
  | none => rfl
  | some value =>
    cases value with
    | nil => rfl
    | cons c value => rfl

/-- The flag for the cloud config is set once, however many are written. -/
theorem flagsBehind_eq (flags : Flags) (ws : List (Rule × Bytes)) :
    flagsBehind n flags ws =
      if ∃ w ∈ ws, w.1.transform = some .cloudConfig then
        flags.set CloudConfig.flagName (.text (n.layout.file CloudConfig.fileName))
      else flags := by
  induction ws generalizing flags with
  | nil => exact (if_neg nofun).symm
  | cons w ws ih =>
    have hstep : flagsBehind n flags (w :: ws) =
      flagsBehind n (withCloudConfig n w.1.transform flags) ws := rfl
    rw [hstep, ih, withCloudConfig]
    by_cases hw : w.1.transform = some .cloudConfig
    · rw [if_pos hw, set_set, ite_self, if_pos ⟨w, List.mem_cons_self, hw⟩]
    · simp only [List.mem_cons, exists_eq_or_imp, hw, false_or, if_false]

theorem flagName_not_mem : CloudConfig.flagName ∉ (collectedBefore n nodeIp flags).keys := by
  rw [collectedBefore, mem_keys_append, mem_keys_append]
  rintro ((hmem | hmem) | hmem)
  · exact absurd (eq_of_mem_keys_ofOption hmem)
      (by decide : CloudConfig.flagName ≠ Node.nodeIpFlag)
  · exact absurd (eq_of_mem_keys_ofOption hmem) (by decide : CloudConfig.flagName ≠ providerFlag)
  · exact absurd (List.mem_singleton.mp hmem) (by decide : CloudConfig.flagName ≠ verbosityFlag)

/-- The flags of a node with an address, if that is given, before the files are gone through. -/
theorem withVerbosity_carriedFlags {first : Flags}
    (hfirst : Node.firstFlagsBy test nodeIp = .ok first) :
    withVerbosity n (first.merge (carriedFlags (ofList flags))) =
      collectedBefore n nodeIp flags := by
  cases firstFlags_eq_ok hfirst
  have hprovider : providerFlag ∉ keys
      (ofOption Node.nodeIpFlag ((nodeIp.filter (!·.isEmpty)).map Value.text)) := fun hmem =>
    absurd (eq_of_mem_keys_ofOption hmem) (by decide : providerFlag ≠ Node.nodeIpFlag)
  have hverbosity : verbosityFlag ∉ keys
      (ofOption Node.nodeIpFlag ((nodeIp.filter (!·.isEmpty)).map Value.text) ++
        ofOption providerFlag ((lastOf flags providerFlag).map Value.text)) := by
    rw [mem_keys_append]
    rintro (hmem | hmem)
    · exact absurd (eq_of_mem_keys_ofOption hmem) (by decide : verbosityFlag ≠ Node.nodeIpFlag)
    · exact absurd (eq_of_mem_keys_ofOption hmem) (by decide : verbosityFlag ≠ providerFlag)
  rw [carriedFlags_ofList, merge_append, merge_ofOption hprovider, merge_ofOption hverbosity,
    withVerbosity_append hverbosity, collectedBefore]

theorem Walk.kubeletFlags (h : Walk n contents defaultRules s s' document flags entries ws)
    (hfirst : Node.firstFlagsBy test nodeIp = .ok s.kubeletFlags) :
    s'.kubeletFlags = collected n nodeIp flags entries := by
  rw [h.state.kubeletFlags, withVerbosity_carriedFlags hfirst, flagsBehind_eq, collected]
  split
  next hwritten =>
    obtain ⟨found, hfound⟩ := Option.ne_none_iff_exists'.mp (h.exists_cloudConfig.mp hwritten)
    rw [hfound, set_of_not_mem flagName_not_mem]
    rfl
  next hwritten =>
    rw [Classical.not_not.mp (mt h.exists_cloudConfig.mpr hwritten)]
    exact (List.append_nil _).symm

/-! ## The flag goes with the file -/

theorem flatForm_of_translation {directory : Text}
    (h : translation directory path cloudConfigRule entry = .ok bytes) :
    FlatForm path entry bytes := by
  cases entry with
  | object members =>
    obtain ⟨source, hsource, h⟩ := bind_eq_ok.mp h
    obtain ⟨contents, hcontents, h⟩ := bind_eq_ok.mp h
    obtain ⟨config, hconfig, h⟩ := bind_eq_ok.mp h
    obtain ⟨json, hjson, hconfig⟩ := bind_eq_ok.mp hconfig
    refine ⟨members, config, source, contents, rfl, hsource, mapError_eq_ok.mp hcontents, ?_,
      mapError_eq_ok.mp h⟩
    cases json with
    | object entries =>
      cases hconfig
      exact mapError_eq_ok.mp hjson
    | _ => cases hconfig
  | _ => cases h

/-- The flag for the cloud config is among those collected if there is a cloud config. -/
theorem flagName_mem_collected :
    CloudConfig.flagName ∈ (collected n nodeIp flags entries).keys ↔
      cloudConfig? flags entries ≠ none := by
  rw [collected, mem_keys_append, or_iff_right flagName_not_mem]
  cases cloudConfig? flags entries with
  | none => exact ⟨nofun, fun h => absurd rfl h⟩
  | some found => exact ⟨fun _ => Option.some_ne_none _, fun _ => List.mem_cons_self⟩

/-- What is written to the file of the cloud config comes of the cloud config. -/
theorem cloudConfig?_of_place {directory : Text} {rule : Rule}
    (hrule : ruleAt flags path = some rule)
    (hplace : rule.place directory = cloudConfigRule.place directory)
    (hentry : lastEntry entries path = some entry) :
    cloudConfig? flags entries = some (path, entry) := by
  have hdestination : rule.destination = cloudConfigRule.destination :=
    Rule.destination_eq isName_cloudConfig (isName_of_ruleAt hrule) hplace
  rcases ruleAt_cases hrule with hmem | ⟨hnew, hpointed, -⟩
  · exact absurd hdestination (destination_ne_cloudConfig _ hmem)
  · exact cloudConfig?_eq_some.mpr ⟨hpointed, hnew, hentry⟩

/-- The flag for the cloud config goes with the file. Whether it is set is a matter of the payload;
if it is, a walk through the payload leaves the flat form of the last file with the path in whatever
state it begins, and if it is not, a walk leaves the file as it was. -/
structure CloudConfigMatches (n : Node) (contents : Bytes) (flags : List (Text × Text))
    (entries : List Json) (kubeletFlags : Flags) : Prop where
  declared : CloudConfig.flagName ∈ kubeletFlags.keys ↔
    ∃ path, lastOf flags CloudConfig.flagName = some path ∧ path ∉ keys defaultRules ∧
      ∃ entry ∈ entries, pathOf? entry = some path
  written : CloudConfig.flagName ∈ kubeletFlags.keys →
    ∃ path entry bytes, lastOf flags CloudConfig.flagName = some path ∧
      lastEntry entries path = some entry ∧ FlatForm path entry bytes ∧
        ∀ t t', (walk n contents defaultRules).run.run t = (.ok (), t') →
          ¬ t.host.LogsAt (Path.reached (n.layout.file CloudConfig.fileName)) →
            t'.host.files.read (n.layout.file CloudConfig.fileName) = .ok bytes
  left : CloudConfig.flagName ∉ kubeletFlags.keys →
    ∀ t t', (walk n contents defaultRules).run.run t = (.ok (), t') →
      ¬ t.host.LogsAt (Path.reached (n.layout.file CloudConfig.fileName)) →
        t'.host.files.at? (Path.reached (n.layout.file CloudConfig.fileName)) =
          t.host.files.at? (Path.reached (n.layout.file CloudConfig.fileName))

/-- What a walk finds is a matter of the payload. -/
theorem materialized_of_payload (hload : load contents = .ok document)
    (hdeclared : declaredIn document = .ok flags) (hlisted : files document = .ok entries)
    (h : (walk n contents defaultRules).run.run s = (.ok (), s')) :
    Materialized n flags entries s s' := by
  obtain ⟨document', flags', entries', ws, hwalk⟩ := walk_eq_ok h
  cases hload.symm.trans hwalk.loaded
  cases hdeclared.symm.trans hwalk.declared
  cases hlisted.symm.trans hwalk.listed
  exact hwalk.materialized

theorem Walk.cloudConfigMatches
    (h : Walk n contents defaultRules s s' document flags entries ws) :
    CloudConfigMatches n contents flags entries (collected n nodeIp flags entries) := by
  refine ⟨flagName_mem_collected.trans cloudConfig?_ne_none, fun hset => ?_,
    fun hset t t' hrun hlog => ?_⟩
  · obtain ⟨⟨path, entry⟩, hfound⟩ :=
      Option.ne_none_iff_exists'.mp (flagName_mem_collected.mp hset)
    obtain ⟨hpointed, -, hentry⟩ := cloudConfig?_eq_some.mp hfound
    obtain ⟨bytes, hbytes, -, -⟩ := h.last (ruleAt_cloudConfig hfound) hentry
    refine ⟨path, entry, bytes, hpointed, hentry, flatForm_of_translation hbytes,
      fun t t' hrun hlog => ?_⟩
    obtain ⟨bytes', hbytes', hread⟩ :=
      (materialized_of_payload h.loaded h.declared h.listed hrun).present path _
        (ruleAt_cloudConfig hfound) hlog entry hentry
    cases hbytes.symm.trans hbytes'
    exact hread
  · refine (materialized_of_payload h.loaded h.declared h.listed hrun).absent _ hlog ?_
    intro path rule hrule hplace
    refine Option.eq_none_iff_forall_ne_some.mpr fun entry hentry => hset ?_
    rw [flagName_mem_collected, cloudConfig?_of_place hrule hplace hentry]
    exact Option.some_ne_none _

/-- What a walk from a fresh state collects. Which texts are addresses is left to any test: the flag
of the address is there if one was given and the test let the run begin. Paths are relative to the
working directory, and an absolute one names nothing. -/
theorem walk_flags (hfirst : Node.firstFlagsBy test nodeIp = .ok s.kubeletFlags)
    (hunit : s.unitFlags = []) (h : (walk n contents defaultRules).run.run s = (.ok (), s')) :
    ∃ (document : Json) (flags : List (Text × Text)) (entries : List Json),
      load contents = .ok document ∧ declaredIn document = .ok flags ∧
        files document = .ok entries ∧
          (∀ name, s'.unitFlags.get? name = lastOf flags name) ∧
            s'.kubeletFlags = collected n nodeIp flags entries ∧
              CloudConfigMatches n contents flags entries s'.kubeletFlags := by
  obtain ⟨document, flags, entries, ws, hwalk⟩ := walk_eq_ok h
  have hkubelet := hwalk.kubeletFlags hfirst
  refine ⟨document, flags, entries, hwalk.loaded, hwalk.declared, hwalk.listed, fun name => ?_,
    hkubelet, hkubelet ▸ hwalk.cloudConfigMatches⟩
  rw [hwalk.state.unitFlags, hunit, get?_merge_ofList, get?_nil, Option.or_none]

theorem walk_flags_brief :
    Node.firstFlagsBy Node.testAddress none = .ok briefState.kubeletFlags ∧
      briefState.unitFlags = [] ∧
      ∃ s', (walk briefNode (Utf8.ofLiteral briefPayload) defaultRules).run.run briefState =
          (.ok (), s') ∧
        ∃ (document : Json) (flags : List (Text × Text)) (entries : List Json),
          load (Utf8.ofLiteral briefPayload) = .ok document ∧ declaredIn document = .ok flags ∧
            files document = .ok entries ∧
              (∀ name, s'.unitFlags.get? name = lastOf flags name) ∧
                s'.kubeletFlags = collected briefNode none flags entries ∧
                  CloudConfigMatches briefNode (Utf8.ofLiteral briefPayload) flags entries
                    s'.kubeletFlags := by
  obtain ⟨s', hran⟩ := walk_brief
  exact ⟨rfl, rfl, s', hran, @walk_flags _ Node.testAddress _ _ _ _ rfl rfl hran⟩

end NodeBootstrap.Ignition
