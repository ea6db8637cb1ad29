import NodeBootstrap.Proofs.Ignition.Effects
import NodeBootstrap.Proofs.Text.Utf8

/-!
# The files of a payload

With the default rules a walk puts four files into the install directory at most. Each is the
translation of the last entry of the payload that has the path of the rule; without such an entry it
is as it was, and so is everything else (`walk_defaultRules`).

Rules are apart: no two write the same file. So what an earlier entry with the path has written is
gone, and what entries with other paths have written is elsewhere. Entries whose path has no rule
are not looked into.
-/

set_option autoImplicit false

namespace NodeBootstrap.Ignition

open OrderedMap FileTree

/-! ## Entries by their paths -/

/-- The path of a file entry, if it is a text. -/
def pathOf? (entry : Json) : Option Text :=
  match entry.member? (text "path") with
  | some (.string path) => some path
  | _ => none

/-- The last file entry with a path. -/
def lastEntry (entries : List Json) (path : Text) : Option Json :=
  lastOf (entries.filterMap fun entry => (pathOf? entry).map fun path => (path, entry)) path

/-- The translation of a file entry by a rule. -/
def translation (directory path : Text) (rule : Rule) (entry : Json) : Except Failure Bytes :=
  match entry with
  | .object members => do translated directory rule.transform (← sourceOf path members)
  | entry => .error (.document (.invalidEntry entry))

variable {directory path : Text} {rules : Rules} {rule : Rule} {pointed : Option Text}
  {entry : Json} {entries : List Json}

theorem lastEntry_cons (entry : Json) (entries : List Json) (path : Text) :
    lastEntry (entry :: entries) path =
      (lastEntry entries path).or (if pathOf? entry = some path then some entry else none) := by
  unfold lastEntry
  rw [List.filterMap_cons]
  cases hpath : pathOf? entry with
  | none =>
    rw [if_neg nofun, Option.or_none]
    rfl
  | some found =>
    simp only [Option.map_some, lastOf, Option.some.injEq]

theorem ruleFor_eq (members : OrderedMap Text Json)
    (hpath : pathOf? (.object members) = some path) :
    ruleFor rules members = .ok ((rules.get? path).map fun rule => (path, rule)) := by
  unfold pathOf? at hpath
  split at hpath
  next found hfound =>
    cases hpath
    have hmember : members.get? (text "path") = some (.string path) := hfound
    rw [ruleFor, hmember]
  next => cases hpath

theorem ruleFor_eq_some {members : OrderedMap Text Json}
    (h : ruleFor rules members = .ok (some (path, rule))) :
    pathOf? (.object members) = some path ∧ rules.get? path = some rule := by
  unfold ruleFor at h
  split at h
  next found hfound =>
    obtain ⟨rule', hrule, heq⟩ := Option.map_eq_some_iff.mp (Except.ok.inj h)
    cases heq
    refine ⟨?_, hrule⟩
    unfold pathOf?
    have hmember : (Json.object members).member? (text "path") = some (.string path) := hfound
    rw [hmember]
  next => cases h
  next => cases h
  next => cases h

/-- What is written for an entry comes of the rule for its path. -/
theorem writeOf_eq_some {w : Rule × Bytes}
    (h : writeOf directory rules pointed entry = .ok (some w)) :
    ∃ path, pathOf? entry = some path ∧ rules.get? path = some w.1 := by
  cases entry with
  | object members =>
    obtain ⟨found, hfound, h⟩ := bind_eq_ok.mp h
    cases found with
    | none => cases h
    | some found =>
      obtain ⟨path, rule⟩ := found
      obtain ⟨hpath, hrule⟩ := ruleFor_eq_some (mapError_eq_ok.mp hfound)
      have hby : writeBy directory pointed path rule members = .ok (some w) := h
      unfold writeBy at hby
      split at hby
      next => cases hby
      next =>
        obtain ⟨source, -, hby⟩ := bind_eq_ok.mp hby
        obtain ⟨bytes, -, hby⟩ := bind_eq_ok.mp hby
        cases hby
        exact ⟨path, hpath, hrule⟩
  | _ => cases h

/-- What is written for an entry with a rule is its translation. -/
theorem writeOf_of_path {w : Option (Rule × Bytes)} (hpath : pathOf? entry = some path)
    (hrule : rules.get? path = some rule)
    (hpointed : rule.transform = some .cloudConfig → pointed = some path)
    (h : writeOf directory rules pointed entry = .ok w) :
    ∃ bytes, w = some (rule, bytes) ∧ translation directory path rule entry = .ok bytes := by
  cases entry with
  | object members =>
    obtain ⟨found, hfound, h⟩ := bind_eq_ok.mp h
    have hfound := mapError_eq_ok.mp hfound
    rw [ruleFor_eq members hpath, hrule] at hfound
    cases hfound
    have hby : writeBy directory pointed path rule members = .ok w := h
    rw [writeBy, if_neg fun hskip => hskip.2 (hpointed hskip.1)] at hby
    obtain ⟨source, hsource, hby⟩ := bind_eq_ok.mp hby
    obtain ⟨bytes, hbytes, hby⟩ := bind_eq_ok.mp hby
    cases hby
    refine ⟨bytes, rfl, ?_⟩
    rw [translation, hsource, ok_bind, hbytes]
  | _ => cases hpath

/-! ## The last entry counts -/

/-- The place that a rule writes to. -/
def Rule.place (directory : Text) (rule : Rule) : List Text :=
  Path.reached (Path.join directory rule.destination)

theorem placed_append (directory : Text) (first second : List (Rule × Bytes)) :
    placed (files? directory (first ++ second)) =
      placed (files? directory first) ++ placed (files? directory second) := by
  rw [files?, List.map_append, placed, List.map_append]
  rfl

/-- Everything that is written comes of a rule for the path of an entry. -/
theorem rule_of_mem_writes {ws : List (Rule × Bytes)}
    (h : writesOf directory rules pointed entries = .ok ws) :
    ∀ w ∈ ws, ∃ path, rules.get? path = some w.1 ∧ lastEntry entries path ≠ none := by
  induction entries generalizing ws with
  | nil =>
    cases h
    exact nofun
  | cons entry entries ih =>
    obtain ⟨first, hfirst, h⟩ := bind_eq_ok.mp h
    obtain ⟨others, hothers, heq⟩ := bind_eq_ok.mp h
    cases heq
    refine List.forall_mem_append.mpr ⟨fun w hw => ?_, fun w hw => ?_⟩
    · rw [Option.mem_toList.mp hw] at hfirst
      obtain ⟨path, hpath, hrule⟩ := writeOf_eq_some hfirst
      refine ⟨path, hrule, fun hnone => ?_⟩
      rw [lastEntry_cons, if_pos hpath] at hnone
      cases (Option.or_eq_none_iff.mp hnone).2
    · obtain ⟨path, hrule, hlast⟩ := ih hothers w hw
      refine ⟨path, hrule, fun hnone => hlast ?_⟩
      rw [lastEntry_cons] at hnone
      exact (Option.or_eq_none_iff.mp hnone).1

/-- At the place of a rule that no other writes to, the translation of the last entry with its path
is what is written last. -/
theorem lastOf_writes {ws : List (Rule × Bytes)} (hrule : rules.get? path = some rule)
    (hpointed : rule.transform = some .cloudConfig → pointed = some path)
    (hapart : ∀ path' rule', rules.get? path' = some rule' →
      rule'.place directory = rule.place directory → path' = path)
    (h : writesOf directory rules pointed entries = .ok ws) :
    (∀ entry, lastEntry entries path = some entry → ∃ bytes,
      translation directory path rule entry = .ok bytes ∧ (rule, bytes) ∈ ws ∧
        lastOf (placed (files? directory ws)) (rule.place directory) = some bytes) ∧
    (lastEntry entries path = none →
      lastOf (placed (files? directory ws)) (rule.place directory) = none) := by
  induction entries generalizing ws with
  | nil =>
    cases h
    exact ⟨fun _ heq => absurd heq.symm (Option.some_ne_none _), fun _ => rfl⟩
  | cons entry entries ih =>
    obtain ⟨first, hfirst, h⟩ := bind_eq_ok.mp h
    obtain ⟨others, hothers, heq⟩ := bind_eq_ok.mp h
    cases heq
    obtain ⟨hsome, hnone⟩ := ih hothers
    rw [placed_append, lastOf_append, lastEntry_cons]
    cases hlast : lastEntry entries path with
    | some later =>
      obtain ⟨bytes, hbytes, hmem, hwritten⟩ := hsome later hlast
      rw [hwritten, Option.some_or, Option.some_or]
      refine ⟨fun entry heq => ?_, fun heq => absurd heq (Option.some_ne_none _)⟩
      cases heq
      exact ⟨bytes, hbytes, List.mem_append_right _ hmem, rfl⟩
    | none =>
      rw [hnone hlast, Option.none_or, Option.none_or]
      split
      next hpath =>
        obtain ⟨bytes, rfl, hbytes⟩ := writeOf_of_path hpath hrule hpointed hfirst
        refine ⟨fun entry heq => ?_, fun heq => absurd heq (Option.some_ne_none _)⟩
        cases heq
        exact ⟨bytes, hbytes, List.mem_cons_self, if_pos rfl⟩
      next hpath =>
        refine ⟨fun _ heq => absurd heq.symm (Option.some_ne_none _), fun _ => ?_⟩
        cases first with
        | none => rfl
        | some w =>
          obtain ⟨path', hpath', hrule'⟩ := writeOf_eq_some hfirst
          have hne : w.1.place directory ≠ rule.place directory := fun heq =>
            hpath (hapart path' w.1 hrule' heq ▸ hpath')
          exact if_neg hne

/-! ## The rules that hold -/

/-- The rule for a path with the flags that the unit of the kubelet declares: a default one, or the
one for the cloud config that the last of the flags points at. -/
def ruleAt (flags : List (Text × Text)) (path : Text) : Option Rule :=
  (defaultRules.get? path).or
    (if lastOf flags CloudConfig.flagName = some path then some cloudConfigRule else none)

variable {flags : List (Text × Text)}

theorem get?_extendRules (flags : List (Text × Text)) (path : Text) :
    (extendRules defaultRules (ofList flags)).get? path = ruleAt flags path := by
  unfold extendRules ruleAt
  rw [get?_ofList]
  cases lastOf flags CloudConfig.flagName with
  | none => rw [if_neg nofun, Option.or_none]
  | some declared =>
    dsimp only
    by_cases heq : declared = path
    · subst heq
      rw [if_pos rfl, hasKey]
      cases hget : OrderedMap.get? defaultRules declared with
      | none => exact get?_set_self _ _ _
      | some rule => exact hget
    · rw [if_neg fun h => heq (Option.some.inj h), Option.or_none]
      split
      next => rfl
      next => exact get?_set_ne _ _ heq

theorem ruleAt_cases (h : ruleAt flags path = some rule) :
    (path, rule) ∈ defaultRules ∨
      (path ∉ keys defaultRules ∧ lastOf flags CloudConfig.flagName = some path ∧
        rule = cloudConfigRule) := by
  have hnodup : (keys defaultRules).Nodup := by decide
  unfold ruleAt at h
  cases hget : OrderedMap.get? defaultRules path with
  | some found =>
    rw [hget, Option.some_or] at h
    exact .inl ((mem_iff_get? hnodup (path, rule)).mpr (hget.trans h))
  | none =>
    rw [hget, Option.none_or] at h
    split at h
    next hpointed =>
      exact .inr ⟨fun hmem => mem_keys_iff.mp hmem hget, hpointed, (Option.some.inj h).symm⟩
    next => cases h

/-- A cloud config has a rule only if the last of the flags points at it. -/
theorem pointed_of_ruleAt (h : ruleAt flags path = some rule)
    (hcloud : rule.transform = some .cloudConfig) :
    path ∉ keys defaultRules ∧ lastOf flags CloudConfig.flagName = some path ∧
      rule = cloudConfigRule := by
  have hdefault : ∀ e ∈ defaultRules, e.2.transform ≠ some .cloudConfig := by decide
  rcases ruleAt_cases h with hmem | hpointed
  · exact absurd hcloud (hdefault _ hmem)
  · exact hpointed

theorem isName_cloudConfig : Path.IsName cloudConfigRule.destination :=
  (by decide : Path.IsName CloudConfig.fileName)

/-- The file of the cloud config is that of no default rule. -/
theorem destination_ne_cloudConfig :
    ∀ e ∈ defaultRules, e.2.destination ≠ cloudConfigRule.destination := by decide

theorem isName_of_ruleAt (h : ruleAt flags path = some rule) : Path.IsName rule.destination := by
  have hdefault : ∀ e ∈ defaultRules, Path.IsName e.2.destination := by decide
  rcases ruleAt_cases h with hmem | ⟨-, -, rfl⟩
  · exact hdefault _ hmem
  · exact isName_cloudConfig

/-- Rules that write the same file have the same name for it. -/
theorem Rule.destination_eq {rule rule' : Rule} (h : Path.IsName rule.destination)
    (h' : Path.IsName rule'.destination) (hplace : rule'.place directory = rule.place directory) :
    rule'.destination = rule.destination := by
  rw [Rule.place, Rule.place, Path.reached_join directory h,
    Path.reached_join directory h'] at hplace
  exact List.singleton_inj.mp (List.append_cancel_left hplace)

/-- No two rules write the same file. -/
theorem ruleAt_apart {path' : Text} {rule' : Rule} (h : ruleAt flags path = some rule)
    (h' : ruleAt flags path' = some rule')
    (hplace : rule'.place directory = rule.place directory) : path' = path := by
  have hdestination : rule'.destination = rule.destination :=
    Rule.destination_eq (isName_of_ruleAt h) (isName_of_ruleAt h') hplace
  have hdefault : ∀ e ∈ defaultRules, ∀ e' ∈ defaultRules,
      e'.2.destination = e.2.destination → e'.1 = e.1 := by decide
  rcases ruleAt_cases h with hmem | ⟨-, hpointed, rfl⟩ <;>
    rcases ruleAt_cases h' with hmem' | ⟨-, hpointed', rfl⟩
  · exact hdefault _ hmem _ hmem' hdestination
  · exact absurd hdestination.symm (destination_ne_cloudConfig _ hmem)
  · exact absurd hdestination (destination_ne_cloudConfig _ hmem')
  · exact Option.some.inj (hpointed'.symm.trans hpointed)

/-! ## Entries without a rule -/

/-- Whether an entry is looked into: its path has a rule, or is no text. -/
def looked (flags : List (Text × Text)) (entry : Json) : Bool :=
  (pathOf? entry).all fun path => (ruleAt flags path).isSome

/-- An entry whose path has no rule is passed over. -/
theorem walkEntry_of_not_looked {n : Node} (h : looked flags entry = false) :
    walkEntry n (extendRules defaultRules (ofList flags)) entry = pure () := by
  unfold looked at h
  cases hpath : pathOf? entry with
  | none =>
    rw [hpath] at h
    cases h
  | some path =>
    rw [hpath, Option.all_some, Option.isSome_eq_false_iff, Option.isNone_iff_eq_none] at h
    cases entry with
    | object members =>
      rw [walkEntry, ruleFor_eq members hpath, get?_extendRules, h]
      rfl
    | _ => cases hpath

/-- A loop may leave out the items with which nothing is done. -/
theorem forIn_filter {β : Type} {m : Type → Type} [Monad m] [LawfulMonad m] {keep : β → Bool}
    {body : β → PUnit → m (ForInStep PUnit)}
    (hbody : ∀ item, keep item = false → body item ⟨⟩ = pure (.yield ⟨⟩)) (items : List β) :
    forIn items PUnit.unit body = forIn (items.filter keep) PUnit.unit body := by
  induction items with
  | nil => rfl
  | cons item items ih =>
    rw [List.filter_cons]
    cases hkeep : keep item with
    | true => simp only [if_true, List.forIn_cons, ih]
    | false =>
      rw [List.forIn_cons, hbody item hkeep, pure_bind]
      exact ih

theorem ofExcept_ok {α : Type} (a : α) : NodeStep.ofExcept (.ok a) = pure a := rfl

/-- Documents that differ only in entries whose path has no rule have the same files written. -/
theorem walkFiles_eq_of_looked (n : Node) {document document' : Json} {entries' : List Json}
    (hfiles : files document = .ok entries) (hfiles' : files document' = .ok entries')
    (hlooked : entries'.filter (looked flags) = entries.filter (looked flags)) :
    walkFiles n document' (extendRules defaultRules (ofList flags)) =
      walkFiles n document (extendRules defaultRules (ofList flags)) := by
  have hbody : ∀ entry, looked flags entry = false →
      (do
        walkEntry n (extendRules defaultRules (ofList flags)) entry
        pure (ForInStep.yield PUnit.unit) : NodeStep (ForInStep PUnit)) = pure (.yield ⟨⟩) := by
    intro entry hentry
    rw [walkEntry_of_not_looked hentry, pure_bind]
  unfold walkFiles
  rw [hfiles, hfiles', ofExcept_ok, ofExcept_ok, pure_bind, pure_bind,
    forIn_filter hbody entries', hlooked, ← forIn_filter hbody entries]

/-- The rules behind the unit are those of its flags, whatever the node is. -/
theorem spec_readUnit_rules (n : Node) {unit : Json} (hflags : flagsOfUnit unit = .ok flags) :
    Spec (fun _ => True) (readUnit n unit defaultRules)
      (fun found _ => found = extendRules defaultRules (ofList flags)) fun _ => True := by
  intro s _
  refine (spec_readUnit unit s (Walked.refl s)).mono ?_ fun _ _ => trivial
  rintro found s' ⟨list, hlist, hfound, -⟩
  obtain rfl := Except.ok.inj (hlist.symm.trans hflags)
  exact hfound

/-- A walk does not depend on the entries whose path has no rule. -/
theorem walk_eq_of_looked {n : Node} {contents contents' : Bytes} {document document' : Json}
    {entries' : List Json} (hload : load contents = .ok document)
    (hload' : load contents' = .ok document') (hdeclared : declaredIn document = .ok flags)
    (hunit : unit? document' kubeletUnitName = unit? document kubeletUnitName)
    (hfiles : files document = .ok entries) (hfiles' : files document' = .ok entries')
    (hlooked : entries'.filter (looked flags) = entries.filter (looked flags)) :
    walk n contents' defaultRules = walk n contents defaultRules := by
  have hwalk := walkFiles_eq_of_looked n hfiles hfiles' hlooked
  obtain ⟨unit, hfound, hflags⟩ := bind_eq_ok.mp hdeclared
  rw [walk_eq, walk_eq, hload, hload', ofExcept_ok, ofExcept_ok, pure_bind, pure_bind, hunit,
    hfound, ofExcept_ok, pure_bind, pure_bind]
  cases unit with
  | none =>
    cases hflags
    exact bind_congr fun _ => hwalk
  | some unit =>
    refine bind_congr_of_spec (spec_readUnit_rules n hflags) ?_
    rintro _ rfl
    exact hwalk

/-! ## The files behind a walk -/

/-- What the files of a payload are on the node, behind a walk from one state to another. -/
structure Materialized (n : Node) (flags : List (Text × Text)) (entries : List Json)
    (s s' : NodeState) : Prop where
  /-- A file of an entry with a rule holds the translation of the last such entry. -/
  present : ∀ path rule, ruleAt flags path = some rule →
    ¬ s.host.LogsAt (rule.place n.layout.installDirectory) →
      ∀ entry, lastEntry entries path = some entry → ∃ bytes,
        translation n.layout.installDirectory path rule entry = .ok bytes ∧
          s'.host.files.read (Path.join n.layout.installDirectory rule.destination) = .ok bytes
  /-- Everything else is as it was. -/
  absent : ∀ place, ¬ s.host.LogsAt place →
    (∀ path rule, ruleAt flags path = some rule → rule.place n.layout.installDirectory = place →
      lastEntry entries path = none) →
        s'.host.files.at? place = s.host.files.at? place
  directories : ∀ place,
    s'.host.files.at? place = some .directory ↔ s.host.files.at? place = some .directory

section Walk

variable {n : Node} {contents : Bytes} {s s' : NodeState} {document : Json}
  {ws : List (Rule × Bytes)}

/-- Everything that is written comes of a rule that holds. -/
theorem Walk.rule_of_mem (h : Walk n contents defaultRules s s' document flags entries ws) :
    ∀ w ∈ ws, ∃ path, ruleAt flags path = some w.1 ∧ lastEntry entries path ≠ none := by
  intro w hw
  obtain ⟨path, hrule, hentry⟩ := rule_of_mem_writes h.written w hw
  exact ⟨path, get?_extendRules flags path ▸ hrule, hentry⟩

/-- Of the entries with the path of a rule that holds, the last is what is written last. -/
theorem Walk.last (h : Walk n contents defaultRules s s' document flags entries ws)
    (hrule : ruleAt flags path = some rule) (hentry : lastEntry entries path = some entry) :
    ∃ bytes, translation n.layout.installDirectory path rule entry = .ok bytes ∧
      (rule, bytes) ∈ ws ∧
        lastOf (placed (files? n.layout.installDirectory ws))
          (rule.place n.layout.installDirectory) = some bytes := by
  refine (lastOf_writes ((get?_extendRules flags path).trans hrule) (fun hcloud => ?_)
    (fun path' rule' hrule' => ?_) h.written).1 entry hentry
  · rw [get?_merge_ofList, (pointed_of_ruleAt hrule hcloud).2.1, Option.some_or]
  · exact ruleAt_apart hrule (get?_extendRules flags path' ▸ hrule')

theorem Walk.materialized (h : Walk n contents defaultRules s s' document flags entries ws) :
    Materialized n flags entries s s' := by
  refine ⟨fun path rule hrule hlog entry hentry => ?_, fun place hlog hnone => ?_,
    h.state.files.directories⟩
  · obtain ⟨bytes, hbytes, hmem, hlast⟩ := h.last hrule hentry
    refine ⟨bytes, hbytes, h.state.files.read hlog hlast ?_⟩
    exact List.mem_map_of_mem (List.mem_map_of_mem hmem)
  · refine h.state.files.at?_eq hlog (lastOf_eq_none.mpr fun e he heq => ?_)
    obtain ⟨file, hfile, rfl⟩ := List.mem_map.mp he
    obtain ⟨w, hw, rfl⟩ := List.mem_map.mp hfile
    obtain ⟨path, hrule, hsome⟩ := h.rule_of_mem w hw
    exact hsome (hnone path w.1 hrule heq)

end Walk

/-- With the default rules a walk that succeeds leaves the translations of the last entries with the
paths of the rules, and everything else as it was. Another payload, different only in entries whose
path has no rule, has the same effect. The install directory is taken to be relative to the working
directory, for an absolute path names nothing. -/
theorem walk_defaultRules {n : Node} {contents : Bytes} {s s' : NodeState}
    (h : (walk n contents defaultRules).run.run s = (.ok (), s')) :
    ∃ (document : Json) (flags : List (Text × Text)) (entries : List Json),
      load contents = .ok document ∧ declaredIn document = .ok flags ∧
        files document = .ok entries ∧ Materialized n flags entries s s' ∧
          ∀ (contents' : Bytes) (document' : Json) (entries' : List Json),
            load contents' = .ok document' →
            unit? document' kubeletUnitName = unit? document kubeletUnitName →
            files document' = .ok entries' →
            entries'.filter (looked flags) = entries.filter (looked flags) →
              walk n contents' defaultRules = walk n contents defaultRules := by
  obtain ⟨document, flags, entries, ws, hwalk⟩ := walk_eq_ok h
  exact ⟨document, flags, entries, hwalk.loaded, hwalk.declared, hwalk.listed, hwalk.materialized,
    fun _ _ _ hload' hunit hfiles' hlooked =>
      walk_eq_of_looked hwalk.loaded hload' hwalk.declared hunit hwalk.listed hfiles' hlooked⟩

/-! ## A brief payload -/

/-- A node below `k`. -/
def briefNode : Node where
  settings := Settings.defaults
  layout := ⟨text "k"⟩
  ignitionFile := none
  kubeletPath := none
  cniPath := none
  cniConfig := none

/-- The state of a run that begins in a tree with nothing but the install directory. -/
def briefState : NodeState :=
  ⟨{ Host.empty with files := ⟨[([text "k"], .directory)], []⟩ }, [], []⟩

/-- A payload with a unit that points at a cloud config, and next to it a file without a rule. -/
def briefPayload : String :=
  "\x7b\"systemd\":\x7b\"units\":[\x7b\"name\":\"kubelet.service\"," ++
  "\"contents\":\"ExecStart=k --v=4 --cloud-config=/c\"\x7d]\x7d,\"storage\":\x7b\"files\":[" ++
  "\x7b\"path\":\"/d\"\x7d,\x7b\"path\":\"/c\"," ++
  "\"contents\":\x7b\"source\":\"data:,%7b%7d\"\x7d\x7d]\x7d\x7d"

theorem walk_brief :
    ∃ s', (walk briefNode (Utf8.ofLiteral briefPayload) defaultRules).run.run briefState =
      (.ok (), s') := by
  have hbytes : Utf8.ofLiteral briefPayload = _ :=
    Utf8.ofLiteral_append
      (Utf8.ofLiteral_append
        (Utf8.ofLiteral_append (Utf8.ofLiteral_ofList _) (Utf8.ofLiteral_ofList _))
        (Utf8.ofLiteral_ofList _))
      (Utf8.ofLiteral_ofList _)
  rw [hbytes]
  exact exists_run_of_isOk (by decide +kernel)

theorem walk_defaultRules_brief :
    ∃ s', (walk briefNode (Utf8.ofLiteral briefPayload) defaultRules).run.run briefState =
        (.ok (), s') ∧
      ∃ (document : Json) (flags : List (Text × Text)) (entries : List Json),
        load (Utf8.ofLiteral briefPayload) = .ok document ∧ declaredIn document = .ok flags ∧
          files document = .ok entries ∧ Materialized briefNode flags entries briefState s' := by
  obtain ⟨s', hran⟩ := walk_brief
  obtain ⟨document, flags, entries, hload, hflags, hentries, hfiles, -⟩ := walk_defaultRules hran
  exact ⟨s', hran, document, flags, entries, hload, hflags, hentries, hfiles⟩

end NodeBootstrap.Ignition
