import NodeBootstrap.Ignition.Walk
import NodeBootstrap.Proofs.FileTree

/-!
# What a walk through a payload does

A walk reads the flags of the unit of the kubelet and then goes through the files. What it writes is
a matter of the payload alone: `writesOf` are the files with a rule, in their order, each with its
contents. A walk that succeeds has written these and nothing else, and it has collected the flags
that go with them (`walk_eq_ok`).

The tree after it is the tree before it with these files written (`FileTree.Rewritten`), but for the
file that the host logs to.
-/

set_option autoImplicit false

namespace NodeBootstrap

open OrderedMap

/-- Whether a host logs to the file at a place. -/
def Host.LogsAt (h : Host) (place : List Text) : Prop :=
  ∃ file, h.journal.file = some file ∧ Path.reached file = place

/-! ## Trees with files written -/

namespace FileTree

/-- The places of files, with their contents. -/
def placed (ws : List (Text × Bytes)) : List (List Text × Bytes) :=
  ws.map fun w => (Path.reached w.1, w.2)

/-- A tree that has come of another by writing files one after the other. Nothing is said of what is
written at hidden places, but no directory comes or goes. -/
structure Rewritten (first : FileTree) (hidden : List Text → Prop) (ws : List (Text × Bytes))
    (t : FileTree) : Prop where
  directories : ∀ q, t.at? q = some .directory ↔ first.at? q = some .directory
  places : ∀ q, ¬ hidden q → t.at? q = ((lastOf (placed ws) q).map .file).or (first.at? q)
  paths : ∀ w ∈ ws, usable w.1 = .ok () ∧ first.placeOf w.1 = .ok (Path.reached w.1) ∧
    Path.endsInSlash w.1 = false

variable {first t : FileTree} {hidden : List Text → Prop} {ws : List (Text × Bytes)} {path : Text}
  {place : List Text} {contents : Bytes}

theorem Rewritten.refl (t : FileTree) (hidden : List Text → Prop) : t.Rewritten hidden [] t where
  directories _ := Iff.rfl
  places _ _ := rfl
  paths := nofun

theorem steady_rewritten : Steady (first.Rewritten hidden ws) :=
  fun _ _ h => ⟨h.directories, h.places, h.paths⟩

/-- One more file is written. -/
theorem Rewritten.write (h : first.Rewritten hidden ws t) (hplace : t.writable path = .ok place) :
    first.Rewritten hidden (ws ++ [(path, contents)]) (t.put place (.file contents)) := by
  have hfound := (writable_eq_ok hplace).1
  obtain rfl := eq_reached hfound
  obtain ⟨husable, hslash⟩ := usable_of_writable hplace
  refine ⟨fun q => (at?_put_directory hplace q).trans (h.directories q), fun q hq => ?_, ?_⟩
  · have hone : lastOf (placed (ws ++ [(path, contents)])) q =
        (if Path.reached path = q then some contents else none).or (lastOf (placed ws) q) := by
      rw [placed, List.map_append, lastOf_append]
      rfl
    rw [hone, at?_put_file hplace]
    split
    next => rfl
    next => rw [h.places q hq, Option.none_or]
  · refine List.forall_mem_append.mpr ⟨h.paths, List.forall_mem_singleton.mpr ⟨husable, ?_, hslash⟩⟩
    exact placeOf_mono (fun q => (h.directories q).mp) hfound

/-- A file at a hidden place is written. -/
theorem Rewritten.hide (h : first.Rewritten hidden ws t) (hplace : t.writable path = .ok place)
    (hhidden : hidden (Path.reached path)) :
    first.Rewritten hidden ws (t.put place (.file contents)) := by
  refine ⟨fun q => (at?_put_directory hplace q).trans (h.directories q), fun q hq => ?_, h.paths⟩
  rw [at?_put_file hplace, if_neg, h.places q hq]
  rintro rfl
  exact hq (eq_reached (writable_eq_ok hplace).1 ▸ hhidden)

/-- A file that was written is read back. -/
theorem Rewritten.read (h : first.Rewritten hidden ws t)
    (hvisible : ¬ hidden (Path.reached path))
    (hlast : lastOf (placed ws) (Path.reached path) = some contents)
    (hpath : path ∈ ws.map Prod.fst) : t.read path = .ok contents := by
  obtain ⟨w, hw, rfl⟩ := List.mem_map.mp hpath
  obtain ⟨husable, hplace, hslash⟩ := h.paths w hw
  have hfound : t.placeOf w.1 = .ok (Path.reached w.1) :=
    placeOf_mono (fun q => (h.directories q).mpr) hplace
  have hat : t.at? (Path.reached w.1) = some (.file contents) := by
    rw [h.places _ hvisible, hlast]
    rfl
  exact read_eq_ok.mpr (status_eq_ok.mpr
    ⟨husable, nodeOf_eq_ok.mpr ⟨_, hfound, hat, fun _ => hslash⟩⟩)

/-- What was not written is as it was. -/
theorem Rewritten.at?_eq (h : first.Rewritten hidden ws t) (hvisible : ¬ hidden place)
    (hlast : lastOf (placed ws) place = none) : t.at? place = first.at? place := by
  rw [h.places _ hvisible, hlast]
  rfl

/-- A log line is written at the place of the log, if at all. -/
theorem Rewritten.appendLine (h : first.Rewritten hidden ws t)
    (hhidden : hidden (Path.reached path)) (line : LogLine) :
    first.Rewritten hidden ws (Host.appendLine t path line) := by
  unfold Host.appendLine
  split
  next => exact h
  next bytes _ =>
    have happend : Spec (first.Rewritten hidden ws) (append path bytes)
        (fun _ => first.Rewritten hidden ws) (first.Rewritten hidden ws) :=
      spec_change steady_rewritten (fun _ ht => ht) (fun _ _ _ ht hplace => ht.hide hplace hhidden)
        fun _ _ _ ht hplace => ht.hide hplace hhidden
    have hend := happend t h
    generalize (append path bytes).run.run t = result at hend ⊢
    obtain ⟨result, t'⟩ := result
    cases result with
    | ok _ => exact hend
    | error _ => exact hend

end FileTree

namespace Ignition

open FileTree

/-! ## What a payload says -/

/-- The flags of a start command, in the order in which they are written. -/
def flagsIn (command : Text) : Except Failure (List (Text × Text)) := do
  let flags ← (Command.flagsOf command).mapError fun cause => .argument (.unsplittableCommand cause)
  flags.forM checkFlag
  return flags

/-- The flags that a unit declares; one without a start command declares none. -/
def flagsOfUnit (unit : Json) : Except Failure (List (Text × Text)) := do
  match UnitFile.execStart? (← (unitContents unit).mapError .kind) with
  | none => return []
  | some command => flagsIn command

/-- The flags that the unit of the kubelet declares. -/
def declaredIn (document : Json) : Except Failure (List (Text × Text)) := do
  match ← unit? document kubeletUnitName with
  | none => return []
  | some unit => flagsOfUnit unit

theorem declaredIn_of_none {document : Json} (h : unit? document kubeletUnitName = .ok none) :
    declaredIn document = .ok [] := by
  rw [declaredIn, h]
  rfl

theorem declaredIn_of_some {document unit : Json}
    (h : unit? document kubeletUnitName = .ok (some unit)) :
    declaredIn document = flagsOfUnit unit := by
  rw [declaredIn, h]
  rfl

/-- What a walk does behind the unit. -/
def walkFiles (n : Node) (document : Json) (rules : Rules) : NodeStep Unit := do
  ensureVerbosity n
  for entry in ← NodeStep.ofExcept (files document) do
    walkEntry n rules entry

/-- A walk reads the unit, if there is one, and goes through the files with the rules that hold
then. -/
theorem walk_eq (n : Node) (contents : Bytes) (rules : Rules) :
    walk n contents rules = (do
      let document ← NodeStep.ofExcept (load contents)
      match ← NodeStep.ofExcept (unit? document kubeletUnitName) with
      | some unit => readUnit n unit rules >>= walkFiles n document
      | none =>
        NodeStep.log .info (text "No " ++ kubeletUnitName ++ text " unit found in ignition file")
        walkFiles n document rules) := by
  refine bind_congr fun document => bind_congr fun unit => ?_
  cases unit with
  | none => rfl
  | some unit => rfl

theorem declaredFlags_eq_ok {command : Text} {declared : OrderedMap Text Text}
    (h : declaredFlags command = .ok declared) :
    ∃ flags, flagsIn command = .ok flags ∧ declared = ofList flags := by
  obtain ⟨flags, hflags, h⟩ := bind_eq_ok.mp h
  obtain ⟨⟨⟩, hcheck, h⟩ := bind_eq_ok.mp h
  cases h
  refine ⟨flags, ?_, rfl⟩
  rw [flagsIn, hflags, ok_bind, hcheck]
  rfl

/-- Contents changed by a transformation. -/
def changed (directory : Text) (transform : Transform) (contents : Bytes) : Except Failure Bytes :=
  match transform with
  | .kubeletConfig => windowsKubeletConfig directory contents
  | .cloudConfig => do encodeContents (CloudConfig.render (← loadCloudConfig contents))

/-- The translation of a source: what it decodes to, changed by the transformation of the rule. -/
def translated (directory : Text) (transform : Option Transform) (source : Json) :
    Except Failure Bytes := do
  let contents ← (DataUri.decode source).mapError Failure.ofSourceFault
  match transform with
  | none => return contents
  | some transform => changed directory transform contents

/-- What is written for a file with a rule: the rule and the contents. A cloud config is passed over
unless it is the one that the unit points at. -/
def writeBy (directory : Text) (pointed : Option Text) (path : Text) (rule : Rule)
    (members : OrderedMap Text Json) : Except Failure (Option (Rule × Bytes)) :=
  if rule.transform = some .cloudConfig ∧ pointed ≠ some path then .ok none
  else do
    let source ← sourceOf path members
    return some (rule, ← translated directory rule.transform source)

/-- What is written for a file entry, if it has a rule. -/
def writeOf (directory : Text) (rules : Rules) (pointed : Option Text) (entry : Json) :
    Except Failure (Option (Rule × Bytes)) :=
  match entry with
  | .object members => do
    match ← (ruleFor rules members).mapError .kind with
    | none => return none
    | some (path, rule) => writeBy directory pointed path rule members
  | entry => .error (.document (.invalidEntry entry))

/-- What is written for file entries, one after the other. -/
def writesOf (directory : Text) (rules : Rules) (pointed : Option Text) :
    List Json → Except Failure (List (Rule × Bytes))
  | [] => .ok []
  | entry :: rest => do
    let first ← writeOf directory rules pointed entry
    let others ← writesOf directory rules pointed rest
    return first.toList ++ others

/-- The files that are written in an install directory. -/
def files? (directory : Text) (ws : List (Rule × Bytes)) : List (Text × Bytes) :=
  ws.map fun w => (Path.join directory w.1.destination, w.2)

theorem writesOf_concat {directory : Text} {rules : Rules} {pointed : Option Text}
    {done : List Json} {entry : Json} {ws : List (Rule × Bytes)} {w : Option (Rule × Bytes)}
    (hdone : writesOf directory rules pointed done = .ok ws)
    (hentry : writeOf directory rules pointed entry = .ok w) :
    writesOf directory rules pointed (done ++ [entry]) = .ok (ws ++ w.toList) := by
  induction done generalizing ws with
  | nil =>
    cases hdone
    rw [List.nil_append, writesOf, hentry, List.nil_append]
    exact congrArg Except.ok (List.append_nil _)
  | cons first done ih =>
    obtain ⟨w', hfirst, hdone⟩ := bind_eq_ok.mp hdone
    obtain ⟨ws', hrest, heq⟩ := bind_eq_ok.mp hdone
    cases heq
    rw [List.cons_append, writesOf, hfirst, ok_bind, ih hrest, List.append_assoc]
    rfl

/-! ## States of a walk -/

/-- A state in which files have been written and flags collected since another. -/
structure Walked (first : NodeState) (ws : List (Text × Bytes)) (kubeletFlags : Flags)
    (unitFlags : OrderedMap Text Text) (s : NodeState) : Prop where
  journal : s.host.journal.file = first.host.journal.file
  files : first.host.files.Rewritten first.host.LogsAt ws s.host.files
  kubeletFlags : s.kubeletFlags = kubeletFlags
  unitFlags : s.unitFlags = unitFlags

section Steps

variable {first : NodeState} {ws : List (Text × Bytes)} {flags : Flags}
  {declared : OrderedMap Text Text} {E : NodeState → Prop} {α : Type}

theorem Walked.refl (s : NodeState) : Walked s [] s.kubeletFlags s.unitFlags s :=
  ⟨rfl, Rewritten.refl _ _, rfl, rfl⟩

/-- A log line changes nothing but the log. -/
theorem Walked.log {s : NodeState} (h : Walked first ws flags declared s) (level : LogLevel)
    (message : Text) :
    Walked first ws flags declared { s with host := s.host.logged level message } := by
  unfold Host.logged
  split
  next => exact h
  next =>
    refine ⟨h.journal, ?_, h.kubeletFlags, h.unitFlags⟩
    dsimp only
    split
    next => exact h.files
    next file hfile => exact h.files.appendLine ⟨file, h.journal ▸ hfile, rfl⟩ _

theorem spec_walkedLog (level : LogLevel) (message : Text) :
    Spec (Walked first ws flags declared) (NodeStep.log level message)
      (fun _ => Walked first ws flags declared) E :=
  fun _ hs => hs.log level message

theorem spec_ofExcept {P : NodeState → Prop} (result : Except Failure α) :
    Spec P (NodeStep.ofExcept result) (fun a s => result = .ok a ∧ P s) fun _ => True := by
  cases result with
  | ok a => exact fun s hs => ⟨rfl, hs⟩
  | error failure => exact fun _ _ => trivial

theorem spec_walkedSetFlag (name : Text) (value : Value) :
    Spec (Walked first ws flags declared) (NodeStep.setFlag name value)
      (fun _ => Walked first ws (flags.set name value) declared) E :=
  spec_modify _ fun _ hs => ⟨hs.journal, hs.files, by rw [hs.kubeletFlags], hs.unitFlags⟩

theorem spec_writeContents (path : Text) (contents : Bytes) :
    Spec (Walked first ws flags declared) (writeContents path contents)
      (fun _ => Walked first (ws ++ [(path, contents)]) flags declared) fun _ => True := by
  have hwrite : Spec (first.host.files.Rewritten first.host.LogsAt ws)
      (FileTree.write path contents)
      (fun _ => first.host.files.Rewritten first.host.LogsAt (ws ++ [(path, contents)]))
      (fun _ => True) :=
    spec_write steady_rewritten (fun _ _ => trivial) (fun _ _ _ _ _ => trivial)
      fun _ _ ht hplace => ht.write hplace
  refine spec_ofHost_ends fun s hs => ?_
  refine spec_onFiles_ends (P := fun host => host = s.host) ?_ s.host rfl
  rintro _ rfl
  exact (hwrite s.host.files hs.files).mono
    (fun _ _ hfiles => ⟨hs.journal, hfiles, hs.kubeletFlags, hs.unitFlags⟩) fun _ _ => trivial

/-! ## The steps of a walk -/

/-- The flags behind a transformation: a cloud config brings its flag with it. -/
def withCloudConfig (n : Node) (transform : Option Transform) (flags : Flags) : Flags :=
  if transform = some .cloudConfig then
    flags.set CloudConfig.flagName (.text (n.layout.file CloudConfig.fileName))
  else flags

variable {n : Node} {rules : Rules} {contents : Bytes}

theorem spec_applyTransform (transform : Transform) :
    Spec (Walked first ws flags declared) (applyTransform n transform contents)
      (fun bytes s => changed n.layout.installDirectory transform contents = .ok bytes ∧
        Walked first ws (withCloudConfig n (some transform) flags) declared s) fun _ => True := by
  cases transform with
  | kubeletConfig => exact spec_ofExcept _
  | cloudConfig =>
    refine spec_bind (spec_ofExcept (loadCloudConfig contents)) fun entries => ?_
    refine Spec.knowing fun hentries => ?_
    refine spec_bind (spec_walkedSetFlag _ _) fun _ => ?_
    refine spec_bind (spec_walkedLog _ _) fun _ => ?_
    refine (spec_ofExcept _).ending fun bytes s hs => ⟨?_, hs.2⟩
    rw [changed, hentries]
    exact hs.1

theorem spec_materialize (transform : Option Transform) (source : Json) :
    Spec (Walked first ws flags declared) (materialize n source transform)
      (fun bytes s => translated n.layout.installDirectory transform source = .ok bytes ∧
        Walked first ws (withCloudConfig n transform flags) declared s) fun _ => True := by
  refine spec_bind (spec_ofExcept _) fun contents => ?_
  refine Spec.knowing fun hcontents => ?_
  unfold translated
  rw [hcontents, ok_bind]
  cases transform with
  | none => exact spec_pure _ fun s hs => ⟨rfl, hs⟩
  | some transform =>
    exact spec_tryCatch (spec_applyTransform transform) fun _ => spec_throw _ fun _ _ => trivial

/-- The state behind what is written for an entry. -/
def Behind (n : Node) (first : NodeState) (ws : List (Text × Bytes)) (flags : Flags)
    (declared : OrderedMap Text Text) (w : Option (Rule × Bytes)) (s : NodeState) : Prop :=
  Walked first (ws ++ files? n.layout.installDirectory w.toList)
    (withCloudConfig n (w.bind fun w => w.1.transform) flags) declared s

theorem behind_none {s : NodeState} (h : Walked first ws flags declared s) :
    Behind n first ws flags declared none s := by
  have hsame : ws ++ files? n.layout.installDirectory (none : Option (Rule × Bytes)).toList = ws :=
    List.append_nil ws
  rw [Behind, hsame]
  exact h

/-- A file with a rule is written as the rule says. -/
theorem spec_materializeEntry (path : Text) (rule : Rule) (members : OrderedMap Text Json) :
    Spec (Walked first ws flags declared) (materializeEntry n path rule members)
      (fun _ s => ∃ w, writeBy n.layout.installDirectory
          (declared.get? CloudConfig.flagName) path rule members = .ok w ∧
        Behind n first ws flags declared w s) fun _ => True := by
  refine spec_bind spec_get fun before => ?_
  rintro s ⟨rfl, hs⟩
  unfold writeBy
  rw [hs.unitFlags]
  split
  next =>
    exact ((spec_walkedLog _ _).ending fun _ s hs => ⟨none, rfl, behind_none hs⟩) before hs
  next =>
    refine spec_bind (spec_ofExcept _) (fun source => Spec.knowing fun hsource => ?_) before hs
    refine spec_bind (spec_materialize _ source) fun bytes => Spec.knowing fun hbytes => ?_
    refine spec_bind (spec_writeContents _ _) fun _ => ?_
    refine (spec_walkedLog _ _).ending fun _ s hs => ⟨some (rule, bytes), ?_, hs⟩
    rw [hsource, ok_bind, hbytes]
    rfl

/-- An entry is written as its rule says, and nothing else happens. -/
theorem spec_walkEntry (entry : Json) :
    Spec (Walked first ws flags declared) (walkEntry n rules entry)
      (fun _ s => ∃ w, writeOf n.layout.installDirectory rules
          (declared.get? CloudConfig.flagName) entry = .ok w ∧
        Behind n first ws flags declared w s) fun _ => True := by
  cases entry with
  | object members =>
    refine spec_bind (spec_ofExcept _) fun found => Spec.knowing fun hfound => ?_
    simp only [writeOf, hfound, ok_bind]
    cases found with
    | none => exact spec_pure _ fun s hs => ⟨none, rfl, behind_none hs⟩
    | some found => exact spec_materializeEntry found.1 found.2 members
  | _ => exact spec_throw _ fun _ _ => trivial

/-- The flags of the unit are taken. -/
theorem spec_readUnit (unit : Json) :
    Spec (Walked first ws flags declared) (readUnit n unit rules)
      (fun found s => ∃ list, flagsOfUnit unit = .ok list ∧
        found = extendRules rules (ofList list) ∧
        Walked first ws (flags.merge (carriedFlags (ofList list))) (declared.merge (ofList list)) s)
      fun _ => True := by
  refine spec_bind (spec_ofExcept _) fun contents => Spec.knowing fun hcontents => ?_
  unfold flagsOfUnit
  rw [hcontents, ok_bind]
  cases hcommand : UnitFile.execStart? contents with
  | none =>
    refine spec_bind (spec_walkedLog _ _) fun _ => ?_
    exact spec_pure _ fun s hs => ⟨[], rfl, rfl, hs⟩
  | some command =>
    refine spec_bind (spec_ofExcept _) fun found => Spec.knowing fun hfound => ?_
    obtain ⟨list, hlist, rfl⟩ := declaredFlags_eq_ok hfound
    refine spec_bind (spec_modify (Q := fun _ => Walked first ws
      (flags.merge (carriedFlags (ofList list))) (declared.merge (ofList list))) _ ?_) fun _ => ?_
    · intro s hs
      exact ⟨hs.journal, hs.files, by rw [hs.kubeletFlags], by rw [hs.unitFlags]⟩
    · have hend : Spec (Walked first ws (flags.merge (carriedFlags (ofList list)))
          (declared.merge (ofList list))) (pure (extendRules rules (ofList list)) : NodeStep Rules)
          (fun found s => ∃ list, flagsIn command = .ok list ∧
            found = extendRules rules (ofList list) ∧
            Walked first ws (flags.merge (carriedFlags (ofList list)))
              (declared.merge (ofList list)) s) fun _ => True :=
        spec_pure _ fun s hs => ⟨list, hlist, rfl, hs⟩
      dsimp only
      split
      next => exact spec_bind (spec_walkedLog _ _) fun _ => hend
      next => exact hend

/-- The flags with a verbosity. -/
def withVerbosity (n : Node) (flags : Flags) : Flags :=
  if ((flags.get? verbosityFlag).getD .null).isEmptyOrZero then
    flags.set verbosityFlag (.text n.defaultVerbosity)
  else flags

theorem spec_ensureVerbosity :
    Spec (Walked first ws flags declared) (ensureVerbosity n)
      (fun _ => Walked first ws (withVerbosity n flags) declared) E := by
  refine spec_bind spec_get fun before => ?_
  rintro s ⟨rfl, hs⟩
  rw [hs.kubeletFlags]
  unfold withVerbosity
  dsimp only
  split
  next => exact spec_walkedSetFlag _ _ before hs
  next =>
    exact spec_pure (Q := fun _ => Walked first ws flags declared) _ (fun _ hs => hs) before hs

/-- The flags behind files that are written. -/
def flagsBehind (n : Node) (flags : Flags) (ws : List (Rule × Bytes)) : Flags :=
  ws.foldl (fun flags w => withCloudConfig n w.1.transform flags) flags

/-- The state behind what is written for file entries. -/
def BehindEntries (n : Node) (rules : Rules) (first : NodeState) (flags : Flags)
    (declared : OrderedMap Text Text) (entries : List Json) (s : NodeState) : Prop :=
  ∃ ws, writesOf n.layout.installDirectory rules (declared.get? CloudConfig.flagName) entries =
      .ok ws ∧
    Walked first (files? n.layout.installDirectory ws) (flagsBehind n flags ws) declared s

/-- What is written for one more entry comes behind what is written for the others. -/
theorem Behind.concat {done : List Json} {entry : Json} {ws : List (Rule × Bytes)}
    {w : Option (Rule × Bytes)} {s : NodeState}
    (hdone : writesOf n.layout.installDirectory rules (declared.get? CloudConfig.flagName) done =
      .ok ws)
    (hentry : writeOf n.layout.installDirectory rules (declared.get? CloudConfig.flagName) entry =
      .ok w)
    (h : Behind n first (files? n.layout.installDirectory ws) (flagsBehind n flags ws) declared w
      s) :
    BehindEntries n rules first flags declared (done ++ [entry]) s := by
  have hfiles : files? n.layout.installDirectory (ws ++ w.toList) =
      files? n.layout.installDirectory ws ++ files? n.layout.installDirectory w.toList :=
    List.map_append
  have hflags : flagsBehind n flags (ws ++ w.toList) =
      withCloudConfig n (w.bind fun w => w.1.transform) (flagsBehind n flags ws) := by
    rw [flagsBehind, List.foldl_append]
    cases w <;> rfl
  refine ⟨ws ++ w.toList, writesOf_concat hdone hentry, ?_⟩
  rw [hfiles, hflags]
  exact h

/-- File entries are written one after the other. -/
theorem spec_walkEntries (entries : List Json) :
    Spec (Walked first [] flags declared)
      (forIn entries PUnit.unit fun entry _ => do
        walkEntry n rules entry
        pure (ForInStep.yield PUnit.unit))
      (fun _ => BehindEntries n rules first flags declared entries) fun _ => True := by
  refine (spec_forIn (I := BehindEntries n rules first flags declared)
    fun done entry _ => ?_).since fun s hs => ⟨[], rfl, hs⟩
  rintro s ⟨ws, hws, hs⟩
  refine spec_bind (spec_walkEntry entry) (fun _ => spec_pure _ ?_) s hs
  rintro s ⟨w, hw, hs⟩
  exact ⟨rfl, hs.concat hws hw⟩

end Steps

/-! ## A walk that succeeds -/

/-- What a walk finds in a payload, what it writes, and the state behind it. -/
structure Walk (n : Node) (contents : Bytes) (rules : Rules) (s s' : NodeState) (document : Json)
    (flags : List (Text × Text)) (entries : List Json) (ws : List (Rule × Bytes)) : Prop where
  loaded : load contents = .ok document
  declared : declaredIn document = .ok flags
  listed : files document = .ok entries
  written : writesOf n.layout.installDirectory (extendRules rules (ofList flags))
    ((s.unitFlags.merge (ofList flags)).get? CloudConfig.flagName) entries = .ok ws
  state : Walked s (files? n.layout.installDirectory ws)
    (flagsBehind n (withVerbosity n (s.kubeletFlags.merge (carriedFlags (ofList flags)))) ws)
    (s.unitFlags.merge (ofList flags)) s'

/-- A walk that succeeds has written what is to be written for the payload, and nothing else. -/
theorem walk_eq_ok {n : Node} {contents : Bytes} {rules : Rules} {s s' : NodeState}
    (h : (walk n contents rules).run.run s = (.ok (), s')) :
    ∃ document flags entries ws, Walk n contents rules s s' document flags entries ws := by
  have hwalk : Spec (Walked s [] s.kubeletFlags s.unitFlags) (walk n contents rules)
      (fun _ s' => ∃ document flags entries ws,
        Walk n contents rules s s' document flags entries ws) fun _ => True := by
    rw [walk_eq]
    refine spec_bind (spec_ofExcept _) fun document => Spec.knowing fun hdocument => ?_
    refine spec_bind (spec_ofExcept _) fun unit => Spec.knowing fun hunit => ?_
    have hrest : ∀ found, Spec
        (fun s' => ∃ flags, declaredIn document = .ok flags ∧
          found = extendRules rules (ofList flags) ∧
          Walked s [] (s.kubeletFlags.merge (carriedFlags (ofList flags)))
            (s.unitFlags.merge (ofList flags)) s')
        (walkFiles n document found)
        (fun _ s' => ∃ document flags entries ws,
          Walk n contents rules s s' document flags entries ws) fun _ => True := by
      rintro found t ⟨flags, hflags, rfl, ht⟩
      refine spec_bind spec_ensureVerbosity (fun _ => ?_) t ht
      refine spec_bind (spec_ofExcept _) fun entries => Spec.knowing fun hentries => ?_
      refine spec_bind (spec_walkEntries entries) fun _ => spec_pure _ ?_
      rintro s' ⟨ws, hws, hs'⟩
      exact ⟨document, flags, entries, ws, hdocument, hflags, hentries, hws, hs'⟩
    cases unit with
    | none =>
      refine spec_bind (spec_walkedLog _ _) fun _ => ?_
      exact (hrest rules).since fun t ht => ⟨[], declaredIn_of_none hunit, rfl, ht⟩
    | some unit =>
      refine spec_bind (spec_readUnit unit) fun found => (hrest found).since ?_
      rintro t ⟨flags, hflags, hfound, ht⟩
      exact ⟨flags, (declaredIn_of_some hunit).trans hflags, hfound, ht⟩
  exact hwalk.ended (Walked.refl s) h

end Ignition

end NodeBootstrap
