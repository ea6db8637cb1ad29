import NodeBootstrap.Ignition.Walk
import NodeBootstrap.Proofs.FileTree.Operations
import NodeBootstrap.Proofs.Ignition.Effects

/-!
# What a walk keeps

A walk logs, sets flags and writes the files that have rules, and nothing else; what these keep, a
walk keeps, however far it comes (`keeps_walk`). Its failures are those of reading the payload
(`Readable`), of a transformation and of writing a file.
-/

set_option autoImplicit false

namespace NodeBootstrap.Ignition

open OrderedMap

/-- The flags that a walk sets of its own accord. -/
def ownFlags (n : Node) : List (Text × Text) :=
  [(verbosityFlag, n.defaultVerbosity),
    (CloudConfig.flagName, n.layout.file CloudConfig.fileName)]

/-- What is kept by all that a walk does to a node when the flags that the unit declares are with
`D`. -/
structure Bears (n : Node) (D : OrderedMap Text Text → Prop) (made written : List Text → Prop)
    (R : NodeState → Prop) (F : FileFault → Prop) : Prop where
  files : Endures made written R F
  logs : OutlivesLogs R
  flag : ∀ (s : NodeState) (name value : Text), (name, value) ∈ ownFlags n → R s →
    R { s with kubeletFlags := s.kubeletFlags.set name (.text value) }
  declared : ∀ (s : NodeState) (declared : OrderedMap Text Text), D declared → R s →
    R { s with
        unitFlags := s.unitFlags.merge declared
        kubeletFlags := s.kubeletFlags.merge (carriedFlags declared) }

/-- Reading an entry fails in some ways only. -/
def EntryReadable (G : Failure → Prop) (rules : Rules) : Json → Prop
  | .object members =>
    Yields (fun found => ∀ path rule, found = some (path, rule) →
        Yields (fun source =>
            Yields (fun _ => True) G ((DataUri.decode source).mapError Failure.ofSourceFault))
          G (sourceOf path members))
      G ((ruleFor rules members).mapError .kind)
  | entry => G (.document (.invalidEntry entry))

/-- Reading a payload fails in some ways only. -/
structure Readable (G : Failure → Prop) (contents : Bytes) (rules : Rules) : Prop where
  loads : Yields (fun _ => True) G (load contents)
  units : ∀ document, load contents = .ok document →
    Yields (fun _ => True) G (unit? document kubeletUnitName)
  unit : ∀ document unit, load contents = .ok document →
    unit? document kubeletUnitName = .ok (some unit) →
      Yields (fun _ => True) G ((unitContents unit).mapError .kind)
  files : ∀ document, load contents = .ok document → Yields (fun _ => True) G (files document)
  entries : ∀ document flags entries entry, load contents = .ok document →
    declaredIn document = .ok flags → Ignition.files document = .ok entries → entry ∈ entries →
      EntryReadable G (extendRules rules (ofList flags)) entry

/-- The places of the files that entries have rules for. -/
def Placed (written : List Text → Prop) (F : FileFault → Prop) (directory : Text) (rules : Rules)
    (entries : List Json) : Prop :=
  ∀ members path rule, .object members ∈ entries →
    ruleFor rules members = .ok (some (path, rule)) →
      written (Path.reached (Path.join directory rule.destination)) ∧
        FileTree.Taken F (Path.join directory rule.destination)

/-- The failures of a file of the payload that do not come of reading it. -/
structure Covers (G : Failure → Prop) (F : FileFault → Prop) : Prop where
  transform : ∀ cause, G (.transform cause)
  write : ∀ path fault, F fault →
    G (Failure.ofFileFault (fun cause => .copy (.unwritable path cause)) fault)

/-- An entry is refused for its kind, as a part of a document or for its source. -/
theorem entryReadable_of {G : Failure → Prop} (hkind : ∀ fault, G (.kind fault))
    (hdocument : ∀ fault, G (.document fault)) (hsource : ∀ fault, G (Failure.ofSourceFault fault))
    (rules : Rules) (entry : Json) : EntryReadable G rules entry := by
  have hdecode : ∀ source,
      Yields (fun _ => True) G ((DataUri.decode source).mapError Failure.ofSourceFault) :=
    fun _ => yields_mapError ((yields_trivial _).mono (fun _ h => h) fun fault _ => hsource fault)
  cases entry with
  | object members =>
    refine yields_mapError ((yields_trivial _).mono ?_ fun fault _ => hkind fault)
    intro found _ path rule _
    refine yields_bind (p := fun _ => True)
      (yields_mapError ((yields_trivial _).mono (fun _ h => h) fun fault _ => hkind fault)) ?_
    intro source _
    split
    next => exact hdocument _
    next => exact hdecode _
  | _ => exact hdocument _

/-- Reading a payload fails in some way or other. -/
theorem readable_any (contents : Bytes) (rules : Rules) :
    Readable (fun _ => True) contents rules where
  loads := yields_trivial _
  units _ _ := yields_trivial _
  unit _ _ _ _ := yields_trivial _
  files _ _ := yields_trivial _
  entries _ _ _ entry _ _ _ _ :=
    entryReadable_of (fun _ => trivial) (fun _ => trivial) (fun _ => trivial) _ entry

theorem covers_any (F : FileFault → Prop) : Covers (fun _ => True) F :=
  ⟨fun _ => trivial, fun _ _ _ => trivial⟩

section Steps

variable {D : OrderedMap Text Text → Prop} {made written : List Text → Prop}
  {R : NodeState → Prop} {F : FileFault → Prop} {G : Failure → Prop} {n : Node} {rules : Rules}
  {contents : Bytes}

theorem keeps_setFlag (h : Bears n D made written R F) {name value : Text}
    (hflag : (name, value) ∈ ownFlags n) :
    Keeps R (NodeStep.setFlag name (.text value)) (fun _ => True) G :=
  keeps_modify fun s => h.flag s name value hflag

/-- A transformation sets a flag at most; what it fails with is wrapped by the caller. -/
theorem keeps_applyTransform (h : Bears n D made written R F) (transform : Transform) :
    Keeps R (applyTransform n transform contents) (fun _ => True) fun _ => True := by
  cases transform with
  | kubeletConfig => exact (keeps_ofExcept (yields_trivial _)).any
  | cloudConfig =>
    refine keeps_then (keeps_ofExcept (yields_trivial _)) fun entries => ?_
    refine keeps_then (keeps_setFlag h (List.mem_cons_of_mem _ List.mem_cons_self)) fun _ => ?_
    refine keeps_then (keeps_nodeLog (G := fun _ => True) h.logs _ _) fun _ => ?_
    exact (keeps_ofExcept (yields_trivial _)).any

theorem keeps_materialize (h : Bears n D made written R F) (hG : Covers G F) {source : Json}
    (hsource : Yields (fun _ => True) G ((DataUri.decode source).mapError Failure.ofSourceFault))
    (transform : Option Transform) :
    Keeps R (materialize n source transform) (fun _ => True) G := by
  refine keeps_then (keeps_ofExcept hsource) fun contents => ?_
  cases transform with
  | none => exact keeps_pure _ trivial
  | some transform =>
    exact keeps_tryCatch (keeps_applyTransform h transform) fun cause _ =>
      keeps_throw _ (hG.transform cause)

theorem keeps_writeContents (h : Bears n D made written R F) (hG : Covers G F) {path : Text}
    (hplace : written (Path.reached path)) (hpath : FileTree.Taken F path) (contents : Bytes) :
    Keeps R (writeContents path contents) (fun _ => True) G :=
  keeps_operation (fun s => FileTree.keeps_write (h.files s) hpath hplace contents) (hG.write path)

theorem keeps_materializeEntry (h : Bears n D made written R F) (hG : Covers G F) {path : Text}
    {rule : Rule} {members : OrderedMap Text Json}
    (hsource : Yields (fun source =>
        Yields (fun _ => True) G ((DataUri.decode source).mapError Failure.ofSourceFault))
      G (sourceOf path members))
    (hplace : written (Path.reached (Path.join n.layout.installDirectory rule.destination)))
    (hpath : FileTree.Taken F (Path.join n.layout.installDirectory rule.destination)) :
    Keeps R (materializeEntry n path rule members) (fun _ => True) G := by
  refine keeps_bind keeps_get fun s _ => ?_
  split
  next => exact keeps_nodeLog h.logs _ _
  next =>
    refine keeps_bind (keeps_ofExcept hsource) fun source ⟨_, hdecode⟩ => ?_
    refine keeps_then (keeps_materialize h hG hdecode _) fun contents => ?_
    exact keeps_then (keeps_writeContents h hG hplace hpath contents) fun _ =>
      keeps_nodeLog h.logs _ _

theorem keeps_walkEntry (h : Bears n D made written R F) (hG : Covers G F) {entry : Json}
    (hentry : EntryReadable G rules entry)
    (hplaces : Placed written F n.layout.installDirectory rules [entry]) :
    Keeps R (walkEntry n rules entry) (fun _ => True) G := by
  cases entry with
  | object members =>
    refine keeps_bind (keeps_ofExcept hentry) fun found ⟨hrule, hsource⟩ => ?_
    have hrule := mapError_eq_ok.mp hrule
    cases found with
    | none => exact keeps_pure _ trivial
    | some found =>
      obtain ⟨path, rule⟩ := found
      obtain ⟨hplace, hpath⟩ := hplaces members path rule List.mem_cons_self hrule
      exact keeps_materializeEntry h hG (hsource path rule rfl) hplace hpath
  | _ => exact keeps_throw _ hentry

theorem yields_declaredFlags (hargument : ∀ fault, G (.argument fault)) (command : Text) :
    Yields (fun _ => True) G (declaredFlags command) := by
  refine yields_bind (p := fun _ => True) (yields_mapError ?_) fun flags _ => ?_
  · exact (yields_trivial _).mono (fun _ h => h) fun _ _ => hargument _
  · refine yields_bind (yields_forM fun flag => ?_) fun _ _ => trivial
    unfold checkFlag
    split
    next => exact hargument _
    next => exact trivial

/-- Taking the flags of the unit gives the rules that hold with them. -/
theorem keeps_readUnit (h : Bears n D made written R F)
    (hargument : ∀ fault, G (.argument fault)) {unit : Json}
    (hunit : Yields (fun _ => True) G ((unitContents unit).mapError .kind))
    (hdeclared : ∀ flags, flagsOfUnit unit = .ok flags → D (ofList flags)) :
    Keeps R (readUnit n unit rules)
      (fun found => ∃ flags, flagsOfUnit unit = .ok flags ∧
        found = extendRules rules (ofList flags)) G := by
  refine keeps_bind (keeps_ofExcept hunit) fun contents ⟨hcontents, _⟩ => ?_
  unfold flagsOfUnit at hdeclared ⊢
  rw [hcontents, ok_bind] at hdeclared ⊢
  cases hcommand : UnitFile.execStart? contents with
  | none =>
    exact keeps_then (keeps_nodeLog h.logs _ _) fun _ => keeps_pure _ ⟨[], rfl, rfl⟩
  | some command =>
    refine keeps_bind (keeps_ofExcept (yields_declaredFlags hargument command))
      fun declared ⟨hfound, _⟩ => ?_
    obtain ⟨flags, hflags, rfl⟩ := declaredFlags_eq_ok hfound
    rw [hcommand] at hdeclared
    refine keeps_then (keeps_modify fun s => h.declared s (ofList flags) (hdeclared flags hflags))
      fun _ => ?_
    have hend : Keeps R (pure (extendRules rules (ofList flags)) : NodeStep Rules)
        (fun found => ∃ flags, flagsIn command = .ok flags ∧
          found = extendRules rules (ofList flags)) G := keeps_pure _ ⟨flags, hflags, rfl⟩
    dsimp only
    split
    next => exact keeps_then (keeps_nodeLog h.logs _ _) fun _ => hend
    next => exact hend

theorem keeps_ensureVerbosity (h : Bears n D made written R F) :
    Keeps R (ensureVerbosity n) (fun _ => True) G := by
  refine keeps_bind keeps_get fun s _ => ?_
  dsimp only
  split
  next => exact keeps_setFlag h List.mem_cons_self
  next => exact keeps_pure _ trivial

/-- Going through the files keeps what writing them keeps. -/
theorem keeps_walkFiles (h : Bears n D made written R F) (hG : Covers G F) {document : Json}
    (hfiles : Yields (fun _ => True) G (files document))
    (hentries : ∀ entries entry, files document = .ok entries → entry ∈ entries →
      EntryReadable G rules entry)
    (hplaces : ∀ entries, files document = .ok entries →
      Placed written F n.layout.installDirectory rules entries) :
    Keeps R (walkFiles n document rules) (fun _ => True) G := by
  refine keeps_then (keeps_ensureVerbosity h) fun _ => ?_
  refine keeps_bind (keeps_ofExcept hfiles) fun entries ⟨hlisted, _⟩ => ?_
  refine keeps_then (keeps_forIn fun entry hentry => ?_) fun _ => keeps_pure _ trivial
  refine keeps_then (keeps_walkEntry h hG (hentries entries entry hlisted hentry) ?_)
    fun _ => keeps_pure _ trivial
  intro members path rule hmem hrule
  obtain rfl := List.mem_singleton.mp hmem
  exact hplaces entries hlisted members path rule hentry hrule

/-- Whatever is read and written, a walk keeps what its parts keep. -/
theorem keeps_walk (h : Bears n D made written R F) (hG : Covers G F)
    (hargument : ∀ fault, G (.argument fault)) (hread : Readable G contents rules)
    (hdeclared : ∀ document flags, load contents = .ok document →
      declaredIn document = .ok flags → D (ofList flags))
    (hplaces : ∀ document flags entries, load contents = .ok document →
      declaredIn document = .ok flags → files document = .ok entries →
        Placed written F n.layout.installDirectory (extendRules rules (ofList flags)) entries) :
    Keeps R (walk n contents rules) (fun _ => True) G := by
  rw [walk_eq]
  refine keeps_bind (keeps_ofExcept hread.loads) fun document ⟨hload, _⟩ => ?_
  have hrest : ∀ found, (∃ flags, declaredIn document = .ok flags ∧
      found = extendRules rules (ofList flags)) →
      Keeps R (walkFiles n document found) (fun _ => True) G := by
    rintro found ⟨flags, hflags, rfl⟩
    exact keeps_walkFiles h hG (hread.files document hload)
      (fun entries entry => hread.entries document flags entries entry hload hflags)
      fun entries => hplaces document flags entries hload hflags
  refine keeps_bind (keeps_ofExcept (hread.units document hload)) fun unit ⟨hunit, _⟩ => ?_
  cases unit with
  | none =>
    exact keeps_then (keeps_nodeLog h.logs _ _) fun _ =>
      hrest rules ⟨[], declaredIn_of_none hunit, rfl⟩
  | some unit =>
    refine keeps_bind (keeps_readUnit h hargument (hread.unit document unit hload hunit) ?_) ?_
    · intro flags hflags
      exact hdeclared document flags hload ((declaredIn_of_some hunit).trans hflags)
    rintro found ⟨flags, hflags, hfound⟩
    exact hrest found ⟨flags, (declaredIn_of_some hunit).trans hflags, hfound⟩

end Steps

end NodeBootstrap.Ignition
