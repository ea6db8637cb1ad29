import NodeBootstrap.Proofs.Ignition.Keeping
import NodeBootstrap.Proofs.Ignition.Materialized

/-!
# Payloads with values of unforeseen kinds

A payload is read without a schema. That its lists are lists and the entries of the files objects is
checked, and so is what a source looks like. Other values are taken for what they should be: the
areas of the document and the contents of an entry for objects, the contents of a unit for a text,
the path of an entry for something that can be looked up, the payload of a source for a text that
can be written. `Fits` says that they are. These are all the places that a walk can break off at
with a failure that nobody reports (`readable_iff`), so a walk through a payload that fits comes to
its end or to a failure that is reported (`walk_reported`).
-/

set_option autoImplicit false

namespace NodeBootstrap

/-- A failure that an operation reports of its own accord. -/
def Failure.Reported (failure : Failure) : Prop := failure.isReported = true

instance : DecidablePred Failure.Reported := fun failure =>
  inferInstanceAs (Decidable (failure.isReported = true))

/-- What a host that works refuses. -/
def FileFault.Ordinary : FileFault → Prop
  | .refused .. | .sameFile .. => True
  | .nul | .unencodable _ => False

/-- An ordinary fault is a failure of the area at hand. -/
theorem FileFault.Ordinary.reported {fault : FileFault} {area : FileFault → Failure}
    (h : fault.Ordinary) (harea : ∀ fault, (area fault).Reported) :
    (Failure.ofFileFault area fault).Reported := by
  cases fault with
  | refused => exact harea _
  | sameFile => exact harea _
  | nul => exact h.elim
  | unencodable => exact h.elim

namespace FileTree

/-- Operations are only broken off with ordinary faults. -/
def Calm (t : FileTree) : Prop := ∀ trouble, some trouble ∈ t.troubles → trouble.fault.Ordinary

theorem tolerates_calm :
    Tolerates (fun _ => True) (fun _ => True) Calm FileFault.Ordinary where
  passes _ ht trouble htrouble := ht trouble (List.mem_of_mem_tail htrouble)
  makes _ _ _ ht _ _ _ := ht
  writes _ _ _ _ ht _ _ := ht
  troubles _ trouble ht hhead := ht trouble (List.mem_of_head? hhead)
  refused _ _ := trivial
  sameFile _ _ := trivial

theorem taken_of_usable {path : Text} (h : usable path = .ok ()) :
    Taken FileFault.Ordinary path := by
  rw [Taken, h]
  exact trivial

end FileTree

namespace Ignition

open OrderedMap FileTree

/-! ## The kinds that are foreseen -/

/-- Whether a value can be asked for a member: an object can, and so can what counts as left out. -/
def isAskable : Json → Bool
  | .object _ => true
  | v => v.isEmptyOrZero

/-- Whether a value can be taken for the contents of a unit: a text can, and so can what counts as
left out. -/
def isLegible : Json → Bool
  | .string _ => true
  | v => v.isEmptyOrZero

/-- Whether a value can be looked up among paths. -/
def isSearchable : Json → Bool
  | .array _ | .object _ => false
  | _ => true

/-- Whether a source can be written as bytes, if it is a data URI that is written well. -/
def isEncodable (source : Json) : Bool :=
  match DataUri.payload? source with
  | none => true
  | some payload =>
    (DataUri.invalidEscapeFrom? 0 payload).isSome || (Utf8.encode payload).isOk

/-- The members of an object. -/
def membersOf? : Json → Option (OrderedMap Text Json)
  | .object members => some members
  | _ => none

/-- The contents of an entry, `null` if there are none. -/
def contentsOf (members : OrderedMap Text Json) : Json :=
  (members.get? (text "contents")).getD .null

/-- The value that an entry has for its path, `null` if there is none. -/
def pathValue (members : OrderedMap Text Json) : Json := (members.get? (text "path")).getD .null

/-- An entry whose values are of the kinds that are foreseen. Without a rule only its path is looked
at. -/
structure EntryFits (rules : Rules) (members : OrderedMap Text Json) : Prop where
  path : isSearchable (pathValue members)
  contents : ∀ path, pathOf? (.object members) = some path → rules.hasKey path = true →
    isAskable (contentsOf members)
  source : ∀ path, pathOf? (.object members) = some path → rules.hasKey path = true →
    ∀ source, memberOrNull (text "source") (contentsOf members) = .ok source → isEncodable source

instance (rules : Rules) : DecidablePred (EntryFits rules) := fun members =>
  decidable_of_iff (isSearchable (pathValue members) = true ∧
      (∀ path, pathOf? (.object members) = some path → rules.hasKey path = true →
        isAskable (contentsOf members) = true) ∧
      ∀ path, pathOf? (.object members) = some path → rules.hasKey path = true →
        ∀ source, memberOrNull (text "source") (contentsOf members) = .ok source →
          isEncodable source = true)
    ⟨fun ⟨h₁, h₂, h₃⟩ => ⟨h₁, h₂, h₃⟩, fun ⟨h₁, h₂, h₃⟩ => ⟨h₁, h₂, h₃⟩⟩

/-- A document whose values are of the kinds that are foreseen. -/
structure Fits (rules : Rules) (document : Json) : Prop where
  systemd : isAskable ((document.member? (text "systemd")).getD .null)
  storage : isAskable ((document.member? (text "storage")).getD .null)
  unit : ∀ unit, unit? document kubeletUnitName = .ok unit →
    ∀ found, unit = some found → isLegible ((found.member? (text "contents")).getD .null)
  entries : ∀ flags, declaredIn document = .ok flags →
    ∀ entries, files document = .ok entries →
      ∀ entry ∈ entries, ∀ members, membersOf? entry = some members →
        EntryFits (extendRules rules (ofList flags)) members

instance (rules : Rules) : DecidablePred (Fits rules) := fun document =>
  decidable_of_iff (isAskable ((document.member? (text "systemd")).getD .null) = true ∧
      isAskable ((document.member? (text "storage")).getD .null) = true ∧
      (∀ unit, unit? document kubeletUnitName = .ok unit →
        ∀ found, unit = some found →
          isLegible ((found.member? (text "contents")).getD .null) = true) ∧
      ∀ flags, declaredIn document = .ok flags → ∀ entries, files document = .ok entries →
        ∀ entry ∈ entries, ∀ members, membersOf? entry = some members →
          EntryFits (extendRules rules (ofList flags)) members)
    ⟨fun ⟨h₁, h₂, h₃, h₄⟩ => ⟨h₁, h₂, h₃, h₄⟩, fun ⟨h₁, h₂, h₃, h₄⟩ => ⟨h₁, h₂, h₃, h₄⟩⟩

variable {rules : Rules} {document : Json} {contents : Bytes} {path : Text}
  {members : OrderedMap Text Json}

/-! ## Reading fits -/

section Reading

variable {α : Type} {p : α → Prop}

/-- Reading of a kind that was not foreseen is not reported. -/
theorem not_yields_kind (fault : KindFault) :
    ¬ Yields p Failure.Reported (.error (.kind fault)) := Bool.false_ne_true

/-- A value that is neither left out nor of a kind that was foreseen is not reported. -/
theorem yields_leftOut (v : Json) (a : α) (fault : KindFault) :
    Yields (fun _ => True) Failure.Reported
      ((if v.isEmptyOrZero then .ok a else .error fault : Except KindFault α).mapError .kind) ↔
        v.isEmptyOrZero = true := by
  split
  next h => exact iff_of_true trivial h
  next h => exact iff_of_false (not_yields_kind fault) h

theorem yields_memberOrNull (key : Text) (v : Json) :
    Yields (fun _ => True) Failure.Reported ((memberOrNull key v).mapError .kind) ↔
      isAskable v := by
  have hother := yields_leftOut v Json.null .noSuchPart
  cases v with
  | object members => exact iff_of_true trivial rfl
  | null | nan | bool | number | infinite | string | array => exact hother

theorem yields_listOf (area key : Text) :
    Yields (fun _ => True) Failure.Reported (listOf document area key) ↔
      isAskable ((document.member? area).getD .null) := by
  have harea : Yields (fun _ => True) Failure.Reported
      (((document.member? area).elim (.ok .null) (memberOrNull key)).mapError .kind) ↔
        isAskable ((document.member? area).getD .null) := by
    cases document.member? area with
    | none => exact iff_of_true trivial rfl
    | some v => exact yields_memberOrNull key v
  rw [← harea]
  unfold listOf
  cases (document.member? area).elim (.ok .null) (memberOrNull key) with
  | error fault => exact Iff.rfl
  | ok items =>
    refine iff_of_true ?_ trivial
    have hother : Yields (fun _ => True) Failure.Reported
        (if items.isEmptyOrZero = true then .ok []
        else .error (.document (.notAList area key)) : Except Failure (List Json)) := by
      split
      next => exact trivial
      next => exact rfl
    cases items with
    | array items => exact trivial
    | _ => exact hother

theorem yields_unitContents (unit : Json) :
    Yields (fun _ => True) Failure.Reported ((unitContents unit).mapError .kind) ↔
      isLegible ((unit.member? (text "contents")).getD .null) := by
  unfold unitContents
  cases (unit.member? (text "contents")).getD .null with
  | string contents => exact iff_of_true trivial rfl
  | _ => exact yields_leftOut _ ([] : Text) .noSuchPart

/-- Of what is wrong with a source, only halves of surrogate pairs are not reported. -/
theorem yields_decode (source : Json) :
    Yields (fun _ => True) Failure.Reported
      ((DataUri.decode source).mapError Failure.ofSourceFault) ↔ isEncodable source := by
  unfold DataUri.decode isEncodable
  cases DataUri.payload? source with
  | none => exact iff_of_true rfl rfl
  | some payload =>
    dsimp only
    cases DataUri.invalidEscapeFrom? 0 payload with
    | some found => exact iff_of_true rfl rfl
    | none =>
      cases Utf8.encode payload with
      | error fault => exact iff_of_false Bool.false_ne_true Bool.false_ne_true
      | ok bytes => exact iff_of_true trivial rfl

end Reading

/-- The source of an entry that can be asked for it is read, or that it has none is reported. -/
theorem yields_sourceOf {p : Json → Prop} :
    Yields p Failure.Reported (sourceOf path members) ↔ isAskable (contentsOf members) ∧
      ∀ source, memberOrNull (text "source") (contentsOf members) = .ok source →
        source ≠ .null → p source := by
  rw [← yields_memberOrNull (text "source") (contentsOf members)]
  unfold sourceOf contentsOf
  cases memberOrNull (text "source") ((members.get? (text "contents")).getD .null) with
  | error fault => exact iff_of_false (not_yields_kind _) fun h => not_yields_kind _ h.1
  | ok source =>
    have hvalue : (∀ found, (.ok source : Except KindFault Json) = .ok found → found ≠ .null →
        p found) ↔ (source ≠ .null → p source) :=
      ⟨fun h => h source rfl, fun h found heq => Except.ok.inj heq ▸ h⟩
    rw [hvalue]
    cases source with
    | null => exact iff_of_true rfl ⟨trivial, fun h => absurd rfl h⟩
    | _ => exact ⟨fun h => ⟨trivial, fun _ => h⟩, fun h => h.2 nofun⟩

theorem searchable_of_pathOf? (h : pathOf? (.object members) = some path) :
    isSearchable (pathValue members) := by
  have hmember : (Json.object members).member? (text "path") = members.get? (text "path") := rfl
  unfold pathOf? at h
  unfold pathValue
  rw [hmember] at h
  split at h
  next found hfound =>
    rw [hfound]
    rfl
  next => exact nomatch h

/-- Of an entry whose path is no text there is no rule, unless its path cannot be looked up. -/
theorem yields_ruleFor {p : Option (Text × Rule) → Prop} (hnone : p none)
    (h : pathOf? (.object members) = none) :
    Yields p Failure.Reported ((ruleFor rules members).mapError .kind) ↔
      isSearchable (pathValue members) := by
  have hmember : (Json.object members).member? (text "path") = members.get? (text "path") := rfl
  unfold pathOf? at h
  unfold ruleFor pathValue
  rw [hmember] at h
  cases hfound : members.get? (text "path") with
  | none => exact iff_of_true hnone rfl
  | some value =>
    cases value with
    | string path =>
      rw [hfound] at h
      exact nomatch h
    | array | object => exact iff_of_false (not_yields_kind _) Bool.false_ne_true
    | null | nan | bool | number | infinite => exact iff_of_true hnone rfl

theorem entryReadable_iff :
    EntryReadable Failure.Reported rules (.object members) ↔ EntryFits rules members := by
  show Yields _ _ ((ruleFor rules members).mapError Failure.kind) ↔ _
  cases hpath : pathOf? (.object members) with
  | none =>
    rw [yields_ruleFor nofun hpath]
    have hno : ∀ path, pathOf? (.object members) ≠ some path := by simp [hpath]
    exact ⟨fun h => ⟨h, fun path heq => absurd heq (hno path), fun path heq =>
      absurd heq (hno path)⟩, fun h => h.path⟩
  | some path =>
    have hsearch := searchable_of_pathOf? hpath
    rw [ruleFor_eq members hpath]
    cases hrule : rules.get? path with
    | none =>
      have hkey : ∀ path', pathOf? (.object members) = some path' →
          ¬ rules.hasKey path' = true := by
        intro path' heq
        cases hpath.symm.trans heq
        rw [hasKey, hrule]
        exact Bool.false_ne_true
      refine iff_of_true ?_ ⟨hsearch, fun path' heq hhas => absurd hhas (hkey path' heq),
        fun path' heq hhas => absurd hhas (hkey path' heq)⟩
      intro _ _ heq
      exact absurd heq (Option.some_ne_none _).symm
    | some rule =>
      have hkey : rules.hasKey path = true := by
        rw [hasKey, hrule]
        rfl
      constructor
      · intro h
        obtain ⟨hask, hsource⟩ := yields_sourceOf.mp (h path rule rfl)
        refine ⟨hsearch, fun _ _ _ => hask, fun _ _ _ source hfound => ?_⟩
        by_cases hnull : source = .null
        · rw [hnull]
          rfl
        · exact (yields_decode _).mp (hsource _ hfound hnull)
      · rintro ⟨-, hask, hsource⟩ _ _ heq
        cases heq
        refine yields_sourceOf.mpr ⟨hask path hpath hkey, fun source hfound _ => ?_⟩
        exact (yields_decode source).mpr (hsource path hpath hkey source hfound)

theorem eq_of_membersOf? {entry : Json} (h : membersOf? entry = some members) :
    entry = .object members := by
  cases entry with
  | object found => exact congrArg Json.object (Option.some.inj h)
  | _ => exact nomatch h

theorem yields_load (contents : Bytes) :
    Yields (fun _ => True) Failure.Reported (load contents) := by
  unfold load
  cases Json.ofBytes contents with
  | error cause => exact rfl
  | ok document =>
    cases document with
    | object members => exact trivial
    | null | nan | bool | number | infinite | string | array => exact rfl

/-- Where the values of a payload are of the kinds that are foreseen, all that goes wrong in reading
it is reported, and only there. -/
theorem readable_iff :
    Readable Failure.Reported contents rules ↔
      ∀ document, load contents = .ok document → Fits rules document := by
  constructor
  · intro h document hload
    refine ⟨(yields_listOf _ _).mp (h.units document hload).of_bind,
      (yields_listOf _ _).mp (h.files document hload), ?_, ?_⟩
    · rintro _ hunit unit rfl
      exact (yields_unitContents unit).mp (h.unit document unit hload hunit)
    · intro flags hflags entries hentries entry hmem members hmembers
      obtain rfl := eq_of_membersOf? hmembers
      exact entryReadable_iff.mp (h.entries document flags entries _ hload hflags hentries hmem)
  · intro h
    refine ⟨yields_load contents, fun document hload => ?_, fun document unit hload hunit => ?_,
      fun document hload => (yields_listOf _ _).mpr (h document hload).storage, ?_⟩
    · exact yields_bind ((yields_listOf _ _).mpr (h document hload).systemd) fun _ _ => trivial
    · exact (yields_unitContents unit).mpr ((h document hload).unit _ hunit unit rfl)
    · intro document flags entries entry hload hflags hentries hmem
      cases entry with
      | object members =>
        exact entryReadable_iff.mpr ((h document hload).entries flags hflags entries hentries _
          hmem members rfl)
      | null | nan | bool | number | infinite | string | array => exact rfl

/-! ## Walking through a payload that fits -/

/-- The names of the files that a payload can come to. -/
def payloadNames : List Text :=
  CloudConfig.fileName :: defaultRules.map fun e => e.2.destination

theorem destination_mem {flags : List (Text × Text)} {rule : Rule}
    (h : ruleAt flags path = some rule) : rule.destination ∈ payloadNames := by
  rcases ruleAt_cases h with hmem | ⟨-, -, rfl⟩
  · exact List.mem_cons_of_mem _ (List.mem_map_of_mem hmem)
  · exact List.mem_cons_self

theorem usable_destination {name : Text} (h : name ∈ payloadNames) : usable name = .ok () := by
  have hnames : ∀ name ∈ payloadNames, ∀ c ∈ name, c.isSpellable = true := by decide
  exact usable_eq_ok.mpr (hnames name h)

theorem covers_ordinary : Covers Failure.Reported FileFault.Ordinary :=
  ⟨fun _ => rfl, fun _ _ h => h.reported fun _ => rfl⟩

variable {n : Node} {D : OrderedMap Text Text → Prop} {made written : List Text → Prop}
  {R : NodeState → Prop}

theorem keeps_walk_reported (h : Bears n D made written R FileFault.Ordinary)
    (hdeclared : ∀ document flags, load contents = .ok document →
      declaredIn document = .ok flags → D (ofList flags))
    (husable : usable n.layout.installDirectory = .ok ())
    (hwritten : ∀ name ∈ payloadNames, written (Path.reached (n.layout.file name)))
    (hfits : ∀ document, load contents = .ok document → Fits defaultRules document) :
    Keeps R (walk n contents defaultRules) (fun _ => True) Failure.Reported := by
  refine keeps_walk h covers_ordinary (fun _ => rfl) (readable_iff.mpr hfits) hdeclared ?_
  intro document flags entries _ _ _ members path rule _ hrule
  obtain ⟨-, hrule⟩ := ruleFor_eq_some hrule
  rw [get?_extendRules] at hrule
  have hname := destination_mem hrule
  exact ⟨hwritten _ hname, taken_of_usable (usable_join husable (usable_destination hname))⟩

theorem bears_calm :
    Bears n (fun _ => True) (fun _ => True) (fun _ => True) (fun s => s.host.files.Calm)
      FileFault.Ordinary where
  files _ := tolerates_calm
  logs _ level message h := logged_tolerated tolerates_calm (fun _ _ => trivial) h level message
  flag _ _ _ _ h := h
  declared _ _ _ h := h

/-- A walk through a payload that fits comes to its end or to a failure that is reported. -/
theorem walk_reported {s : NodeState} (husable : usable n.layout.installDirectory = .ok ())
    (hcalm : s.host.files.Calm)
    (hfits : ∀ document, load contents = .ok document → Fits defaultRules document) :
    Yields (fun _ => True) Failure.Reported ((walk n contents defaultRules).run.run s).1 :=
  (keeps_walk_reported bears_calm (fun _ _ _ _ => trivial) husable (fun _ _ => trivial) hfits s
    hcalm).2

end Ignition

end NodeBootstrap
