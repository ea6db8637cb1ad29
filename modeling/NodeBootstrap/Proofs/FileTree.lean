import NodeBootstrap.Proofs.OrderedMap
import NodeBootstrap.Proofs.Outcome
import NodeBootstrap.Proofs.Path
import NodeBootstrap.Proofs.Step
import NodeBootstrap.Proofs.Text.Utf8

/-!
# Paths and operations on the file tree

What a path names depends on nothing but what is at the places of the tree. A path that can be
followed leads to the place that its names say (`FileTree.eq_reached`), in this tree and in every
other that keeps its directories (`FileTree.placeOf_mono`).

Each operation that writes does one of three things: it changes nothing, it puts what it is to put,
or, if it is broken off, it leaves something else in the file that it was writing.
-/

set_option autoImplicit false

/-- Whether a node is a directory. -/
def NodeBootstrap.FileNode.isDirectory : FileNode → Bool
  | .directory => true
  | .file _ => false

namespace NodeBootstrap.FileTree

variable {t t' : FileTree} {here place : List Text} {path directory name : Text}

/-! ## Following paths -/

theorem follow_append (t : FileTree) (here : List Text) (front behind : List Text) :
    t.follow here (front ++ behind) = (t.follow here front).bind (t.follow · behind) := by
  induction front generalizing here with
  | nil => rfl
  | cons name front ih =>
    rw [List.cons_append, follow, follow]
    cases t.at? here with
    | none => rfl
    | some node =>
      cases node with
      | file contents => rfl
      | directory =>
        dsimp only
        split
        · exact ih here
        split
        · exact ih here.dropLast
        · exact ih (here ++ [name])

/-- One name is followed from a directory. -/
theorem follow_cons (t : FileTree) (here : List Text) (name : Text) (names : List Text)
    (h : t.at? here = some .directory) :
    t.follow here (name :: names) = t.follow (Path.advance here name) names := by
  rw [follow, h, Path.advance]
  dsimp only
  split
  · rfl
  split
  · rfl
  · rfl

theorem directory_of_follow_cons {names : List Text}
    (h : t.follow here (name :: names) = .ok place) : t.at? here = some .directory := by
  rw [follow] at h
  cases hat : t.at? here with
  | none => rw [hat] at h; exact nomatch h
  | some node =>
    rw [hat] at h
    cases node with
    | file contents => exact nomatch h
    | directory => rfl

/-- Names that can be followed lead where they say. -/
theorem eq_of_follow {names : List Text} (h : t.follow here names = .ok place) :
    place = names.foldl Path.advance here := by
  induction names generalizing here with
  | nil => exact (Except.ok.inj h).symm
  | cons name names ih =>
    rw [follow_cons t here name names (directory_of_follow_cons h)] at h
    exact ih h

/-- Names that can be followed can be followed wherever the directories are kept. -/
theorem follow_mono {names : List Text}
    (hkeep : ∀ q, t.at? q = some .directory → t'.at? q = some .directory)
    (h : t.follow here names = .ok place) : t'.follow here names = .ok place := by
  induction names generalizing here with
  | nil => exact h
  | cons name names ih =>
    have hdirectory := directory_of_follow_cons h
    rw [follow_cons t here name names hdirectory] at h
    rw [follow_cons t' here name names (hkeep here hdirectory)]
    exact ih h

/-- Trees that hold directories and files at the same places. -/
def SameKinds (t t' : FileTree) : Prop :=
  ∀ q, (t.at? q).map FileNode.isDirectory = (t'.at? q).map FileNode.isDirectory

theorem SameKinds.of_at? (heq : ∀ q, t.at? q = t'.at? q) : t.SameKinds t' :=
  fun q => congrArg (Option.map FileNode.isDirectory) (heq q)

/-- What such trees hold at a place. -/
theorem SameKinds.cases (h : t.SameKinds t') (q : List Text) :
    (t.at? q = none ∧ t'.at? q = none) ∨
      (t.at? q = some .directory ∧ t'.at? q = some .directory) ∨
      ∃ contents contents', t.at? q = some (.file contents) ∧
        t'.at? q = some (.file contents') := by
  have hq := h q
  generalize t.at? q = one at hq ⊢
  generalize t'.at? q = other at hq ⊢
  cases one with
  | none =>
    cases other with
    | none => exact .inl ⟨rfl, rfl⟩
    | some _ => cases hq
  | some node =>
    cases other with
    | none => cases hq
    | some node' =>
      cases node with
      | directory =>
        cases node' with
        | directory => exact .inr (.inl ⟨rfl, rfl⟩)
        | file _ => cases hq
      | file contents =>
        cases node' with
        | directory => cases hq
        | file contents' => exact .inr (.inr ⟨contents, contents', rfl, rfl⟩)

/-- What a path leads to depends on the kinds of things in the tree alone. -/
theorem follow_congr (hkinds : t.SameKinds t') (here names : List Text) :
    t.follow here names = t'.follow here names := by
  induction names generalizing here with
  | nil => rfl
  | cons name names ih =>
    rw [follow, follow, ih here, ih here.dropLast, ih (here ++ [name])]
    rcases hkinds.cases here with ⟨h, h'⟩ | ⟨h, h'⟩ | ⟨contents, contents', h, h'⟩ <;> rw [h, h']

theorem placeOf_of_relative (h : Path.Relative path) :
    t.placeOf path = t.follow [] (Path.names path) := by
  have hnot : ¬ (path.isEmpty || Path.isAbsolute path) = true := by
    rw [h.head, Bool.or_false, List.isEmpty_iff]
    exact h.nonempty
  rw [placeOf, if_neg hnot]

theorem relative_of_placeOf (h : t.placeOf path = .ok place) : Path.Relative path := by
  rw [placeOf] at h
  split at h
  next => exact nomatch h
  next hnot =>
    rw [Bool.or_eq_true, not_or] at hnot
    exact ⟨fun hnil => hnot.1 (List.isEmpty_iff.mpr hnil), Bool.eq_false_iff.mpr hnot.2⟩

/-- The place of a path is the one that its names lead to. -/
theorem eq_reached (h : t.placeOf path = .ok place) : place = Path.reached path := by
  rw [placeOf_of_relative (relative_of_placeOf h)] at h
  exact eq_of_follow h

theorem placeOf_mono (hkeep : ∀ q, t.at? q = some .directory → t'.at? q = some .directory)
    (h : t.placeOf path = .ok place) : t'.placeOf path = .ok place := by
  have hpath := relative_of_placeOf h
  rw [placeOf_of_relative hpath] at h ⊢
  exact follow_mono hkeep h

theorem placeOf_congr (hkinds : t.SameKinds t') (path : Text) :
    t.placeOf path = t'.placeOf path := by
  rw [placeOf, placeOf, follow_congr hkinds]

/-- A joined name is looked for in the directory. -/
theorem placeOf_join (hname : Path.IsName name) (hdirectory : t.placeOf directory = .ok here)
    (h : t.at? here = some .directory) :
    t.placeOf (Path.join directory name) = .ok (here ++ [name]) := by
  have hrelative := relative_of_placeOf hdirectory
  rw [placeOf_of_relative hrelative] at hdirectory
  rw [placeOf_of_relative (hrelative.join hname), Path.names_join directory hname, follow_append,
    hdirectory]
  show t.follow here [name] = _
  rw [follow_cons t here name [] h, Path.advance_isName here hname]
  rfl

/-- Where a joined name is found, the directory is one. -/
theorem directory_of_placeOf_join (hname : Path.IsName name)
    (hdirectory : Path.Relative directory)
    (h : t.placeOf (Path.join directory name) = .ok place) :
    t.placeOf directory = .ok (Path.reached directory) ∧
      t.at? (Path.reached directory) = some .directory := by
  rw [placeOf_of_relative (hdirectory.join hname), Path.names_join directory hname,
    follow_append] at h
  cases hfront : t.follow [] (Path.names directory) with
  | error refusal => rw [hfront] at h; exact nomatch h
  | ok front =>
    rw [hfront] at h
    have hplace : t.placeOf directory = .ok front := (placeOf_of_relative hdirectory).trans hfront
    rw [← eq_reached hplace]
    exact ⟨hplace, directory_of_follow_cons h⟩

/-! ## What paths name -/

theorem status_eq_ok {node : FileNode} :
    t.status path = .ok node ↔ usable path = .ok () ∧ t.nodeOf path = .ok node := by
  rw [status, bind_eq_ok]
  constructor
  · rintro ⟨⟨⟩, husable, hnode⟩
    exact ⟨husable, mapError_eq_ok.mp hnode⟩
  · rintro ⟨husable, hnode⟩
    exact ⟨(), husable, mapError_eq_ok.mpr hnode⟩

theorem nodeOf_eq_ok {node : FileNode} :
    t.nodeOf path = .ok node ↔ ∃ place, t.placeOf path = .ok place ∧ t.at? place = some node ∧
      (node ≠ .directory → Path.endsInSlash path = false) := by
  rw [nodeOf, bind_eq_ok]
  refine exists_congr fun place => and_congr_right fun _ => ?_
  cases t.at? place with
  | none => exact ⟨nofun, nofun⟩
  | some found =>
    cases found with
    | directory =>
      refine ⟨fun h => ?_, fun ⟨h, _⟩ => congrArg Except.ok (Option.some.inj h)⟩
      cases h
      exact ⟨rfl, fun hne => absurd rfl hne⟩
    | file contents =>
      dsimp only
      split
      next hslash =>
        refine ⟨nofun, fun ⟨h, hnot⟩ => ?_⟩
        cases h
        exact absurd (hslash.symm.trans (hnot nofun)) (by decide)
      next hslash =>
        refine ⟨fun h => ?_, fun ⟨h, _⟩ => congrArg Except.ok (Option.some.inj h)⟩
        cases h
        exact ⟨rfl, fun _ => Bool.eq_false_iff.mpr hslash⟩

/-- A file is found as long as it and the directories are there. -/
theorem status_mono {contents : Bytes}
    (hkeep : ∀ q, t.at? q = some .directory → t'.at? q = some .directory)
    (hfile : t.at? (Path.reached path) = some (.file contents) →
      t'.at? (Path.reached path) = some (.file contents))
    (h : t.status path = .ok (.file contents)) : t'.status path = .ok (.file contents) := by
  obtain ⟨husable, hnode⟩ := status_eq_ok.mp h
  obtain ⟨place, hplace, hat, hslash⟩ := nodeOf_eq_ok.mp hnode
  obtain rfl := eq_reached hplace
  exact status_eq_ok.mpr ⟨husable, nodeOf_eq_ok.mpr
    ⟨_, placeOf_mono hkeep hplace, hfile hat, hslash⟩⟩

theorem status_directory :
    t.status path = .ok .directory ↔ usable path = .ok () ∧
      ∃ place, t.placeOf path = .ok place ∧ t.at? place = some .directory := by
  rw [status_eq_ok, nodeOf_eq_ok]
  refine and_congr_right fun _ => exists_congr ?_
  intro place
  exact and_congr_right fun _ => and_iff_left fun hne => absurd rfl hne

/-- A directory is found as long as those that were there are. -/
theorem status_directory_mono
    (hkeep : ∀ q, t.at? q = some .directory → t'.at? q = some .directory)
    (h : t.status path = .ok .directory) : t'.status path = .ok .directory := by
  obtain ⟨husable, place, hplace, hat⟩ := status_directory.mp h
  exact status_directory.mpr ⟨husable, place, placeOf_mono hkeep hplace, hkeep place hat⟩

theorem isDirectory_iff : t.isDirectory path = true ↔ t.status path = .ok .directory := by
  rw [isDirectory]
  split
  next h => exact ⟨fun _ => h, fun _ => rfl⟩
  next hnot => exact ⟨nofun, fun h => absurd h hnot⟩

theorem isFile_iff : t.isFile path = true ↔ ∃ contents, t.status path = .ok (.file contents) := by
  rw [isFile]
  split
  next contents h => exact ⟨fun _ => ⟨contents, h⟩, fun _ => rfl⟩
  next hnot => exact ⟨nofun, fun ⟨contents, h⟩ => absurd h (hnot contents)⟩

theorem status_congr (heq : ∀ q, t.at? q = t'.at? q) (path : Text) :
    t.status path = t'.status path := by
  rw [status, status, nodeOf, nodeOf, placeOf_congr (.of_at? heq)]
  simp only [heq]

theorem steady_status (path : Text) (answer : Except FileFault FileNode) :
    Steady fun t => t.status path = answer := by
  intro t troubles ht
  have hsame : ({ t with troubles := troubles } : FileTree).status path = t.status path :=
    @status_congr { t with troubles := troubles } t (fun _ => rfl) path
  exact hsame.trans ht

theorem read_congr (heq : ∀ q, t.at? q = t'.at? q) (path : Text) : t.read path = t'.read path := by
  rw [read, read, status_congr heq]

theorem read_eq_ok {contents : Bytes} :
    t.read path = .ok contents ↔ t.status path = .ok (.file contents) := by
  rw [read, bind_eq_ok]
  constructor
  · rintro ⟨node, hstatus, h⟩
    cases node with
    | directory => exact nomatch h
    | file found => exact Except.ok.inj h ▸ hstatus
  · intro hstatus
    exact ⟨_, hstatus, rfl⟩

/-- A path is taken by a host exactly if it holds neither a NUL nor half of a surrogate pair that
stands for no byte. -/
theorem usable_eq_ok : usable path = .ok () ↔ ∀ c ∈ path, c.isSpellable = true := by
  simp only [CodePoint.isSpellable, Bool.and_eq_true, decide_eq_true_eq, imp_and, forall_and]
  rw [← Utf8.unspellableFrom?_eq_none, usable]
  cases Utf8.unspellableFrom? 0 path with
  | some fault => exact iff_of_false nofun fun h => nomatch h.2
  | none =>
    dsimp only
    split
    next hnul => exact iff_of_false nofun fun h => h.1 _ hnul rfl
    next hnul => exact iff_of_true rfl ⟨fun c hc hnul' => hnul (hnul' ▸ hc), rfl⟩

/-- A path that can be taken can be taken up to any place in it. -/
theorem usable_front {front : Text} (h : usable path = .ok ()) (hfront : front <+: path) :
    usable front = .ok () :=
  usable_eq_ok.mpr fun c hc => usable_eq_ok.mp h c (hfront.subset hc)

theorem usable_join (hdirectory : usable directory = .ok ()) (hname : usable name = .ok ()) :
    usable (Path.join directory name) = .ok () := by
  refine usable_eq_ok.mpr fun c hc => ?_
  rcases Path.mem_join hc with hc | rfl | hc
  · exact usable_eq_ok.mp hdirectory c hc
  · decide
  · exact usable_eq_ok.mp hname c hc

theorem usable_normal (h : usable path = .ok ()) : usable (Path.normal path) = .ok () := by
  refine usable_eq_ok.mpr fun c hc => ?_
  rcases Path.mem_normal hc with rfl | hc
  · decide
  · exact usable_eq_ok.mp h c hc

/-- Slashes at the end of the path of a directory may be left out. -/
theorem status_dropSlashes (h : t.status path = .ok .directory) :
    t.status (Text.dropRightWhile (· = Path.slash) path) = .ok .directory := by
  obtain ⟨husable, place, hplace, hat⟩ := status_directory.mp h
  have hrelative := relative_of_placeOf hplace
  rw [placeOf_of_relative hrelative, ← Path.names_dropSlashes path] at hplace
  have husable := usable_front husable (Text.dropRightWhile_front (· = Path.slash) path)
  refine status_directory.mpr ⟨husable, place, ?_, hat⟩
  exact (placeOf_of_relative hrelative.dropSlashes).trans hplace

theorem parentAndName_join (hdirectory : Path.Relative directory) (hname : Path.IsName name) :
    parentAndName (Path.join directory name) =
      (Text.dropRightWhile (· = Path.slash) directory, name) := by
  rw [parentAndName, Path.split_join hdirectory hname]
  split
  next heq => exact absurd (Prod.ext_iff.mp heq).2 hname.nonempty
  next => rfl

/-! ## What a directory holds -/

theorem mem_childNames : name ∈ t.childNames place ↔ t.at? (place ++ [name]) ≠ none := by
  have hne : place ++ [name] ≠ [] := List.append_ne_nil_of_right_ne_nil _ (List.cons_ne_nil _ _)
  rw [at?, if_neg hne, ← OrderedMap.mem_keys_iff, childNames, List.mem_filterMap]
  constructor
  · rintro ⟨other, hother, h⟩
    split at h
    next hplace =>
      have hcut := List.take_append_drop place.length other
      have hlength : (other.drop place.length).length = 1 := by
        rw [List.length_drop]
        omega
      obtain ⟨last, hlast⟩ := List.length_eq_one_iff.mp hlength
      rw [hplace.2, hlast] at hcut
      rw [← hcut, List.getLast?_concat] at h
      rw [← Option.some.inj h, hcut]
      exact hother
    next => cases h
  · intro hmem
    refine ⟨place ++ [name], hmem, ?_⟩
    rw [if_pos, List.getLast?_concat]
    exact ⟨List.length_append, List.take_left⟩

/-- What the names in a directory are the names of. -/
theorem list_eq_ok {names : List Text} (h : t.list path = .ok names) :
    usable path = .ok () ∧ t.placeOf path = .ok (Path.reached path) ∧
      t.at? (Path.reached path) = some .directory ∧
        ∀ name, name ∈ names ↔ t.at? (Path.reached path ++ [name]) ≠ none := by
  rw [list] at h
  obtain ⟨⟨⟩, husable, h⟩ := bind_eq_ok.mp h
  obtain ⟨place, hplace, h⟩ := bind_eq_ok.mp h
  obtain ⟨node, hnode, h⟩ := bind_eq_ok.mp h
  have hplace := mapError_eq_ok.mp hplace
  obtain ⟨place', hplace', hat, -⟩ := nodeOf_eq_ok.mp (mapError_eq_ok.mp hnode)
  obtain rfl : place = place' := Except.ok.inj (hplace.symm.trans hplace')
  obtain rfl := eq_reached hplace
  cases node with
  | file contents => exact nomatch h
  | directory =>
    refine ⟨husable, hplace, hat, fun name => ?_⟩
    rw [← Except.ok.inj h, Text.sort, List.mem_mergeSort, mem_childNames]

/-- A directory can be listed. -/
theorem list_of_status (h : t.status path = .ok .directory) : ∃ names, t.list path = .ok names := by
  obtain ⟨husable, hnode⟩ := status_eq_ok.mp h
  obtain ⟨place, hplace, -, -⟩ := nodeOf_eq_ok.mp hnode
  refine ⟨Text.sort (t.childNames place), ?_⟩
  rw [list, husable, ok_bind, hplace, refuse, mapError_ok, ok_bind, hnode, refuse, mapError_ok,
    ok_bind]

/-! ## Sound trees -/

/-- A tree as there are on hosts: places are made of names, and each is in a directory. -/
structure Sound (t : FileTree) : Prop where
  names : ∀ place, t.at? place ≠ none → ∀ name ∈ place, Path.IsName name
  parents : ∀ place, t.at? place ≠ none → t.at? place.dropLast = some .directory

instance (t : FileTree) : Decidable t.Sound :=
  decidable_of_iff (∀ place ∈ t.nodes.keys, (∀ name ∈ place, Path.IsName name) ∧
      t.at? place.dropLast = some .directory) <| by
    have hmem : ∀ place, t.at? place ≠ none ↔ place = [] ∨ place ∈ t.nodes.keys := by
      intro place
      rw [at?, OrderedMap.mem_keys_iff]
      split
      next hnil => exact ⟨fun _ => .inl hnil, fun _ => Option.some_ne_none _⟩
      next hne => exact ⟨.inr, fun h => h.resolve_left hne⟩
    constructor
    · intro h
      refine ⟨fun place hplace => ?_, fun place hplace => ?_⟩
      · rcases (hmem place).mp hplace with rfl | hkey
        · exact nofun
        · exact (h place hkey).1
      · rcases (hmem place).mp hplace with rfl | hkey
        · rfl
        · exact (h place hkey).2
    · intro h place hkey
      have hplace := (hmem place).mpr (.inr hkey)
      exact ⟨h.names place hplace, h.parents place hplace⟩

/-- What names lead to is reached by the last of them from a directory. -/
theorem exists_parent {names : List Text} (h : t.follow here (names ++ [name]) = .ok place) :
    ∃ parent, t.at? parent = some .directory ∧ Path.advance parent name = place := by
  rw [follow_append] at h
  cases hfront : t.follow here names with
  | error refusal =>
    rw [hfront] at h
    cases h
  | ok parent =>
    rw [hfront] at h
    have hparent := directory_of_follow_cons h
    exact ⟨parent, hparent,
      Except.ok.inj ((follow_cons t parent name [] hparent).symm.trans h)⟩

/-- What is no directory is not reached by dots. -/
theorem Sound.ne_dots {parent : List Text} (ht : t.Sound) (hparent : t.at? parent = some .directory)
    (hat : t.at? (Path.advance parent name) ≠ some .directory) :
    name ≠ text "." ∧ name ≠ text ".." := by
  constructor
  · rintro rfl
    rw [Path.advance, if_pos rfl] at hat
    exact hat hparent
  · rintro rfl
    rw [Path.advance, if_neg (by decide), if_pos rfl] at hat
    exact hat (ht.parents parent (hparent ▸ Option.some_ne_none _))

/-- The last name of a path that names a file is a name. -/
theorem Sound.isName_baseName {contents : Bytes} (ht : t.Sound)
    (h : t.status path = .ok (.file contents)) : Path.IsName (Path.baseName path) := by
  obtain ⟨-, hnode⟩ := status_eq_ok.mp h
  obtain ⟨place, hplace, hat, hslash⟩ := nodeOf_eq_ok.mp hnode
  have hrelative := relative_of_placeOf hplace
  have hfile : FileNode.file contents ≠ .directory := FileNode.noConfusion
  obtain ⟨hne, hnot, hnames⟩ := Path.names_baseName hrelative (hslash hfile)
  rw [placeOf_of_relative hrelative, hnames] at hplace
  obtain ⟨parent, hparent, rfl⟩ := exists_parent hplace
  obtain ⟨hdot, hdots⟩ := ht.ne_dots hparent fun hdirectory => by
    rw [hdirectory] at hat
    cases hat
  exact ⟨hne, hnot, hdot, hdots⟩

/-- A path to what is no directory leads into one. -/
theorem Sound.parent_of_placeOf (ht : t.Sound) (hplace : t.placeOf path = .ok place)
    (hat : t.at? place ≠ some .directory) : t.at? place.dropLast = some .directory := by
  rw [placeOf_of_relative (relative_of_placeOf hplace)] at hplace
  rcases List.eq_nil_or_concat (Path.names path) with hnil | ⟨front, last, hlast⟩
  · rw [hnil] at hplace
    obtain rfl := Except.ok.inj hplace
    exact absurd rfl hat
  · rw [hlast, List.concat_eq_append] at hplace
    obtain ⟨parent, hparent, rfl⟩ := exists_parent hplace
    obtain ⟨hdot, hdots⟩ := ht.ne_dots hparent hat
    rw [Path.advance, if_neg hdot, if_neg hdots, List.dropLast_concat]
    exact hparent

/-- What is put where a path leads, and no directory was, leaves a tree sound. -/
theorem Sound.put {node : FileNode} (ht : t.Sound) (hplace : t.placeOf path = .ok place)
    (hat : t.at? place ≠ some .directory) : (t.put place node).Sound := by
  have hkeep : ∀ other, t.at? other = some .directory →
      (t.put place node).at? other = some .directory := by
    intro other hother
    rw [at?_put_ne t node]
    · exact hother
    · rintro rfl
      exact hat hother
  refine ⟨fun other hother => ?_, fun other hother => ?_⟩
  · by_cases heq : place = other
    · rw [← heq, eq_reached hplace]
      exact fun name => Path.isName_of_mem_reached
    · rw [at?_put_ne t node heq] at hother
      exact ht.names other hother
  · by_cases heq : place = other
    · subst heq
      exact hkeep _ (ht.parent_of_placeOf hplace hat)
    · rw [at?_put_ne t node heq] at hother
      exact hkeep _ (ht.parents other hother)

theorem steady_sound : Steady Sound := fun _ _ ht => ⟨ht.names, ht.parents⟩

/-! ## Operations that write -/

theorem writable_eq_ok (h : t.writable path = .ok place) :
    t.placeOf path = .ok place ∧ t.at? place ≠ some .directory := by
  rw [writable] at h
  obtain ⟨-, -, h⟩ := bind_eq_ok.mp h
  obtain ⟨found, hfound, h⟩ := bind_eq_ok.mp h
  have hfound := mapError_eq_ok.mp hfound
  split at h
  next => exact nomatch h
  next contents hat =>
    split at h
    next => exact nomatch h
    next =>
      cases h
      exact ⟨hfound, fun hdirectory => nomatch hat.symm.trans hdirectory⟩
  next hat =>
    split at h
    next => exact nomatch h
    next =>
      cases h
      exact ⟨hfound, fun hdirectory => nomatch hat.symm.trans hdirectory⟩

theorem usable_of_writable (h : t.writable path = .ok place) :
    usable path = .ok () ∧ Path.endsInSlash path = false := by
  rw [writable] at h
  obtain ⟨⟨⟩, husable, h⟩ := bind_eq_ok.mp h
  obtain ⟨found, -, h⟩ := bind_eq_ok.mp h
  refine ⟨husable, Bool.eq_false_iff.mpr fun hslash => ?_⟩
  simp only [hslash, if_true] at h
  split at h <;> cases h

/-- A file can be written where the path leads, unless a directory is there or is asked for. -/
theorem writable_iff :
    t.writable path = .ok place ↔ usable path = .ok () ∧ t.placeOf path = .ok place ∧
      t.at? place ≠ some .directory ∧ Path.endsInSlash path = false := by
  constructor
  · intro h
    obtain ⟨husable, hslash⟩ := usable_of_writable h
    obtain ⟨hplace, hat⟩ := writable_eq_ok h
    exact ⟨husable, hplace, hat, hslash⟩
  · rintro ⟨husable, hplace, hat, hslash⟩
    rw [writable, husable, ok_bind, hplace, refuse, mapError_ok, ok_bind]
    cases hfound : t.at? place with
    | none => exact if_neg (Bool.eq_false_iff.mp hslash)
    | some node =>
      cases node with
      | directory => exact absurd hfound hat
      | file contents => exact if_neg (Bool.eq_false_iff.mp hslash)

/-- Where the directories are the same, a file can be written alike. -/
theorem writable_mono (hdirectories : ∀ q, t.at? q = some .directory ↔ t'.at? q = some .directory)
    (h : t.writable path = .ok place) : t'.writable path = .ok place := by
  obtain ⟨husable, hplace, hat, hslash⟩ := writable_iff.mp h
  have hfound := placeOf_mono (fun q => (hdirectories q).mp) hplace
  exact writable_iff.mpr ⟨husable, hfound, mt (hdirectories place).mpr hat, hslash⟩

/-- Why a file cannot be written depends on the kinds of things in the tree alone. -/
theorem writable_congr (hkinds : t.SameKinds t') (path : Text) :
    t.writable path = t'.writable path := by
  rw [writable, writable, placeOf_congr hkinds]
  refine bind_congr fun _ => bind_congr fun place => ?_
  rcases hkinds.cases place with ⟨h, h'⟩ | ⟨h, h'⟩ | ⟨contents, contents', h, h'⟩ <;> rw [h, h']

/-- What is at the places of a tree in which a file is written. -/
theorem at?_put_file {contents : Bytes} (h : t.writable path = .ok place) (q : List Text) :
    (t.put place (.file contents)).at? q =
      if place = q then some (.file contents) else t.at? q := by
  have hne : place ≠ [] := by
    rintro rfl
    exact (writable_eq_ok h).2 rfl
  split
  next hq => rw [← hq, at?_put_self t place _ hne]
  next hq => rw [at?_put_ne t _ hq]

/-- A file that is written makes and removes no directory. -/
theorem at?_put_directory {contents : Bytes} (h : t.writable path = .ok place) (q : List Text) :
    (t.put place (.file contents)).at? q = some .directory ↔ t.at? q = some .directory := by
  rw [at?_put_file h]
  split
  next hq => exact ⟨nofun, fun hdirectory => absurd (hq ▸ hdirectory) (writable_eq_ok h).2⟩
  next => exact Iff.rfl

/-- A file that is written is found by its path. -/
theorem status_put_self (h : t.writable path = .ok place) (contents : Bytes) :
    (t.put place (.file contents)).status path = .ok (.file contents) := by
  obtain ⟨husable, hslash⟩ := usable_of_writable h
  have hplace : (t.put place (.file contents)).placeOf path = .ok place :=
    placeOf_mono (fun q => (at?_put_directory h q).mpr) (writable_eq_ok h).1
  refine status_eq_ok.mpr ⟨husable, nodeOf_eq_ok.mpr ⟨place, hplace, ?_, fun _ => hslash⟩⟩
  rw [at?_put_file h, if_pos rfl]

/-- A file stays while another is written. -/
theorem status_put_ne {other : Text} {contents : Bytes} (h : t.writable path = .ok place)
    (hne : Path.reached other ≠ place) (hother : t.status other = .ok (.file contents))
    (written : Bytes) : (t.put place (.file written)).status other = .ok (.file contents) := by
  refine status_mono (fun q => (at?_put_directory h q).mpr) ?_ hother
  intro hat
  rw [at?_put_file h, if_neg (Ne.symm hne)]
  exact hat

/-- What is put where nothing was changes nothing else. -/
theorem at?_put_new {node other : FileNode} {q : List Text} (hat : t.at? place = none)
    (hq : t.at? q = some other) : (t.put place node).at? q = some other := by
  rw [at?_put_ne t, hq]
  rintro rfl
  exact nomatch hat.symm.trans hq

/-- A file stays while something is put where nothing was. -/
theorem status_put_new {node : FileNode} {contents : Bytes} (hat : t.at? place = none)
    (hpath : t.status path = .ok (.file contents)) :
    (t.put place node).status path = .ok (.file contents) :=
  status_mono (fun _ => at?_put_new hat) (at?_put_new hat) hpath

/-- A new directory is found by its path. -/
theorem status_put_directory (husable : usable path = .ok ()) (hplace : t.placeOf path = .ok place)
    (hat : t.at? place = none) : (t.put place .directory).status path = .ok .directory := by
  have hne : place ≠ [] := by
    rintro rfl
    exact nomatch hat
  have hfound : (t.put place .directory).placeOf path = .ok place :=
    placeOf_mono (fun _ => at?_put_new hat) hplace
  exact status_directory.mpr ⟨husable, place, hfound, at?_put_self t place _ hne⟩

section Writing

variable {P Q E : FileTree → Prop}

theorem spec_change {contents : Bytes → Bytes} (hP : Steady P) (hE : ∀ t, P t → E t)
    (hleft : ∀ t place left, P t → t.writable path = .ok place → E (t.put place (.file left)))
    (hdone : ∀ t place before, P t → t.writable path = .ok place →
      Q (t.put place (.file (contents before)))) :
    Spec P (change path contents) (fun _ => Q) E := by
  refine spec_bind ((spec_nextTrouble hP).failing hE) ?_
  intro trouble
  refine spec_bind spec_get ?_
  intro t
  refine spec_bind (spec_liftM _ fun s hs => hE s hs.2) ?_
  intro place s hs
  obtain ⟨hplace, rfl, ht⟩ := hs
  cases trouble with
  | none => exact hdone t place _ ht hplace
  | some trouble =>
    obtain ⟨fault, left⟩ := trouble
    cases left with
    | none => exact hE t ht
    | some left => exact hleft t place left ht hplace

/-- Writing a file puts its contents, or leaves others there when it is broken off. -/
theorem spec_write {contents : Bytes} (hP : Steady P) (hE : ∀ t, P t → E t)
    (hleft : ∀ t place left, P t → t.writable path = .ok place → E (t.put place (.file left)))
    (hdone : ∀ t place, P t → t.writable path = .ok place → Q (t.put place (.file contents))) :
    Spec P (write path contents) (fun _ => Q) E :=
  spec_change hP hE hleft fun t place _ ht hplace => hdone t place ht hplace

/-- A new directory is put where nothing was. -/
theorem spec_makeDirectory (hP : Steady P) (hE : ∀ t, P t → E t)
    (hdone : ∀ t place, P t → usable path = .ok () → t.placeOf path = .ok place →
      t.at? place = none → Q (t.put place .directory)) :
    Spec P (makeDirectory path) (fun _ => Q) E := by
  refine spec_bind ((spec_begins hP).failing hE) fun _ => ?_
  refine spec_bind spec_get ?_
  intro t
  refine spec_bind (spec_liftM _ fun s hs => hE s hs.2) fun _ => ?_
  refine spec_bind (spec_liftM _ fun s hs => hE s hs.2.2) ?_
  intro place s hs
  obtain ⟨hplace, husable, rfl, ht⟩ := hs
  have hplace := mapError_eq_ok.mp hplace
  cases hat : t.at? place with
  | none => exact hdone t place ht husable hplace hat
  | some node => exact hE t ht

/-- A directory is put where nothing was, unless it is there. -/
theorem spec_keepDirectory (hP : Steady P)
    (hput : ∀ t place, P t → usable path = .ok () → t.placeOf path = .ok place →
      t.at? place = none → Q (t.put place .directory))
    (hthere : ∀ t, P t → t.status path = .ok .directory → Q t) :
    Spec P
      (tryCatch (makeDirectory path) fun
        | .refused reason culprit => do
          if !true || !(← get).isDirectory path then throw (.refused reason culprit)
        | fault => throw fault)
      (fun _ => Q) P := by
  refine spec_tryCatch (spec_makeDirectory hP (fun _ h => h) hput) fun fault => ?_
  cases fault with
  | refused reason culprit =>
    refine spec_bind spec_get fun before => ?_
    rintro t ⟨rfl, ht⟩
    cases hdirectory : before.isDirectory path with
    | false => exact ht
    | true => exact hthere before ht (isDirectory_iff.mp hdirectory)
  | _ => exact spec_throw _ fun _ h => h

/-- A directory is made in its parent, which is there or is made first; unless its last name is a
dot. -/
theorem spec_makeDirectoriesFrom {fuel : Nat} {parent name : Text} (hP : Steady P)
    (hparts : parentAndName path = (parent, name)) (hdot : name ≠ text ".")
    (hput : ∀ t place, P t → usable path = .ok () → t.placeOf path = .ok place →
      t.at? place = none → Q (t.put place .directory))
    (hthere : ∀ t, P t → t.status path = .ok .directory → Q t)
    (hparent : (∀ t, P t → t.exists? parent = true) ∨
      Spec P (makeDirectoriesFrom true fuel parent) (fun _ => P) P) :
    Spec P (makeDirectoriesFrom true (fuel + 1) path) (fun _ => Q) P := by
  unfold makeDirectoriesFrom
  rw [hparts]
  refine spec_bind spec_get fun before => ?_
  have hlast : ∀ missing : Bool, (missing && decide (name = text ".")) = false := by
    intro missing
    rw [decide_eq_false hdot, Bool.and_false]
  rintro t ⟨rfl, ht⟩
  dsimp only
  simp only [hlast]
  split
  next hmissing =>
    rcases hparent with hthere | hmade
    · rw [hthere before ht, Bool.not_true, Bool.and_false] at hmissing
      exact absurd hmissing Bool.false_ne_true
    · refine spec_bind (spec_tryCatch hmade fun fault => ?_)
        (fun _ => spec_keepDirectory hP hput hthere) before ht
      split
      next => exact spec_pure _ fun _ h => h
      next => exact spec_throw _ fun _ h => h
  next => exact spec_keepDirectory hP hput hthere before ht

theorem steady_sameFile (source destination : Text) (answer : Except FileFault Bool) :
    Steady fun t => t.sameFile source destination = answer := by
  intro t troubles ht
  have heq : ∀ q, ({ t with troubles := troubles } : FileTree).at? q = t.at? q := fun _ => rfl
  have hsame : ({ t with troubles := troubles } : FileTree).sameFile source destination =
      t.sameFile source destination := by
    rw [sameFile, sameFile, status_congr heq, status_congr heq, placeOf_congr (.of_at? heq),
      placeOf_congr (.of_at? heq)]
  exact hsame.trans ht

/-- A file that another is copied into is another. -/
theorem ne_of_sameFile {source destination : Text} {contents : Bytes}
    (hsame : t.sameFile source destination = .ok false)
    (hsource : t.status source = .ok (.file contents))
    (hwritable : t.writable destination = .ok place) : Path.reached source ≠ place := by
  rintro rfl
  obtain ⟨-, hnode⟩ := status_eq_ok.mp hsource
  obtain ⟨place, hplace, hat, -⟩ := nodeOf_eq_ok.mp hnode
  obtain rfl := eq_reached hplace
  obtain ⟨husable, hslash⟩ := usable_of_writable hwritable
  have hfound := (writable_eq_ok hwritable).1
  have hdestination : t.status destination = .ok (.file contents) :=
    status_eq_ok.mpr ⟨husable, nodeOf_eq_ok.mpr ⟨_, hfound, hat, fun _ => hslash⟩⟩
  rw [sameFile, hsource, hdestination] at hsame
  simp [hplace, hfound] at hsame

/-- Copying a file puts the contents of the source into another, or leaves others there when it is
broken off. -/
theorem spec_copy {source destination : Text} (hP : Steady P) (hE : ∀ t, P t → E t)
    (hleft : ∀ t place left, P t → t.writable destination = .ok place →
      E (t.put place (.file left)))
    (hdone : ∀ t place contents, P t → t.status source = .ok (.file contents) →
      t.writable destination = .ok place → Path.reached source ≠ place →
        Q (t.put place (.file contents))) :
    Spec P (copy source destination) (fun _ => Q) E := by
  refine spec_bind spec_get ?_
  intro t
  refine spec_bind (spec_liftM _ fun s hs => hE s hs.2) ?_
  intro same
  cases same with
  | true => exact fun s hs => hE s hs.2.2
  | false =>
    have hother : Steady fun t => t.sameFile source destination = .ok false ∧ P t :=
      (steady_sameFile source destination _).and hP
    have hread : ∀ contents, Steady fun t =>
        t.read source = .ok contents ∧ t.sameFile source destination = .ok false ∧ P t := by
      intro contents t troubles ht
      have hsame : ({ t with troubles := troubles } : FileTree).read source = t.read source :=
        @read_congr { t with troubles := troubles } t (fun _ => rfl) source
      exact ⟨hsame.trans ht.1, hother t troubles ht.2⟩
    have hask : Spec (fun s => t.sameFile source destination = .ok false ∧ t = s ∧ P s)
        (ask (·.read source))
        (fun contents t => t.read source = .ok contents ∧
          t.sameFile source destination = .ok false ∧ P t) E := by
      refine ((spec_ask hother _).since ?_).failing fun s hs => hE s hs.2
      rintro s ⟨hsame, rfl, hs⟩
      exact ⟨hsame, hs⟩
    refine spec_bind hask ?_
    intro contents
    refine spec_write (hread contents) (fun t ht => hE t ht.2.2) ?_ ?_
    · intro t place left ht hplace
      exact hleft t place left ht.2.2 hplace
    · intro t place ht hplace
      have hstatus := read_eq_ok.mp ht.1
      exact hdone t place contents ht.2.2 hstatus hplace (ne_of_sameFile ht.2.1 hstatus hplace)

end Writing

end NodeBootstrap.FileTree
