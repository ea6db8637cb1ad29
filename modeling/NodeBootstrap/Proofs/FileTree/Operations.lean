import NodeBootstrap.Proofs.FileTree
import NodeBootstrap.Proofs.Keeps

/-!
# What operations may do to a tree

Whatever an operation on files comes to, it has only made directories where nothing was, on the way
that its path leads, and put contents into the file that it writes. What these two keep, all
operations keep (`Tolerates`), and no fault comes of them but those of the paths that no host takes,
refusals, and what the host breaks them off with.
-/

set_option autoImplicit false

namespace NodeBootstrap

open FileTree

namespace Path

/-- What a path is split at stands in front of its last name. -/
theorem names_split (path : Text) : names (split path).1 <+: names path := by
  have hhead : names (split path).1 = names (Text.dropRightWhile (· ≠ slash) path) := by
    rw [split]
    dsimp only
    split
    next => rfl
    next => exact names_dropSlashes _
  rw [hhead]
  have hwhole := Text.dropRightWhile_append_takeRightWhile (· ≠ slash) path
  have hlast : ∀ c, (Text.dropRightWhile (· ≠ slash) path).getLast? = some c → c = slash :=
    fun c hc => Decidable.of_not_not (of_decide_eq_false (Text.of_getLast?_dropRightWhile hc))
  rcases List.eq_nil_or_concat (Text.dropRightWhile (· ≠ slash) path) with hnil | ⟨front, c, hc⟩
  · rw [hnil]
    exact List.nil_prefix
  · rw [List.concat_eq_append] at hc
    obtain rfl := hlast c (by rw [hc, List.getLast?_concat])
    rw [hc, List.append_assoc] at hwhole
    rw [hc, names_append, names_nil, List.append_nil, ← hwhole]
    exact (names_append front _).symm ▸ List.prefix_append _ _

theorem split_front (path : Text) : (split path).1 <+: path := by
  have hhead := Text.dropRightWhile_front (· ≠ slash) path
  rw [split]
  dsimp only
  split
  next => exact hhead
  next => exact (Text.dropRightWhile_front _ _).trans hhead

theorem parentAndName_front (path : Text) : (parentAndName path).1 <+: path := by
  have hsplit := split_front path
  unfold parentAndName
  split
  next head heq =>
    rw [heq] at hsplit
    exact (split_front head).trans hsplit
  next => exact hsplit

theorem names_parentAndName (path : Text) : names (parentAndName path).1 <+: names path := by
  have hsplit := names_split path
  unfold parentAndName
  split
  next head heq =>
    rw [heq] at hsplit
    exact (names_split head).trans hsplit
  next => exact hsplit

/-- A place on the way that a path leads. -/
def Leads (path : Text) (place : List Text) : Prop :=
  ∃ front, front <+: names path ∧ place = front.foldl advance []

theorem leads_reached (path : Text) : Leads path (reached path) :=
  ⟨names path, List.prefix_refl _, rfl⟩

theorem Leads.of_parent {path : Text} {place : List Text}
    (h : Leads (parentAndName path).1 place) : Leads path place := by
  obtain ⟨front, hfront, hplace⟩ := h
  exact ⟨front, hfront.trans (names_parentAndName path), hplace⟩

end Path

/-- What is kept by all that operations do to a tree, where they make directories and write files,
and the faults that come of them. -/
structure Tolerates (made written : List Text → Prop) (P : FileTree → Prop)
    (F : FileFault → Prop) : Prop where
  passes : ∀ t : FileTree, P t → P { t with troubles := t.troubles.tail }
  makes : ∀ (t : FileTree) (path : Text) (place : List Text), P t → t.placeOf path = .ok place →
    made place → t.at? place = none → P (t.put place .directory)
  writes : ∀ (t : FileTree) (path : Text) (place : List Text) (contents : Bytes), P t →
    t.writable path = .ok place → written place → P (t.put place (.file contents))
  troubles : ∀ (t : FileTree) (trouble : FileTrouble), P t →
    t.troubles.head? = some (some trouble) → F trouble.fault
  refused : ∀ reason path, F (.refused reason path)
  sameFile : ∀ source destination, F (.sameFile source destination)

/-- Of any operation it can be said that it fails with some fault. -/
theorem Tolerates.any {made written : List Text → Prop} {P : FileTree → Prop}
    {F : FileFault → Prop} (h : Tolerates made written P F) :
    Tolerates made written P fun _ => True where
  passes := h.passes
  makes := h.makes
  writes := h.writes
  troubles _ _ _ _ := trivial
  refused _ _ := trivial
  sameFile _ _ := trivial

namespace FileTree

variable {made written : List Text → Prop} {P : FileTree → Prop} {F : FileFault → Prop}
  {path : Text} {α : Type}

/-- The faults of a path are those that no host takes. -/
abbrev Taken (F : FileFault → Prop) (path : Text) : Prop := Yields (fun _ => True) F (usable path)

theorem yields_refuse (h : Tolerates made written P F) (path : Text) {p : α → Prop}
    {result : Except PathRefusal α} (hp : ∀ a, result = .ok a → p a) :
    Yields p F (refuse path result) := by
  cases result with
  | ok a => exact hp a rfl
  | error reason => exact h.refused reason path

theorem yields_status (h : Tolerates made written P F) (hpath : Taken F path) (t : FileTree) :
    Yields (fun _ => True) F (t.status path) :=
  yields_bind hpath fun _ _ => yields_refuse h path fun _ _ => trivial

theorem yields_read (h : Tolerates made written P F) (hpath : Taken F path) (t : FileTree) :
    Yields (fun _ => True) F (t.read path) := by
  refine yields_bind (yields_status h hpath t) fun node _ => ?_
  cases node with
  | directory => exact h.refused .isDirectory path
  | file contents => exact trivial

theorem yields_writable (h : Tolerates made written P F) (hpath : Taken F path) (t : FileTree) :
    Yields (fun _ => True) F (t.writable path) := by
  refine yields_bind hpath fun _ _ => ?_
  refine yields_bind (yields_refuse h path (p := fun _ => True) fun _ _ => trivial)
    fun place _ => ?_
  split
  next => exact h.refused .isDirectory path
  next => split <;> first | exact trivial | exact h.refused .notDirectory path
  next => split <;> first | exact trivial | exact h.refused .isDirectory path

theorem yields_sameFile (h : Tolerates made written P F) {source destination : Text}
    (hsource : Taken F source) (hdestination : Taken F destination) (t : FileTree) :
    Yields (fun _ => True) F (t.sameFile source destination) := by
  have hone := yields_status h hsource t
  have hother := yields_status h hdestination t
  unfold sameFile
  split
  next => exact trivial
  next fault _ hfault =>
    rw [hfault] at hone
    exact hone
  next =>
    split
    next => exact trivial
    next fault _ hfault =>
      rw [hfault] at hother
      exact hother
    next => split <;> exact trivial

/-! ## Steps -/

/-- What happens to the operation that begins, and the tree behind that. -/
theorem run_nextTrouble (t : FileTree) :
    nextTrouble.run.run t =
      (.ok t.troubles.head?.join, { t with troubles := t.troubles.tail }) := by
  obtain ⟨nodes, troubles⟩ := t
  cases troubles <;> rfl

theorem keeps_nextTrouble (h : Tolerates made written P F) :
    Keeps P nextTrouble (fun trouble => ∀ found, trouble = some found → F found.fault) F := by
  intro t ht
  rw [run_nextTrouble]
  refine ⟨h.passes t ht, fun found hfound => h.troubles t found ht ?_⟩
  exact Option.join_eq_some_iff.mp hfound

theorem keeps_begins (h : Tolerates made written P F) : Keeps P begins (fun _ => True) F := by
  refine keeps_bind (keeps_nextTrouble h) fun trouble htrouble => ?_
  cases trouble with
  | none => exact keeps_pure _ trivial
  | some trouble => exact keeps_throw _ (htrouble trouble rfl)

theorem keeps_ask (h : Tolerates made written P F) {question : FileTree → Except FileFault α}
    {p : α → Prop} (hquestion : ∀ t, P t → Yields p F (question t)) :
    Keeps P (ask question) p F :=
  keeps_then (keeps_begins h) fun _ => keeps_bind keeps_get fun t ht => keeps_liftM (hquestion t ht)

theorem keeps_change (h : Tolerates made written P F) (hpath : Taken F path)
    (hplace : written (Path.reached path)) (contents : Bytes → Bytes) :
    Keeps P (change path contents) (fun _ => True) F := by
  have hput : ∀ (t : FileTree) (place : List Text) (bytes : Bytes), P t →
      t.writable path = .ok place → P (t.put place (.file bytes)) := by
    intro t place bytes ht hwritable
    refine h.writes t path place bytes ht hwritable ?_
    rw [eq_reached (writable_eq_ok hwritable).1]
    exact hplace
  refine keeps_bind (keeps_nextTrouble h) fun trouble htrouble => ?_
  refine keeps_bind keeps_get fun t ht => ?_
  refine keeps_bind (keeps_liftM (yields_writable h hpath t).known) fun place ⟨hwritable, _⟩ => ?_
  cases trouble with
  | none => exact keeps_set (hput t place _ ht hwritable)
  | some trouble =>
    obtain ⟨fault, left⟩ := trouble
    cases left with
    | none => exact keeps_throw _ (htrouble _ rfl)
    | some left =>
      exact keeps_then (keeps_set (hput t place left ht hwritable)) fun _ =>
        keeps_throw _ (htrouble _ rfl)

theorem keeps_write (h : Tolerates made written P F) (hpath : Taken F path)
    (hplace : written (Path.reached path)) (contents : Bytes) :
    Keeps P (write path contents) (fun _ => True) F := keeps_change h hpath hplace _

theorem keeps_append (h : Tolerates made written P F) (hpath : Taken F path)
    (hplace : written (Path.reached path)) (contents : Bytes) :
    Keeps P (append path contents) (fun _ => True) F := keeps_change h hpath hplace _

/-- A directory is made where the path leads. -/
theorem keeps_makeDirectory (h : Tolerates made written P F) (hpath : Taken F path)
    (hplace : made (Path.reached path)) : Keeps P (makeDirectory path) (fun _ => True) F := by
  refine keeps_then (keeps_begins h) fun _ => keeps_bind keeps_get fun t ht => ?_
  refine keeps_then (keeps_liftM hpath) fun _ => ?_
  refine keeps_bind (keeps_liftM (yields_refuse h path fun _ => id)) fun place hfound => ?_
  cases hat : t.at? place with
  | some node => exact keeps_throw _ (h.refused .exists path)
  | none =>
    refine keeps_set (h.makes t path place ht hfound ?_ hat)
    rw [eq_reached hfound]
    exact hplace

/-- Directories are made on the way that the path leads. -/
theorem keeps_makeDirectoriesFrom (h : Tolerates made written P F) (keep : Bool) (fuel : Nat)
    (hpath : ∀ front, front <+: path → Taken F front)
    (hplaces : ∀ place, Path.Leads path place → made place) :
    Keeps P (makeDirectoriesFrom keep fuel path) (fun _ => True) F := by
  induction fuel generalizing path with
  | zero => exact keeps_pure _ trivial
  | succ fuel ih =>
    have hparent : Keeps P (makeDirectoriesFrom keep fuel (parentAndName path).1)
        (fun _ => True) F := by
      refine ih (fun front hfront => hpath front ?_) fun place hplace =>
        hplaces place hplace.of_parent
      exact hfront.trans (Path.parentAndName_front path)
    unfold makeDirectoriesFrom
    generalize parentAndName path = parts at hparent ⊢
    obtain ⟨parent, name⟩ := parts
    refine keeps_bind keeps_get fun t _ => ?_
    extract_lets missing last
    refine keeps_when (keeps_tryCatch hparent ?_) ?_
    · intro fault hfault
      split
      next => exact keeps_pure _ trivial
      next => exact keeps_throw _ hfault
    intro _
    dsimp only [last]
    split
    next => exact keeps_pure _ trivial
    next =>
      refine keeps_tryCatch (keeps_makeDirectory h (hpath path (List.prefix_refl _))
        (hplaces _ (Path.leads_reached path))) fun fault hfault => ?_
      cases fault with
      | refused reason culprit =>
        refine keeps_bind keeps_get fun t _ => ?_
        split
        next => exact keeps_throw _ (h.refused reason culprit)
        next => exact keeps_pure _ trivial
      | _ => exact keeps_throw _ hfault

theorem keeps_makeDirectories (h : Tolerates made written P F) (keep : Bool)
    (hpath : ∀ front, front <+: path → Taken F front)
    (hplaces : ∀ place, Path.Leads path place → made place) :
    Keeps P (makeDirectories path keep) (fun _ => True) F :=
  keeps_makeDirectoriesFrom h keep _ hpath hplaces

theorem keeps_copy (h : Tolerates made written P F) {source destination : Text}
    (hsource : Taken F source) (hdestination : Taken F destination)
    (hplace : written (Path.reached destination)) :
    Keeps P (copy source destination) (fun _ => True) F := by
  refine keeps_bind keeps_get fun t _ => ?_
  refine keeps_then (keeps_liftM (yields_sameFile h hsource hdestination t)) fun same => ?_
  refine keeps_unless (h.sameFile source destination) ?_
  exact keeps_then (keeps_ask h fun t _ => yields_read h hsource t) fun contents =>
    keeps_write h hdestination hplace contents

/-- A log line is written into the log file, if at all. -/
theorem appendLine_tolerated (h : Tolerates made written P F) {t : FileTree} {file : Text}
    (hplace : written (Path.reached file)) (ht : P t) (line : LogLine) :
    P (Host.appendLine t file line) := by
  unfold Host.appendLine
  split
  next => exact ht
  next bytes _ => exact (keeps_append h.any (yields_trivial _) hplace bytes t ht).1

theorem logged_tolerated (h : Tolerates made written P F) {host : Host}
    (hlogs : ∀ file, host.journal.file = some file → written (Path.reached file))
    (hhost : P host.files) (level : LogLevel) (message : Text) :
    P (host.logged level message).files := by
  unfold Host.logged
  split
  next => exact hhost
  next =>
    dsimp only
    split
    next => exact hhost
    next file hfile => exact appendLine_tolerated h (hlogs file hfile) hhost _

end FileTree

/-! ## On the node -/

/-- Logging a line does not change where the lines go. -/
theorem Host.logged_file (h : Host) (level : LogLevel) (message : Text) :
    (h.logged level message).journal.file = h.journal.file := by
  unfold Host.logged
  split <;> rfl

/-- What is kept on the node by all that operations do to its files. -/
def Endures (made written : List Text → Prop) (R : NodeState → Prop) (F : FileFault → Prop) :
    Prop :=
  ∀ s : NodeState,
    Tolerates made written (fun files => R { s with host := { s.host with files } }) F

/-- What does not depend on the files is kept, however an operation on them fails. -/
theorem endures_of_forall_files {made written : List Text → Prop} {R : NodeState → Prop}
    (h : ∀ (s : NodeState) (files : FileTree), R s → R { s with host := { s.host with files } }) :
    Endures made written R fun _ => True := fun s =>
  { passes := fun t ht => h { s with host := { s.host with files := t } } _ ht
    makes := fun t _ _ ht _ _ _ => h { s with host := { s.host with files := t } } _ ht
    writes := fun t _ _ _ ht _ _ => h { s with host := { s.host with files := t } } _ ht
    troubles := fun _ _ _ _ => trivial
    refused := fun _ _ => trivial
    sameFile := fun _ _ => trivial }

/-- What is kept on the node by log lines. -/
def OutlivesLogs (R : NodeState → Prop) : Prop :=
  ∀ (s : NodeState) (level : LogLevel) (message : Text), R s →
    R { s with host := s.host.logged level message }

section Node

variable {α : Type} {R : NodeState → Prop} {F : FileFault → Prop} {G : Failure → Prop}

/-- An operation on files, as a step on the node. -/
theorem keeps_operation {area : FileFault → Failure} {step : FileStep α} {p : α → Prop}
    (hstep : ∀ s : NodeState,
      Keeps (fun files => R { s with host := { s.host with files } }) step p F)
    (hG : ∀ fault, F fault → G (Failure.ofFileFault area fault)) :
    Keeps R (Host.onFiles area step : NodeStep α) p G :=
  keeps_ofHost fun s => keeps_onFiles fun host => (hstep { s with host := host }).failing hG

/-- An operation on files ends on the node as it ends on the files. -/
theorem spec_operation_ends {area : FileFault → Failure} {step : FileStep α} {K : NodeState → Prop}
    {P E : FileTree → Prop} {Q : α → FileTree → Prop}
    (hK : ∀ (s : NodeState) (files : FileTree), K s → K { s with host := { s.host with files } })
    (h : Spec P step Q E) :
    Spec (fun s => K s ∧ P s.host.files) (Host.onFiles area step : NodeStep α)
      (fun a s => K s ∧ Q a s.host.files) fun s => K s ∧ E s.host.files := by
  intro s hs
  have hend := h s.host.files hs.2
  show Ends _ _ ((NodeStep.ofHost (Host.onFiles area step)).run.run s)
  rw [run_ofHost, run_onFiles]
  generalize step.run.run s.host.files = ended at hend ⊢
  obtain ⟨result, files⟩ := ended
  cases result with
  | ok a => exact ⟨hK s files hs.1, hend⟩
  | error fault => exact ⟨hK s files hs.1, hend⟩

/-- Of what an operation that fails leaves, nothing need be said. -/
theorem spec_operation {area : FileFault → Failure} {step : FileStep α} {K : NodeState → Prop}
    {P : FileTree → Prop} {Q : α → FileTree → Prop}
    (hK : ∀ (s : NodeState) (files : FileTree), K s → K { s with host := { s.host with files } })
    (h : Spec P step Q fun _ => True) :
    Spec (fun s => K s ∧ P s.host.files) (Host.onFiles area step : NodeStep α)
      (fun a s => K s ∧ Q a s.host.files) fun _ => True :=
  (spec_operation_ends hK h).failing fun _ _ => trivial

theorem keeps_nodeLog (h : OutlivesLogs R) (level : LogLevel) (message : Text) :
    Keeps R (NodeStep.log level message) (fun _ => True) G :=
  keeps_ofHost fun s => keeps_modify fun host hhost => h { s with host := host } level message hhost

end Node

end NodeBootstrap
