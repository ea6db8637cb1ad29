import NodeBootstrap.Proofs.FileTree.Operations

/-!
# What becomes of a tree

Operations make directories where nothing was, and put files where no directory was. So however many
of them were broken off, a tree holds at each place one of three things: what a first tree held
there, a directory that was made, or a file that was written (`FileTree.Changed`). Directories and
the files that are not written are found in it as in the first.

Making a directory with its ancestors leaves a directory at every place on the way of the path.
-/

set_option autoImplicit false

namespace NodeBootstrap.FileTree

/-- What a tree holds at a place, if directories have been made and files written since a first. -/
inductive Change (made written : List Text → Prop) (first t : FileTree) (place : List Text) : Prop
  | kept (h : t.at? place = first.at? place)
  | made (hplace : made place) (hfirst : first.at? place = none)
    (hat : t.at? place = some .directory)
  | written {contents : Bytes} (hplace : written place) (hfirst : first.at? place ≠ some .directory)
    (hat : t.at? place = some (.file contents))

/-- A tree that has come of a first by making directories and writing files. -/
def Changed (made written : List Text → Prop) (first t : FileTree) : Prop :=
  ∀ place, Change made written first t place

variable {made written : List Text → Prop} {first t t' : FileTree} {place : List Text} {path : Text}
  {contents : Bytes}

theorem Changed.refl (made written : List Text → Prop) (t : FileTree) :
    Changed made written t t := fun _ => .kept rfl

/-- What is at other places does not matter. -/
theorem Change.congr (h : Change made written first t place) (heq : t'.at? place = t.at? place) :
    Change made written first t' place := by
  cases h with
  | kept h => exact .kept (heq.trans h)
  | made hplace hfirst hat => exact .made hplace hfirst (heq.trans hat)
  | written hplace hfirst hat => exact .written hplace hfirst (heq.trans hat)

theorem steady_changed (made written : List Text → Prop) (first : FileTree) :
    Steady (Changed made written first) := fun _ _ ht place => (ht place).congr rfl

/-- A directory is made where nothing was. -/
theorem Changed.make (h : Changed made written first t) (hplace : made place)
    (hat : t.at? place = none) : Changed made written first (t.put place .directory) := by
  intro q
  by_cases hq : place = q
  · subst hq
    have hne : place ≠ [] := by
      rintro rfl
      exact absurd hat (Option.some_ne_none _)
    refine .made hplace ?_ (at?_put_self t place _ hne)
    cases h place with
    | kept hkept => exact hkept.symm.trans hat
    | made _ _ hmade => exact nomatch hat.symm.trans hmade
    | written _ _ hwritten => exact nomatch hat.symm.trans hwritten
  · exact (h q).congr (at?_put_ne t _ hq)

/-- A file is written where no directory was. -/
theorem Changed.write (h : Changed made written first t) (hplace : written place)
    (hwritable : t.writable path = .ok place) (contents : Bytes) :
    Changed made written first (t.put place (.file contents)) := by
  intro q
  have hat : (t.put place (.file contents)).at? q =
      if place = q then some (.file contents) else t.at? q := at?_put_file hwritable q
  by_cases hq : place = q
  · subst hq
    rw [if_pos rfl] at hat
    have hnot := (writable_eq_ok hwritable).2
    refine .written hplace ?_ hat
    cases h place with
    | kept hkept => exact hkept ▸ hnot
    | made _ _ hmade => exact absurd hmade hnot
    | written _ hfirst _ => exact hfirst
  · rw [if_neg hq] at hat
    exact (h q).congr hat

theorem tolerates_changed (made written : List Text → Prop) (first : FileTree) :
    Tolerates made written (Changed made written first) fun _ => True where
  passes t ht := steady_changed made written first t _ ht
  makes _ _ _ ht _ hplace hat := ht.make hplace hat
  writes _ _ _ contents ht hwritable hplace := ht.write hplace hwritable contents
  troubles _ _ _ _ := trivial
  refused _ _ := trivial
  sameFile _ _ := trivial

/-- What is neither made nor written is as it was. -/
theorem Changed.kept (h : Changed made written first t) (hmade : ¬ made place)
    (hwritten : ¬ written place) : t.at? place = first.at? place := by
  cases h place with
  | kept hkept => exact hkept
  | made hplace _ _ => exact absurd hplace hmade
  | written hplace _ _ => exact absurd hplace hwritten

theorem Changed.directory (h : Changed made written first t)
    (hat : first.at? place = some .directory) : t.at? place = some .directory := by
  cases h place with
  | kept hkept => exact hkept.trans hat
  | made _ hfirst _ => exact nomatch hfirst.symm.trans hat
  | written _ hfirst _ => exact absurd hat hfirst

/-- A file that is not written is found as it was. -/
theorem Changed.status (h : Changed made written first t) (hnot : ¬ written (Path.reached path))
    (hpath : first.status path = .ok (.file contents)) : t.status path = .ok (.file contents) := by
  refine status_mono (fun _ => h.directory) (fun hat => ?_) hpath
  cases h (Path.reached path) with
  | kept hkept => exact hkept.trans hat
  | made _ hfirst _ => exact nomatch hfirst.symm.trans hat
  | written hplace _ _ => exact absurd hplace hnot

/-! ## Directories that are found -/

/-- On the way to a directory there are directories. -/
theorem directory_of_leads (h : t.status path = .ok .directory) (hplace : Path.Leads path place) :
    t.at? place = some .directory := by
  obtain ⟨-, last, hlast, hat⟩ := status_directory.mp h
  rw [placeOf_of_relative (relative_of_placeOf hlast)] at hlast
  obtain ⟨front, ⟨behind, hnames⟩, rfl⟩ := hplace
  rw [← hnames, follow_append] at hlast
  obtain ⟨here, hfront, hbehind⟩ := bind_eq_ok.mp hlast
  rw [← eq_of_follow hfront]
  cases behind with
  | nil =>
    cases hbehind
    exact hat
  | cons name behind => exact directory_of_follow_cons hbehind

/-- The last name of a joined path is the one that was joined. -/
theorem parentAndName_join_name (directory : Text) {name : Text} (hname : Path.IsName name) :
    (parentAndName (Path.join directory name)).2 = name := by
  have hsplit : Path.split (Path.join directory name) =
      ((Path.split (Path.join directory name)).1, name) :=
    Prod.ext rfl (Path.baseName_join directory hname)
  rw [parentAndName, hsplit]
  cases name with
  | nil => exact absurd rfl hname.nonempty
  | cons c name => rfl

/-- A directory is there when it has been made with its ancestors, unless its last name is a dot. -/
theorem spec_makeDirectories (hdot : (parentAndName path).2 ≠ text ".") :
    Spec (fun _ => True) (makeDirectories path true) (fun _ t => t.status path = .ok .directory)
      fun _ => True :=
  spec_makeDirectoriesFrom (fun _ _ _ => trivial) rfl hdot
    (fun _ _ _ husable hplace hat => status_put_directory husable hplace hat) (fun _ _ h => h)
    (.inr (spec_any _))

end NodeBootstrap.FileTree
