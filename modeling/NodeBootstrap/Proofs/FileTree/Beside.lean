import NodeBootstrap.Proofs.FileTree.Operations
import NodeBootstrap.Proofs.Pairs

/-!
# Trees side by side

The same files are written into two trees with the same directories, and log lines go to a file of
each. A file can be written into both or into none, for that is a matter of the directories alone.
So at each place either the two trees have come to hold the same or each holds what it held
(`FileTree.Beside`); of the log file the contents may differ. Where one of the trees ends as the
other began, the two are the same in the end (`Beside.at?_eq`, `Beside.sameKinds`).
-/

set_option autoImplicit false

namespace NodeBootstrap

namespace FileTree

/-- As far as a view shows, two trees hold the same at a place, or each what it held at first. -/
def Caught {β : Type} (view : Option FileNode → β) (first again s t : FileTree) (q : List Text) :
    Prop :=
  view (t.at? q) = view (s.at? q) ∨
    view (s.at? q) = view (first.at? q) ∧ view (t.at? q) = view (again.at? q)

/-- Two trees, `s` and `t`, that have come of `first` and `again` by writing the same files. Nothing
is said of the contents at hidden places. The host breaks nothing off. -/
structure Beside (hidden : List Text → Prop) (first again s t : FileTree) : Prop where
  quiet : s.troubles = []
  quietOther : t.troubles = []
  kept : ∀ q, s.at? q = some .directory ↔ first.at? q = some .directory
  directories : ∀ q, t.at? q = some .directory ↔ s.at? q = some .directory
  kinds : ∀ q, Caught (Option.map FileNode.isDirectory) first again s t q
  places : ∀ q, ¬ hidden q → Caught id first again s t q

variable {first again s t : FileTree} {hidden : List Text → Prop} {path : Text} {place : List Text}

/-- Two trees with the same directories are side by side before anything is written. -/
theorem Beside.refl (hidden : List Text → Prop) (hfirst : first.troubles = [])
    (hagain : again.troubles = [])
    (hdirectories : ∀ q, again.at? q = some .directory ↔ first.at? q = some .directory) :
    first.Beside hidden again first again :=
  ⟨hfirst, hagain, fun _ => Iff.rfl, hdirectories, fun _ => .inr ⟨rfl, rfl⟩,
    fun _ _ => .inr ⟨rfl, rfl⟩⟩

/-- Where the one tree ends as the other began, both show the same in the end. -/
theorem Caught.eq {β : Type} {view : Option FileNode → β} {q : List Text}
    (h : Caught view first s s t q) : view (t.at? q) = view (s.at? q) := by
  rcases h with h | ⟨-, h⟩
  · exact h
  · exact h

theorem Beside.sameKinds (h : first.Beside hidden s s t) : s.SameKinds t :=
  fun q => (h.kinds q).eq.symm

theorem Beside.at?_eq (h : first.Beside hidden s s t) {q : List Text} (hq : ¬ hidden q) :
    t.at? q = s.at? q := (h.places q hq).eq

/-- What is written into both trees is caught. -/
theorem Caught.put {β : Type} {view : Option FileNode → β} {q : List Text} {one other : Bytes}
    (h : Caught view first again s t q) (hone : s.writable path = .ok place)
    (hother : t.writable path = .ok place)
    (hsame : place = q → view (some (.file other)) = view (some (.file one))) :
    Caught view first again (s.put place (.file one)) (t.put place (.file other)) q := by
  unfold Caught
  rw [at?_put_file hone, at?_put_file hother]
  by_cases hq : place = q
  · rw [if_pos hq, if_pos hq]
    exact .inl (hsame hq)
  · rw [if_neg hq, if_neg hq]
    exact h

/-- A file is written into both trees, with the same contents unless its place is hidden. -/
theorem Beside.put {one other : Bytes} (h : first.Beside hidden again s t)
    (hone : s.writable path = .ok place) (hother : t.writable path = .ok place)
    (hsame : hidden place ∨ other = one) :
    first.Beside hidden again (s.put place (.file one)) (t.put place (.file other)) where
  quiet := h.quiet
  quietOther := h.quietOther
  kept q := (at?_put_directory hone q).trans (h.kept q)
  directories q :=
    (at?_put_directory hother q).trans ((h.directories q).trans (at?_put_directory hone q).symm)
  kinds q := (h.kinds q).put hone hother fun _ => rfl
  places q hq := by
    refine (h.places q hq).put hone hother fun heq => ?_
    have hsame := hsame.resolve_left (heq ▸ hq)
    rw [hsame]

/-! ## Writing -/

/-- What a file at a place holds, if there is one. -/
def contentsAt (t : FileTree) (place : List Text) : Bytes :=
  match t.at? place with
  | some (.file before) => before
  | _ => []

/-- A host that breaks nothing off changes a file if it can be written. -/
theorem run_change (hquiet : t.troubles = []) (contents : Bytes → Bytes) :
    (change path contents).run.run t =
      match t.writable path with
      | .ok place => (.ok (), t.put place (.file (contents (t.contentsAt place))))
      | .error fault => (.error fault, t) := by
  obtain ⟨nodes, troubles⟩ := t
  cases hquiet
  have hrun : (change path contents).run.run ⟨nodes, []⟩ =
      ((liftM (writable ⟨nodes, []⟩ path) >>= fun place =>
        set (put ⟨nodes, []⟩ place (.file (contents (contentsAt ⟨nodes, []⟩ place)))) :
          FileStep Unit)).run.run ⟨nodes, []⟩ := rfl
  rw [hrun]
  cases writable ⟨nodes, []⟩ path with
  | ok place => rfl
  | error fault => rfl

/-- It answers a question about the tree as it is. -/
theorem run_ask {α : Type} (hquiet : t.troubles = []) (question : FileTree → Except FileFault α) :
    (ask question).run.run t = (question t, t) := by
  obtain ⟨nodes, troubles⟩ := t
  cases hquiet
  show (liftM (question ⟨nodes, []⟩) : FileStep α).run.run ⟨nodes, []⟩ = _
  cases question ⟨nodes, []⟩ <;> rfl

/-- A file can be written where one is. -/
theorem writable_of_status {contents : Bytes} (h : t.status path = .ok (.file contents)) :
    t.writable path = .ok (Path.reached path) ∧
      t.at? (Path.reached path) = some (.file contents) := by
  obtain ⟨husable, hnode⟩ := status_eq_ok.mp h
  obtain ⟨place, hplace, hat, hslash⟩ := nodeOf_eq_ok.mp hnode
  obtain rfl := eq_reached hplace
  have hnot : t.at? (Path.reached path) ≠ some .directory := by
    rw [hat]
    simp
  exact ⟨writable_iff.mpr ⟨husable, hplace, hnot, hslash FileNode.noConfusion⟩, hat⟩

/-- And it copies a file onto another that is there. -/
theorem run_copy {source destination : Text} {contents before : Bytes} (hquiet : t.troubles = [])
    (hsource : t.status source = .ok (.file contents))
    (hdestination : t.status destination = .ok (.file before))
    (hne : Path.reached source ≠ Path.reached destination) :
    (copy source destination).run.run t =
      (.ok (), t.put (Path.reached destination) (.file contents)) := by
  obtain ⟨hwritable, -⟩ := writable_of_status hdestination
  have hplaces : t.sameFile source destination = .ok false := by
    have hone := (writable_eq_ok (writable_of_status hsource).1).1
    have hother := (writable_eq_ok hwritable).1
    simp [sameFile, hsource, hdestination, hone, hother, hne]
  unfold copy
  rw [run_get_bind, hplaces]
  show ((ask (·.read source) >>= fun contents => write destination contents :
    FileStep Unit).run.run t) = _
  rw [run_bind, run_ask hquiet, read_eq_ok.mpr hsource]
  dsimp only
  rw [write, run_change hquiet, hwritable]

/-- A file is changed in both trees or in none. -/
theorem pairs_change {contents : Bytes → Bytes}
    (hsame : hidden (Path.reached path) ∨ ∀ before before', contents before = contents before') :
    KeepsPace SameKinds (first.Beside hidden again) (change path contents) := by
  intro s t h
  rw [run_change h.quiet, run_change h.quietOther]
  cases hone : s.writable path with
  | ok place =>
    have hother := writable_mono (fun q => (h.directories q).symm) hone
    rw [hother]
    refine .ended (h.put hone hother ?_)
    rw [eq_reached (writable_eq_ok hone).1]
    exact hsame.imp_right fun hsame => hsame _ _
  | error fault =>
    cases hother : t.writable path with
    | ok place => exact nomatch hone.symm.trans (writable_mono h.directories hother)
    | error fault' =>
      refine .failed h fun hkinds => ?_
      rw [writable_congr hkinds, hother] at hone
      exact (Except.error.inj hone).symm

end FileTree

end NodeBootstrap
