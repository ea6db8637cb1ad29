import NodeBootstrap.Proofs.Node.CniFiles

/-!
# The steps of an install

Checking, making the directories and copying, each from any tree that installs were begun in: a step
that fails leaves such a tree again (`Install.Partly`), and when all have gone through, so has the
install (`Install.Installed`).
-/

set_option autoImplicit false

namespace NodeBootstrap.Cni

open FileTree

/-- The install that a node is given, if it is given the plugins and their config. -/
def install? (n : Node) : Option Install :=
  match n.cniPath, n.cniConfig with
  | some plugins, some config => some ⟨n.layout, plugins, config⟩
  | _, _ => none

namespace Install

variable {n : Node} {i : Install} {first t : FileTree} {C : ServiceControl → Prop}

theorem of_install? (h : install? n = some i) :
    n.layout = i.layout ∧ n.cniPath = some i.plugins ∧ n.cniConfig = some i.config := by
  rw [install?] at h
  split at h
  next plugins config hplugins hconfig =>
    cases h
    exact ⟨rfl, hplugins, hconfig⟩
  next => exact nomatch h

/-! ## Checking -/

section Checking

variable {P : FileTree → Prop}

theorem spec_requirePath (hP : Steady P) (area : PathFault → Failure) (path : Option Text) :
    Spec (NodeState.On P C) (requirePath area path)
      (fun found =>
        NodeState.On (fun t => path = some found ∧ (∃ node, t.status found = .ok node) ∧ P t) C)
      (NodeState.On P C) := by
  cases path with
  | none => exact spec_throw _ fun _ h => h
  | some path =>
    refine spec_bind (spec_ofHost (spec_askFiles hP _ _)) fun node => spec_pure _ ?_
    exact NodeState.On.files_mono fun t ht => ⟨rfl, ⟨node, ht.1⟩, ht.2⟩

/-- A path that has to be one of a directory. -/
theorem spec_requireDirectory {E : NodeState → Prop} (hP : Steady P) {area : PathFault → Failure}
    {failure : Text → Failure} {path : Text} {next : Unit → NodeStep Unit}
    {Q : Unit → NodeState → Prop} (hE : ∀ s, s.On P C → E s)
    (hnext : Spec (NodeState.On (fun t => t.status path = .ok .directory ∧ P t) C) (next ()) Q E) :
    Spec (NodeState.On P C)
      (do
        let found ← requirePath area (some path)
        if !(← get).host.files.isDirectory found then do
          next (← throw (failure found))
        else next ()) Q E := by
  refine spec_bind ((spec_requirePath hP _ _).failing hE) ?_
  intro found
  refine @spec_byFiles _ _ _ (fun t => !t.isDirectory found) _ _ _ _ ?_ ?_
  · intro s hs
    exact hE s (NodeState.On.files_mono (fun t ht => ht.2.2.2) s hs)
  · refine hnext.since (NodeState.On.files_mono ?_)
    rintro t ⟨hdirectory, hpath, -, ht⟩
    cases hpath
    exact ⟨isDirectory_iff.mp (by simpa using hdirectory), ht⟩

/-- What is checked holds of the tree that the check leaves. -/
theorem spec_checkInputs (hP : Steady P) (hn : install? n = some i) :
    Spec (NodeState.On P C) (checkInputs n)
      (fun _ => NodeState.On (fun t => i.Checked t ∧ P t) C) (NodeState.On P C) := by
  obtain ⟨hlayout, hplugins, hconfig⟩ := of_install? hn
  unfold checkInputs
  rw [hlayout, hplugins, hconfig]
  have hfirst : Steady fun t => t.status i.layout.installDirectory = .ok .directory ∧ P t :=
    (steady_status _ _).and hP
  have hsecond : Steady fun t => t.status i.plugins = .ok .directory ∧
      t.status i.layout.installDirectory = .ok .directory ∧ P t := (steady_status _ _).and hfirst
  refine spec_requireDirectory hP (fun _ h => h) ?_
  refine spec_requireDirectory hfirst (NodeState.On.files_mono fun t ht => ht.2) ?_
  refine spec_bind ((spec_requirePath hsecond _ _).failing
    (NodeState.On.files_mono fun t ht => ht.2.2)) fun config => ?_
  refine @spec_byFiles _ _ _ (·.isDirectory config) _ _ _ _ ?_ ?_
  · exact spec_throw _ (NodeState.On.files_mono fun t ht => ht.2.2.2.2.2)
  · refine spec_pure _ (NodeState.On.files_mono ?_)
    rintro t ⟨hnot, hpath, ⟨node, hnode⟩, hplugins, hinstall, ht⟩
    cases hpath
    refine ⟨⟨hinstall, hplugins, ?_⟩, ht⟩
    cases node with
    | file contents => exact ⟨contents, hnode⟩
    | directory => exact absurd (isDirectory_iff.mpr hnode) (Bool.eq_false_iff.mp hnot)

end Checking

/-! ## Making the directories -/

section Making

/-- A directory is made in its parent, which is there or is made first. -/
theorem spec_makePartly {fuel : Nat} {path parent name : Text}
    (hpath : Path.reached path = i.directory ∨ Path.reached path = i.configDirectory)
    (hparts : parentAndName path = (parent, name)) (hdot : name ≠ text ".")
    (hparent : (∀ t, i.Partly first t → t.exists? parent = true) ∨
      Spec (i.Partly first) (makeDirectoriesFrom true fuel parent) (fun _ => i.Partly first)
        (i.Partly first)) :
    Spec (i.Partly first) (makeDirectoriesFrom true (fuel + 1) path)
      (fun _ t => i.Partly first t ∧ t.status path = .ok .directory) (i.Partly first) := by
  refine spec_makeDirectoriesFrom (steady_partly i first) hparts hdot ?_ (fun _ ht hthere =>
    ⟨ht, hthere⟩) hparent
  intro t place ht husable hplace hat
  have hmade : place = i.directory ∨ place = i.configDirectory := eq_reached hplace ▸ hpath
  exact ⟨ht.make hmade hat, status_put_directory husable hplace hat⟩

/-- Both directories are there afterwards. -/
theorem spec_makeDirectories (hchecked : i.Checked first) :
    Spec (i.Partly first) (makeDirectories i.layout.cniConfigDirectory true)
      (fun _ t => i.Partly first t ∧ t.status i.layout.cniConfigDirectory = .ok .directory)
      (i.Partly first) := by
  obtain ⟨-, place, hplace, -⟩ := FileTree.status_directory.mp hchecked.installDirectory
  have hinstall : Path.Relative i.layout.installDirectory := relative_of_placeOf hplace
  have hdirectory : Path.Relative i.layout.cniDirectory := hinstall.join isName_cni
  have hsame : Text.dropRightWhile (· = Path.slash) i.layout.cniDirectory =
      i.layout.cniDirectory := by
    refine Text.dropRightWhile_eq_self fun c hc => decide_eq_false ?_
    rintro rfl
    have hnot : Path.endsInSlash i.layout.cniDirectory = false :=
      Path.endsInSlash_join _ isName_cni
    exact of_decide_eq_false hnot hc
  have hparts : parentAndName i.layout.cniConfigDirectory =
      (i.layout.cniDirectory, text "config") := by
    rw [← hsame]
    exact parentAndName_join hdirectory isName_config
  obtain ⟨fuel, hfuel⟩ : ∃ fuel, i.layout.cniConfigDirectory.length = fuel + 1 := by
    have hne := (hdirectory.join isName_config).nonempty
    exact ⟨_, (Nat.succ_pred_eq_of_pos (List.length_pos_iff.mpr hne)).symm⟩
  rw [makeDirectories, hfuel]
  refine spec_makePartly (.inr rfl) hparts isName_config.dot (.inr ?_)
  refine (spec_makePartly (.inl rfl) (parentAndName_join hinstall isName_cni)
    isName_cni.dot (.inl fun t ht => ?_)).ending fun _ _ h => h.1
  rw [exists?, ht.status_directory (status_dropSlashes hchecked.installDirectory)]
  rfl

/-- The directories are there or are made. -/
theorem spec_ensureDirectories (hn : install? n = some i) (hchecked : i.Checked first) :
    Spec (NodeState.On (i.Partly first) C) (ensureDirectories n)
      (fun _ => NodeState.On (i.Made first) C) (NodeState.On (i.Partly first) C) := by
  obtain ⟨hlayout, -, -⟩ := of_install? hn
  unfold ensureDirectories
  rw [hlayout]
  have hmade : ∀ t, i.Partly first t →
      t.status i.layout.cniConfigDirectory = .ok .directory → i.Made first t := by
    intro t ht hstatus
    obtain ⟨-, place, hplace, hat⟩ := FileTree.status_directory.mp hstatus
    obtain ⟨-, inside, hinside, -⟩ := FileTree.status_directory.mp hchecked.installDirectory
    obtain rfl : place = i.configDirectory := eq_reached hplace
    have hdirectory := directory_of_placeOf_join isName_config
      ((relative_of_placeOf hinside).join isName_cni) hplace
    exact ⟨ht, hdirectory.2, hat⟩
  refine @spec_byFiles _ _ _ (·.isDirectory i.layout.cniConfigDirectory) _ _ _ _ ?_ ?_
  · refine spec_pure _ (NodeState.On.files_mono ?_)
    intro t ht
    exact hmade t ht.2 (isDirectory_iff.mp ht.1)
  · refine spec_bind (spec_nodeLog _ _) fun _ => ?_
    refine ((spec_ofHost (spec_onFiles (spec_makeDirectories hchecked))).since ?_).ending ?_
    · exact NodeState.On.files_mono fun t ht => ht.2
    · intro _
      exact NodeState.On.files_mono fun t ht => hmade t ht.1 ht.2

end Making

/-! ## Copying -/

section Copying

/-- What copying a file comes to: it is at its place, or the copying is broken off. -/
theorem spec_copyInto {R R' : FileTree → Prop} {directory source : Text} {place : List Text}
    (hR : Steady R) (hplace : Path.reached (Path.join directory (Path.baseName source)) = place)
    (htarget : i.Target first place)
    (hdone : ∀ t contents, i.Made first t → R t → t.status source = .ok (.file contents) →
      t.at? place ≠ some .directory → R' (t.put place (.file contents))) :
    Spec (NodeState.On (fun t => i.Made first t ∧ R t) C) (copyInto directory source)
      (fun _ => NodeState.On (fun t => i.Made first t ∧ R' t) C)
      (NodeState.On (i.Partly first) C) := by
  have hopened : ∀ {t : FileTree} {opened : List Text},
      t.writable (Path.join directory (Path.baseName source)) = .ok opened →
        opened = place ∧ t.at? place ≠ some .directory := by
    intro t opened hwritable
    obtain ⟨hopened, hat⟩ := writable_eq_ok hwritable
    obtain rfl : opened = place := (eq_reached hopened).trans hplace
    exact ⟨rfl, hat⟩
  unfold copyInto
  refine spec_bind (spec_ofHost (spec_onFiles
    (spec_copy ((steady_made i first).and hR) (fun t ht => ht.1.partly) ?_ ?_))) fun _ =>
      spec_pure _ fun _ h => h
  · intro t opened left ht hwritable
    obtain ⟨rfl, hat⟩ := hopened hwritable
    exact (ht.1.write htarget hat left).partly
  · intro t opened contents ht hstatus hwritable _
    obtain ⟨rfl, hat⟩ := hopened hwritable
    exact ⟨ht.1.write htarget hat contents, hdone t contents ht.1 ht.2 hstatus hat⟩

/-- The files that are to be copied are the plugins, and so far none is. -/
theorem spec_pluginFiles (hn : install? n = some i) (hi : i.Apart) (hsound : first.Sound) :
    Spec (NodeState.On (i.Made first) C) (pluginFiles n)
      (fun files s => (∀ source, source ∈ files ↔
        ∃ name contents, i.Plugin first name contents ∧ source = Path.join i.plugins name) ∧
          NodeState.On (fun t => i.Made first t ∧ i.Copied first [] t) C s)
      (NodeState.On (i.Partly first) C) := by
  obtain ⟨-, hplugins, -⟩ := of_install? hn
  unfold pluginFiles
  rw [hplugins]
  refine spec_bind (spec_ofHost (spec_onFiles ((spec_ask (steady_made i first) _).failing
    fun t ht => ht.partly))) fun names => ?_
  refine spec_bind spec_get fun before => ?_
  rintro s ⟨rfl, hs⟩
  refine ⟨fun source => mem_sources hs.files.2.partly hi hsound hs.files.1, hs.file,
    ⟨hs.files.2, ?_⟩, hs.control⟩
  simp [Copied]

/-- A plugin is copied and those copied before it stay. -/
theorem spec_copyPlugin {done : List Text} {source : Text} (hi : i.Apart) (hsound : first.Sound)
    (hchecked : i.Checked first)
    (hsource : ∃ name contents, i.Plugin first name contents ∧
      source = Path.join i.plugins name) :
    Spec (NodeState.On (fun t => i.Made first t ∧ i.Copied first done t) C)
      (copyInto i.layout.cniDirectory source)
      (fun _ => NodeState.On (fun t => i.Made first t ∧ i.Copied first (done ++ [source]) t) C)
      (NodeState.On (i.Partly first) C) := by
  obtain ⟨name, contents, hplugin, rfl⟩ := hsource
  have hname := hplugin.isName hsound
  refine spec_copyInto (steady_copied i first done) ?_ (.inl ⟨name, contents, hplugin, rfl⟩) ?_
  · rw [Path.baseName_join _ hname]
    exact i.reached_plugin hname
  · intro t copied ht hdone hstatus hat other before hother hmem
    have hplugins := ht.partly.status_directory hchecked.plugins
    have hsame := (status_source hname hplugins).mp hstatus
    obtain rfl : copied = contents :=
      hplugin.unique ((ht.partly.plugin_iff hi).mp hsame)
    by_cases heq : name = other
    · subst heq
      obtain rfl := hplugin.unique hother
      refine at?_put_self t _ _ ?_
      exact List.append_ne_nil_of_right_ne_nil _ (List.cons_ne_nil _ _)
    · have hplace : i.directory ++ [name] ≠ i.directory ++ [other] := fun h =>
        heq (List.head_eq_of_cons_eq (List.append_cancel_left h))
      rw [at?_put_ne t _ hplace]
      refine hdone other before hother ?_
      rcases List.mem_append.mp hmem with hmem | hmem
      · exact hmem
      · have hjoin := congrArg Path.baseName (List.mem_singleton.mp hmem)
        rw [Path.baseName_join _ hname, Path.baseName_join _ (hother.isName hsound)] at hjoin
        exact absurd hjoin.symm heq

/-- With the config everything is copied. -/
theorem spec_copyConfig {files : List Text} (hi : i.Apart) (hsound : first.Sound)
    (hchecked : i.Checked first)
    (hall : ∀ name contents, i.Plugin first name contents → Path.join i.plugins name ∈ files) :
    Spec (NodeState.On (fun t => i.Made first t ∧ i.Copied first files t) C)
      (copyInto i.layout.cniConfigDirectory i.config)
      (fun _ => NodeState.On (fun t => i.Partly first t ∧ i.Installed first t) C)
      (NodeState.On (i.Partly first) C) := by
  obtain ⟨contents, hsource⟩ := hchecked.config
  have hplace := i.reached_config (hsound.isName_baseName hsource)
  have hcopy : Spec (NodeState.On (fun t => i.Made first t ∧ i.Copied first files t) C)
      (copyInto i.layout.cniConfigDirectory i.config)
      (fun _ => NodeState.On (fun t => i.Made first t ∧
        i.Copied first files t ∧ t.at? i.configFile = some (.file contents)) C)
      (NodeState.On (i.Partly first) C) := by
    refine spec_copyInto (steady_copied i first files) hplace (.inr rfl) ?_
    intro t copied ht hcopied hstatus hat
    have hsame := (ht.partly.status_config hi hsource).symm.trans hstatus
    obtain rfl : contents = copied := FileNode.file.inj (Except.ok.inj hsame)
    refine ⟨fun name before hplugin hmem => ?_, at?_put_self t _ _ ?_⟩
    · rw [at?_put_ne t _ (i.plugin_ne_configFile name).symm]
      exact hcopied name before hplugin hmem
    · exact List.append_ne_nil_of_right_ne_nil _ (List.cons_ne_nil _ _)
  refine hcopy.ending fun _ => NodeState.On.files_mono ?_
  rintro t ⟨hmade, hcopied, hconfig⟩
  refine ⟨hmade.partly, fun place hdirectory hconfigDirectory htarget => ?_, hmade.directory,
    hmade.configDirectory, fun name before hplugin => ?_, contents, hsource, hconfig⟩
  · cases hmade.partly place with
    | untouched hnow => exact hnow
    | made hplace _ _ =>
      rcases hplace with heq | heq
      · exact absurd heq hdirectory
      · exact absurd heq hconfigDirectory
    | written hplace _ _ _ => exact absurd hplace htarget
  · exact hcopied name before hplugin (hall name before hplugin)

/-- When everything is copied, the install has gone through. -/
theorem spec_copyFiles (hn : install? n = some i) (hi : i.Apart) (hsound : first.Sound)
    (hchecked : i.Checked first) :
    Spec (NodeState.On (i.Made first) C) (copyFiles n)
      (fun _ => NodeState.On (fun t => i.Partly first t ∧ i.Installed first t) C)
      (NodeState.On (i.Partly first) C) := by
  obtain ⟨hlayout, -, hpath⟩ := of_install? hn
  have hpartly : ∀ files s, NodeState.On (fun t => i.Made first t ∧ i.Copied first files t) C s →
      NodeState.On (i.Partly first) C s := fun _ =>
    NodeState.On.files_mono fun t ht => ht.1.partly
  apply spec_copyFiles_of_parts
    (M := fun done => NodeState.On (fun t => i.Made first t ∧ i.Copied first done t) C)
    (spec_pluginFiles hn hi hsound)
  · exact fun _ => hpartly []
  · intro files done source hfiles _ hsource
    rw [hlayout]
    exact spec_copyPlugin hi hsound hchecked ((hfiles source).mp hsource)
  · exact fun _ => hpartly
  · intro files config hfiles _ hconfig
    obtain rfl : i.config = config := Option.some.inj (hpath.symm.trans hconfig)
    rw [hlayout]
    refine spec_copyConfig hi hsound hchecked fun name contents hplugin => ?_
    exact (hfiles _).mpr ⟨name, contents, hplugin, rfl⟩
  · exact fun _ _ _ => spec_nodeLog _ _
  · exact fun _ _ => spec_nodeLog _ _

end Copying

end Install

end NodeBootstrap.Cni
