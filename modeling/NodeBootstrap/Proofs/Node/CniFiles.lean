import NodeBootstrap.Node.Cni
import NodeBootstrap.Proofs.FileTree

/-!
# Installing the files of the network plugins

Installing makes two directories and copies files into them. `Install.Partly` is what any number of
installs that were broken off leave of a tree: at every place it is as it was, or it is one of the
two directories where nothing was, or it is a file that the install writes, with whatever contents.
An install that goes through overwrites these contents, so what it leaves (`Install.Installed`) says
of each place what is there and does not depend on what was left before.

The sources are to lie outside the directory of the plugins; otherwise an install could copy what an
earlier one left.

What all copies together come to follows from what one copy does (`spec_copyFiles_of_parts`).
-/

set_option autoImplicit false

namespace NodeBootstrap.Cni

open FileTree

/-- What an install is given: where to, the directory of the plugins and their config. -/
structure Install where
  layout : InstallLayout
  plugins : Text
  config : Text

namespace Install

/-- The place of the directory for the plugins. -/
def directory (i : Install) : List Text := Path.reached i.layout.cniDirectory

/-- The place of the directory for their config. -/
def configDirectory (i : Install) : List Text := Path.reached i.layout.cniConfigDirectory

/-- The place of the config. -/
def configFile (i : Install) : List Text := i.configDirectory ++ [Path.baseName i.config]

/-- A file in the directory of the plugins. -/
def Plugin (i : Install) (t : FileTree) (name : Text) (contents : Bytes) : Prop :=
  usable (Path.join i.plugins name) = .ok () ∧
    t.at? (Path.reached i.plugins ++ [name]) = some (.file contents)

/-- A place that an install writes a file at. -/
def Target (i : Install) (t : FileTree) (place : List Text) : Prop :=
  (∃ name contents, i.Plugin t name contents ∧ place = i.directory ++ [name]) ∨
    place = i.configFile

/-- What an install checks before it changes anything. -/
structure Checked (i : Install) (t : FileTree) : Prop where
  installDirectory : t.status i.layout.installDirectory = .ok .directory
  plugins : t.status i.plugins = .ok .directory
  config : ∃ contents, t.status i.config = .ok (.file contents)

/-- The sources lie outside the directory for the plugins. -/
structure Apart (i : Install) : Prop where
  plugins : ¬ i.directory <+: Path.reached i.plugins
  config : ¬ i.directory <+: Path.reached i.config

instance (i : Install) : Decidable i.Apart :=
  decidable_of_iff
    (¬ i.directory <+: Path.reached i.plugins ∧ ¬ i.directory <+: Path.reached i.config)
    ⟨fun h => ⟨h.1, h.2⟩, fun h => ⟨h.plugins, h.config⟩⟩

/-- What has become of a place of the first tree. -/
inductive Stage (i : Install) (first t : FileTree) (place : List Text) : Prop
  | untouched (hnow : t.at? place = first.at? place)
  | made (hplace : place = i.directory ∨ place = i.configDirectory)
      (hbefore : first.at? place = none) (hnow : t.at? place = some .directory)
  | written (hplace : i.Target first place) (hbefore : first.at? place ≠ some .directory)
      (contents : Bytes) (hnow : t.at? place = some (.file contents))

/-- A tree that installs were begun in, from a first one. -/
def Partly (i : Install) (first t : FileTree) : Prop := ∀ place, i.Stage first t place

/-- A tree that installs were begun in and that has the directories. -/
structure Made (i : Install) (first t : FileTree) : Prop where
  partly : i.Partly first t
  directory : t.at? i.directory = some .directory
  configDirectory : t.at? i.configDirectory = some .directory

/-- A tree that an install has gone through in, from a first one. -/
structure Installed (i : Install) (first t : FileTree) : Prop where
  untouched : ∀ place, place ≠ i.directory → place ≠ i.configDirectory → ¬ i.Target first place →
    t.at? place = first.at? place
  directory : t.at? i.directory = some .directory
  configDirectory : t.at? i.configDirectory = some .directory
  plugins : ∀ name contents, i.Plugin first name contents →
    t.at? (i.directory ++ [name]) = some (.file contents)
  config : ∃ contents, first.status i.config = .ok (.file contents) ∧
    t.at? i.configFile = some (.file contents)

/-- The plugins among some sources have been copied. -/
def Copied (i : Install) (first : FileTree) (sources : List Text) (t : FileTree) : Prop :=
  ∀ name contents, i.Plugin first name contents → Path.join i.plugins name ∈ sources →
    t.at? (i.directory ++ [name]) = some (.file contents)

variable {i : Install} {first t : FileTree} {place : List Text} {name : Text} {contents : Bytes}

theorem isName_cni : Path.IsName (text "cni") := by decide

theorem isName_config : Path.IsName (text "config") := by decide

theorem directory_eq (i : Install) :
    i.directory = Path.reached i.layout.installDirectory ++ [text "cni"] :=
  Path.reached_join _ isName_cni

theorem configDirectory_eq (i : Install) : i.configDirectory = i.directory ++ [text "config"] :=
  Path.reached_join _ isName_config

/-- Where a plugin is copied to. -/
theorem reached_plugin (i : Install) (hname : Path.IsName name) :
    Path.reached (Path.join i.layout.cniDirectory name) = i.directory ++ [name] :=
  Path.reached_join _ hname

/-- Where the config is copied to. -/
theorem reached_config (i : Install) (hbase : Path.IsName (Path.baseName i.config)) :
    Path.reached (Path.join i.layout.cniConfigDirectory (Path.baseName i.config)) = i.configFile :=
  Path.reached_join _ hbase

theorem plugin_ne_configFile (i : Install) (name : Text) :
    i.directory ++ [name] ≠ i.configFile := by
  intro heq
  have hlength := congrArg List.length heq
  simp [configFile, configDirectory_eq] at hlength

theorem directory_front_configDirectory (i : Install) : i.directory <+: i.configDirectory :=
  i.configDirectory_eq ▸ List.prefix_append _ _

theorem directory_front_configFile (i : Install) : i.directory <+: i.configFile :=
  i.directory_front_configDirectory.trans (List.prefix_append _ _)

theorem directory_front_of_target (h : i.Target first place) : i.directory <+: place := by
  rcases h with ⟨name, contents, -, rfl⟩ | rfl
  · exact List.prefix_append _ _
  · exact i.directory_front_configFile

/-- Two installs that have gone through from one tree leave the same at every place. -/
theorem Installed.unique {t' : FileTree} (h : i.Installed first t) (h' : i.Installed first t')
    (place : List Text) : t.at? place = t'.at? place := by
  by_cases hdirectory : place = i.directory
  · rw [hdirectory, h.directory, h'.directory]
  by_cases hconfig : place = i.configDirectory
  · rw [hconfig, h.configDirectory, h'.configDirectory]
  by_cases htarget : i.Target first place
  · rcases htarget with ⟨name, contents, hplugin, rfl⟩ | rfl
    · rw [h.plugins name contents hplugin, h'.plugins name contents hplugin]
    · obtain ⟨contents, hsource, hnow⟩ := h.config
      obtain ⟨contents', hsource', hnow'⟩ := h'.config
      cases hsource.symm.trans hsource'
      rw [hnow, hnow']
  · rw [h.untouched place hdirectory hconfig htarget, h'.untouched place hdirectory hconfig htarget]

/-! ## Trees that installs were begun in -/

theorem steady_partly (i : Install) (first : FileTree) : Steady (i.Partly first) := by
  intro t troubles ht place
  cases ht place with
  | untouched hnow => exact .untouched hnow
  | made hplace hbefore hnow => exact .made hplace hbefore hnow
  | written hplace hbefore contents hnow => exact .written hplace hbefore contents hnow

/-- Directories stay. -/
theorem Partly.directory (h : i.Partly first t) (hat : first.at? place = some .directory) :
    t.at? place = some .directory := by
  cases h place with
  | untouched hnow => exact hnow.trans hat
  | made _ hbefore _ => exact nomatch hbefore.symm.trans hat
  | written _ hbefore _ _ => exact absurd hat hbefore

/-- Nothing changes outside the directory for the plugins. -/
theorem Partly.outside (h : i.Partly first t) (hplace : ¬ i.directory <+: place) :
    t.at? place = first.at? place := by
  cases h place with
  | untouched hnow => exact hnow
  | made hmade _ _ =>
    rcases hmade with rfl | rfl
    · exact absurd (List.prefix_refl _) hplace
    · exact absurd i.directory_front_configDirectory hplace
  | written htarget _ _ _ => exact absurd (directory_front_of_target htarget) hplace

/-- Where nothing is, nothing was. -/
theorem Partly.nothing (h : i.Partly first t) (hat : t.at? place = none) :
    first.at? place = none := by
  cases h place with
  | untouched hnow => exact hnow.symm.trans hat
  | made _ _ hnow => exact nomatch hnow.symm.trans hat
  | written _ _ _ hnow => exact nomatch hnow.symm.trans hat

theorem Partly.placeOf {path : Text} (h : i.Partly first t)
    (hplace : first.placeOf path = .ok place) : t.placeOf path = .ok place :=
  placeOf_mono (fun _ hat => h.directory hat) hplace

theorem Partly.status_directory {path : Text} (h : i.Partly first t)
    (hpath : first.status path = .ok .directory) : t.status path = .ok .directory := by
  obtain ⟨husable, place, hplace, hat⟩ := FileTree.status_directory.mp hpath
  exact FileTree.status_directory.mpr ⟨husable, place, h.placeOf hplace, h.directory hat⟩

/-- One of the directories is made. -/
theorem Partly.make (h : i.Partly first t)
    (hplace : place = i.directory ∨ place = i.configDirectory)
    (hat : t.at? place = none) : i.Partly first (t.put place .directory) := by
  intro other
  have hne : place ≠ [] := by
    rcases hplace with rfl | rfl
    · rw [directory_eq]
      exact List.append_ne_nil_of_right_ne_nil _ (List.cons_ne_nil _ _)
    · rw [configDirectory_eq]
      exact List.append_ne_nil_of_right_ne_nil _ (List.cons_ne_nil _ _)
  by_cases heq : place = other
  · subst heq
    exact .made hplace (h.nothing hat) (at?_put_self t place _ hne)
  · have hsame := at?_put_ne t .directory heq
    cases h other with
    | untouched hnow => exact .untouched (hsame.trans hnow)
    | made hplace hbefore hnow => exact .made hplace hbefore (hsame.trans hnow)
    | written hplace hbefore contents hnow =>
      exact .written hplace hbefore contents (hsame.trans hnow)

/-- One of the files is written. -/
theorem Partly.write (h : i.Partly first t) (htarget : i.Target first place)
    (hat : t.at? place ≠ some .directory) (contents : Bytes) :
    i.Partly first (t.put place (.file contents)) := by
  intro other
  have hne : place ≠ [] := by
    rintro rfl
    exact hat rfl
  by_cases heq : place = other
  · subst heq
    exact .written htarget (fun hdirectory => hat (h.directory hdirectory)) contents
      (at?_put_self t place _ hne)
  · have hsame := at?_put_ne t (.file contents) heq
    cases h other with
    | untouched hnow => exact .untouched (hsame.trans hnow)
    | made hplace hbefore hnow => exact .made hplace hbefore (hsame.trans hnow)
    | written hplace hbefore contents hnow =>
      exact .written hplace hbefore contents (hsame.trans hnow)

theorem steady_made (i : Install) (first : FileTree) : Steady (i.Made first) :=
  fun t troubles ht =>
    ⟨steady_partly i first t troubles ht.partly, ht.directory, ht.configDirectory⟩

theorem steady_copied (i : Install) (first : FileTree) (sources : List Text) :
    Steady (i.Copied first sources) := fun _ _ ht => ht

/-- Files are not written where the directories are. -/
theorem Made.write (h : i.Made first t) (htarget : i.Target first place)
    (hat : t.at? place ≠ some .directory) (contents : Bytes) :
    i.Made first (t.put place (.file contents)) := by
  have hkeep : ∀ other, t.at? other = some .directory →
      (t.put place (.file contents)).at? other = some .directory := by
    intro other hother
    have hne : place ≠ other := by
      rintro rfl
      exact hat hother
    rw [at?_put_ne t _ hne]
    exact hother
  exact ⟨h.partly.write htarget hat contents, hkeep _ h.directory, hkeep _ h.configDirectory⟩

/-! ## Sources -/

/-- Nothing that is directly in the directory of the plugins is written. -/
theorem not_target_source (hi : i.Apart) :
    ¬ i.Target first (Path.reached i.plugins ++ [name]) := by
  rintro (⟨other, contents, -, heq⟩ | heq)
  · have hdirectory := (List.append_inj' heq rfl).1
    exact hi.plugins (hdirectory ▸ List.prefix_refl _)
  · have hdirectory := (List.append_inj' heq rfl).1
    exact hi.plugins (hdirectory ▸ i.directory_front_configDirectory)

/-- The files in the directory of the plugins stay the same. -/
theorem Partly.plugin_iff (h : i.Partly first t) (hi : i.Apart) :
    i.Plugin t name contents ↔ i.Plugin first name contents := by
  refine and_congr_right fun _ => ?_
  cases h (Path.reached i.plugins ++ [name]) with
  | untouched hnow => rw [hnow]
  | made _ hbefore hnow => rw [hbefore, hnow]; exact ⟨nofun, nofun⟩
  | written htarget _ _ _ => exact absurd htarget (not_target_source hi)

theorem Plugin.isName (h : i.Plugin first name contents) (hsound : first.Sound) :
    Path.IsName name := by
  refine hsound.names (Path.reached i.plugins ++ [name]) ?_ name
    (List.mem_append_right _ (List.mem_singleton.mpr rfl))
  rw [h.2]
  exact Option.some_ne_none _

theorem Plugin.unique {contents' : Bytes} (h : i.Plugin first name contents)
    (h' : i.Plugin first name contents') : contents' = contents :=
  FileNode.file.inj (Option.some.inj (h'.2.symm.trans h.2))

/-- What is in the directory of the plugins has a name. -/
theorem Partly.isName (h : i.Partly first t) (hi : i.Apart) (hsound : first.Sound)
    (hat : t.at? (Path.reached i.plugins ++ [name]) ≠ none) : Path.IsName name := by
  cases h (Path.reached i.plugins ++ [name]) with
  | untouched hnow =>
    exact hsound.names (Path.reached i.plugins ++ [name]) (hnow ▸ hat) name
      (List.mem_append_right _ (List.mem_singleton.mpr rfl))
  | made hplace _ _ =>
    rw [configDirectory_eq, directory_eq] at hplace
    rcases hplace with heq | heq
    · obtain rfl : name = text "cni" := List.head_eq_of_cons_eq (List.append_inj' heq rfl).2
      exact isName_cni
    · obtain rfl : name = text "config" := List.head_eq_of_cons_eq (List.append_inj' heq rfl).2
      exact isName_config
  | written htarget _ _ _ => exact absurd htarget (not_target_source hi)

/-- A path in the directory of the plugins names what is at its place. -/
theorem status_source (hname : Path.IsName name) (hplugins : t.status i.plugins = .ok .directory) :
    t.status (Path.join i.plugins name) = .ok (.file contents) ↔ i.Plugin t name contents := by
  obtain ⟨-, place, hplace, hat⟩ := FileTree.status_directory.mp hplugins
  have hsource := placeOf_join hname hplace hat
  rw [status_eq_ok, nodeOf_eq_ok, Plugin, ← eq_reached hplace]
  refine and_congr_right fun _ => ⟨?_, fun hfile => ?_⟩
  · rintro ⟨other, hother, hfile, -⟩
    rw [Except.ok.inj (hsource.symm.trans hother)]
    exact hfile
  · exact ⟨_, hsource, hfile, fun _ => Path.endsInSlash_join _ hname⟩

/-- What is listed as a file in the directory of the plugins is a plugin. -/
theorem mem_listed {names : List Text} {source : Text}
    (hnames : ∀ name, t.at? (Path.reached i.plugins ++ [name]) ≠ none → Path.IsName name)
    (hlist : t.list i.plugins = .ok names) :
    source ∈ (names.map (Path.join i.plugins ·)).filter t.isFile ↔
      ∃ name contents, i.Plugin t name contents ∧ source = Path.join i.plugins name := by
  obtain ⟨husable, hplace, hat, hlisted⟩ := list_eq_ok hlist
  have hplugins : t.status i.plugins = .ok .directory :=
    FileTree.status_directory.mpr ⟨husable, _, hplace, hat⟩
  rw [List.mem_filter, List.mem_map, isFile_iff]
  constructor
  · rintro ⟨⟨name, hname, rfl⟩, contents, hstatus⟩
    have hisName := hnames name ((hlisted name).mp hname)
    exact ⟨name, contents, (status_source hisName hplugins).mp hstatus, rfl⟩
  · rintro ⟨name, contents, hplugin, rfl⟩
    have hthere : t.at? (Path.reached i.plugins ++ [name]) ≠ none := by
      rw [hplugin.2]
      exact Option.some_ne_none _
    exact ⟨⟨name, (hlisted name).mpr hthere, rfl⟩, contents,
      (status_source (hnames name hthere) hplugins).mpr hplugin⟩

/-- The files that are copied are the plugins of the first tree. -/
theorem mem_sources {names : List Text} {source : Text} (h : i.Partly first t) (hi : i.Apart)
    (hsound : first.Sound) (hlist : t.list i.plugins = .ok names) :
    source ∈ (names.map (Path.join i.plugins ·)).filter t.isFile ↔
      ∃ name contents, i.Plugin first name contents ∧ source = Path.join i.plugins name := by
  rw [mem_listed (fun _ => h.isName hi hsound) hlist]
  simp only [h.plugin_iff hi]

/-- The config is what it was. -/
theorem Partly.status_config (h : i.Partly first t) (hi : i.Apart)
    (hconfig : first.status i.config = .ok (.file contents)) :
    t.status i.config = .ok (.file contents) := by
  obtain ⟨husable, hnode⟩ := status_eq_ok.mp hconfig
  obtain ⟨place, hplace, hat, hslash⟩ := nodeOf_eq_ok.mp hnode
  refine status_eq_ok.mpr ⟨husable, nodeOf_eq_ok.mpr ⟨place, h.placeOf hplace, ?_, hslash⟩⟩
  rw [h.outside]
  · exact hat
  · rw [eq_reached hplace]
    exact hi.config

end Install

/-! ## Copying by its parts -/

/-- All copies together, from what listing the plugins and each single copy come to. What is known
of the files that are listed (`F`) does not depend on the state; what holds once some of them are
copied is `M`, and `D` in the end. -/
theorem spec_copyFiles_of_parts {n : Node} {F : List Text → Prop} {P D E : NodeState → Prop}
    {M : List Text → NodeState → Prop}
    (hselect : Spec P (pluginFiles n) (fun files s => F files ∧ M [] s) E)
    (hempty : F [] → ∀ s, M [] s → E s)
    (hplugin : ∀ files done source, F files → (∀ other ∈ done, other ∈ files) → source ∈ files →
      Spec (M done) (copyInto n.layout.cniDirectory source) (fun _ => M (done ++ [source])) E)
    (hunset : n.cniConfig = none → ∀ files s, M files s → E s)
    (hconfig : ∀ files config, F files → files ≠ [] → n.cniConfig = some config →
      Spec (M files) (copyInto n.layout.cniConfigDirectory config) (fun _ => D) E)
    (hlogged : ∀ files level message,
      Spec (M files) (NodeStep.log level message) (fun _ => M files) E)
    (hlogged' : ∀ level message, Spec D (NodeStep.log level message) (fun _ => D) E) :
    Spec P (copyFiles n) (fun _ => D) E := by
  unfold copyFiles
  refine spec_bind hselect fun files => Spec.knowing fun hfiles => ?_
  dsimp only
  cases files with
  | nil => exact spec_throw _ (hempty hfiles)
  | cons head tail =>
    have hloop := @spec_forIn Failure NodeState Text E
      (fun done s => (∀ other ∈ done, other ∈ head :: tail) ∧ M done s) (head :: tail)
      (fun source _ => do
        let _ ← copyInto n.layout.cniDirectory source
        pure (ForInStep.yield PUnit.unit)) ?_
    · refine spec_bind ((hloop.since fun s hs => ⟨by simp, hs⟩).ending fun _ s hs => hs.2) ?_
      intro _
      refine spec_bind (hlogged _ _ _) fun _ => ?_
      cases hset : n.cniConfig with
      | none => exact spec_throw _ (hunset hset _)
      | some config =>
        exact spec_bind (hconfig _ config hfiles (by simp) hset) fun _ => hlogged' _ _
    · intro done source hsource
      refine Spec.knowing fun hdone => ?_
      refine spec_bind (hplugin _ done source hfiles hdone hsource) fun _ => spec_pure _ ?_
      intro s hs
      refine ⟨rfl, ?_, hs⟩
      intro other hother
      rcases List.mem_append.mp hother with hmem | hmem
      · exact hdone other hmem
      · exact List.mem_singleton.mp hmem ▸ hsource

end NodeBootstrap.Cni
