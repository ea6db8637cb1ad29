import NodeBootstrap.Proofs.FileTree.Beside
import NodeBootstrap.Proofs.Node.CniConvergence
import NodeBootstrap.Proofs.Node.CniPlacing

/-!
# What copying the plugins leaves of a tree

When copying the plugins and their config comes to its end, each file in the directory of the
plugins is in the install directory with its contents, the config is too, and every other place is
as it was (`Cni.Install.Duplicated`). So nothing is copied over what another copy left, and neither
directories nor what they hold are copied. Copying again then goes through and changes nothing
(`Cni.copyFiles_exact`).

The tree behind some copies is the first with their files written in order
(`FileTree.Rewritten`), where a copy has the contents that its source had at first: the sources lie
outside of where copies go. A host may log to a file of its own meanwhile; of that file nothing is
said, and it is not one that an install uses (`Cni.Install.Uses`).
-/

set_option autoImplicit false

namespace NodeBootstrap.Cni

open FileTree OrderedMap

namespace Install

/-- A place that copying reads or may write. -/
def Uses (i : Install) (place : List Text) : Prop :=
  i.directory <+: place ∨ (∃ name, place = Path.reached i.plugins ++ [name]) ∨
    place = Path.reached i.config

/-- The files of an install have been copied since a first tree and nothing else has changed, but
for what is logged to. -/
structure Duplicated (i : Install) (logs : List Text → Prop) (first t : FileTree) : Prop where
  source : first.status i.plugins = .ok .directory
  /-- There is something to copy. -/
  nonempty : ∃ name contents, i.Plugin first name contents
  plugins : ∀ name contents, i.Plugin first name contents →
    t.status (Path.join i.layout.cniDirectory name) = .ok (.file contents)
  config : ∃ contents, first.status i.config = .ok (.file contents) ∧
    t.status (Path.join i.layout.cniConfigDirectory (Path.baseName i.config)) =
      .ok (.file contents)
  /-- No directory comes or goes. -/
  directories : ∀ place, t.at? place = some .directory ↔ first.at? place = some .directory
  /-- What is in the directory of the plugins is still there, and so is the config. -/
  sources : (∀ name, t.at? (Path.reached i.plugins ++ [name]) =
    first.at? (Path.reached i.plugins ++ [name])) ∧
      t.at? (Path.reached i.config) = first.at? (Path.reached i.config)
  /-- Where a directory of plugins would go, nothing has changed. -/
  subdirectories : ∀ name, first.at? (Path.reached i.plugins ++ [name]) = some .directory →
    t.at? (i.directory ++ [name]) = first.at? (i.directory ++ [name])
  others : ∀ place, ¬ logs place → ¬ i.Target first place → t.at? place = first.at? place

/-- A tree in which the files of an install can be copied: the sources lie outside of where copies
go, they have names, and nothing that is used is logged to. -/
structure Copyable (i : Install) (logs : List Text → Prop) (first : FileTree) : Prop where
  apart : i.Apart
  names : ∀ name, first.at? (Path.reached i.plugins ++ [name]) ≠ none → Path.IsName name
  base : ∀ contents, first.status i.config = .ok (.file contents) →
    Path.IsName (Path.baseName i.config)
  logs : ∀ place, logs place → ¬ i.Uses place

/-- The paths of the plugins. -/
structure Selected (i : Install) (first : FileTree) (files : List Text) : Prop where
  source : first.status i.plugins = .ok .directory
  all : ∀ source, source ∈ files ↔
    ∃ name contents, i.Plugin first name contents ∧ source = Path.join i.plugins name

/-- The copies of some sources in a directory, with the contents that the sources have. -/
def copies (first : FileTree) (directory : Text) (sources : List Text) : List (Text × Bytes) :=
  sources.map fun source =>
    (Path.join directory (Path.baseName source), first.contentsAt (Path.reached source))

variable {n : Node} {i : Install} {first t : FileTree} {logs : List Text → Prop}
  {ws : List (Text × Bytes)} {place : List Text} {name source : Text} {contents : Bytes}
  {files : List Text}

/-! ## The places of copies -/

theorem Copyable.isName (h : i.Copyable logs first) (hplugin : i.Plugin first name contents) :
    Path.IsName name := by
  apply h.names
  rw [hplugin.2]
  exact Option.some_ne_none _

theorem Copyable.visible_copy (h : i.Copyable logs first) (hplace : i.directory <+: place) :
    ¬ logs place := fun hlog => h.logs place hlog (.inl hplace)

theorem Copyable.visible_plugin (h : i.Copyable logs first) (name : Text) :
    ¬ logs (Path.reached i.plugins ++ [name]) := fun hlog =>
  h.logs _ hlog (.inr (.inl ⟨name, rfl⟩))

theorem Copyable.visible_config (h : i.Copyable logs first) : ¬ logs (Path.reached i.config) :=
  fun hlog => h.logs _ hlog (.inr (.inr rfl))

/-- What is not below the directory of the copies is not written. -/
theorem outside_copies (h : first.Rewritten logs ws t)
    (hws : ∀ w ∈ ws, i.directory <+: (Path.reached w.1).dropLast)
    (hplace : ¬ i.directory <+: place.dropLast) (hvisible : ¬ logs place) :
    t.at? place = first.at? place := by
  apply h.at?_eq hvisible
  apply lastOf_eq_none.mpr
  intro e he heq
  obtain ⟨w, hw, rfl⟩ := List.mem_map.mp he
  exact hplace (heq ▸ hws w hw)

/-! ## Copying for the first time -/

theorem tolerates_rewritten :
    Tolerates (fun _ => False) logs (first.Rewritten logs ws) fun _ => True where
  passes t ht := steady_rewritten t _ ht
  makes _ _ _ _ _ hmade _ := hmade.elim
  writes t path place contents ht hwritable hlogs := by
    apply ht.hide hwritable
    rw [← eq_reached (writable_eq_ok hwritable).1]
    exact hlogs
  troubles _ _ _ _ := trivial
  refused _ _ := trivial
  sameFile _ _ := trivial

/-- One more file is copied, and the source has the contents that it had at first. -/
theorem spec_copyNext {s : NodeState} {directory : Text}
    (hws : ∀ w ∈ ws, i.directory <+: (Path.reached w.1).dropLast)
    (hsource : ¬ i.directory <+: (Path.reached source).dropLast)
    (hvisible : ¬ logs (Path.reached source)) :
    Spec (Logging s (first.Rewritten logs ws)) (copyInto directory source)
      (fun _ => Logging s fun t => (∃ contents, first.status source = .ok (.file contents)) ∧
        first.Rewritten logs (ws ++ copies first directory [source]) t) fun _ => True := by
  unfold copyInto
  refine spec_bind (spec_logging (spec_copy steady_rewritten (fun _ _ => trivial)
    (fun _ _ _ _ _ => trivial) ?_)) fun _ => spec_pure _ fun _ hs => hs
  intro t place contents ht hstatus hwritable _
  have hsame : t.at? (Path.reached source) = first.at? (Path.reached source) :=
    outside_copies ht hws hsource hvisible
  have hfirst : first.status source = .ok (.file contents) :=
    status_mono (fun q => (ht.directories q).mp) (fun hat => hsame ▸ hat) hstatus
  have hcontents : first.contentsAt (Path.reached source) = contents := by
    rw [contentsAt, (writable_of_status hfirst).2]
  refine ⟨⟨contents, hfirst⟩, ?_⟩
  rw [copies, List.map_singleton, hcontents]
  exact ht.write hwritable

/-- The files that are listed are the plugins, and so far none is copied. -/
theorem spec_selectPlugins {s : NodeState} (h : i.Copyable logs first)
    (hn : install? n = some i) :
    Spec (Logging s (first.Rewritten logs [])) (pluginFiles n)
      (fun files s' => i.Selected first files ∧ Logging s (first.Rewritten logs []) s')
      fun _ => True := by
  obtain ⟨-, hplugins, -⟩ := of_install? hn
  unfold pluginFiles
  rw [hplugins]
  refine spec_bind (spec_logging ((spec_ask steady_rewritten _).failing fun _ _ => trivial)) ?_
  intro names
  refine spec_bind spec_get fun before => ?_
  rintro _ ⟨rfl, hfile, hlist, ht⟩
  have hsame : ∀ name, before.host.files.at? (Path.reached i.plugins ++ [name]) =
      first.at? (Path.reached i.plugins ++ [name]) := fun name =>
    ht.at?_eq (h.visible_plugin name) (lastOf_nil _)
  have hlisted := fun source => @mem_listed i _ names source
    (fun name hname => h.names name (hsame name ▸ hname)) hlist
  simp only [Plugin, hsame] at hlisted
  obtain ⟨husable, hplace, hat, -⟩ := list_eq_ok hlist
  refine ⟨⟨?_, hlisted⟩, hfile, ht⟩
  apply status_directory_mono fun q => (ht.directories q).mp
  exact FileTree.status_directory.mpr ⟨husable, _, hplace, hat⟩

/-! ## All copies together -/

/-- The copies that an install makes of some files and the config. -/
def allCopies (i : Install) (first : FileTree) (files : List Text) : List (Text × Bytes) :=
  copies first i.layout.cniDirectory files ++ copies first i.layout.cniConfigDirectory [i.config]

theorem mem_allCopies (h : i.Copyable logs first) (hfiles : i.Selected first files)
    (hconfig : first.status i.config = .ok (.file contents)) {e : Text × Bytes} :
    e ∈ i.allCopies first files ↔
      (∃ name contents, i.Plugin first name contents ∧
        e = (Path.join i.layout.cniDirectory name, contents)) ∨
          e = (Path.join i.layout.cniConfigDirectory (Path.baseName i.config), contents) := by
  have hlast : copies first i.layout.cniConfigDirectory [i.config] =
      [(Path.join i.layout.cniConfigDirectory (Path.baseName i.config), contents)] := by
    rw [copies, List.map_singleton, contentsAt, (writable_of_status hconfig).2]
  have hcopy : ∀ {name contents}, i.Plugin first name contents →
      (Path.join i.layout.cniDirectory (Path.baseName (Path.join i.plugins name)),
        first.contentsAt (Path.reached (Path.join i.plugins name))) =
          (Path.join i.layout.cniDirectory name, contents) := by
    intro name contents hplugin
    have hname := h.isName hplugin
    rw [Path.baseName_join _ hname, Path.reached_join _ hname, contentsAt, hplugin.2]
  rw [allCopies, List.mem_append, hlast, List.mem_singleton, copies, List.mem_map]
  refine or_congr_left ?_
  constructor
  · rintro ⟨source, hsource, rfl⟩
    obtain ⟨name, contents, hplugin, rfl⟩ := (hfiles.all source).mp hsource
    exact ⟨name, contents, hplugin, hcopy hplugin⟩
  · rintro ⟨name, contents, hplugin, rfl⟩
    exact ⟨_, (hfiles.all _).mpr ⟨name, contents, hplugin, rfl⟩, hcopy hplugin⟩

/-- No copy is made where another is. -/
theorem placed_allCopies (h : i.Copyable logs first) (hfiles : i.Selected first files)
    (hconfig : first.status i.config = .ok (.file contents)) {e : List Text × Bytes}
    (he : e ∈ placed (i.allCopies first files)) :
    (∃ name contents, i.Plugin first name contents ∧ e = (i.directory ++ [name], contents)) ∨
      e = (i.configFile, contents) := by
  obtain ⟨w, hw, rfl⟩ := List.mem_map.mp he
  rcases (mem_allCopies h hfiles hconfig).mp hw with ⟨name, contents, hplugin, rfl⟩ | rfl
  · refine .inl ⟨name, contents, hplugin, ?_⟩
    rw [i.reached_plugin (h.isName hplugin)]
  · refine .inr ?_
    rw [i.reached_config (h.base contents hconfig)]

/-- A copy that all copies for its place agree with is found. -/
theorem status_copy {path : Text} (h : first.Rewritten logs ws t) (hmem : (path, contents) ∈ ws)
    (hvisible : ¬ logs (Path.reached path))
    (hsame : ∀ e ∈ placed ws, e.1 = Path.reached path → e.2 = contents) :
    t.status path = .ok (.file contents) := by
  have hplaced : (Path.reached path, contents) ∈ placed ws := List.mem_map.mpr ⟨_, hmem, rfl⟩
  have hread := h.read hvisible (lastOf_eq_of_forall hplaced hsame)
    (List.mem_map.mpr ⟨_, hmem, rfl⟩)
  exact read_eq_ok.mp hread

theorem plugin_of_rewritten (h : i.Copyable logs first) (hfiles : i.Selected first files)
    (hconfig : first.status i.config = .ok (.file contents)) {bytes : Bytes}
    (hplugin : i.Plugin first name bytes)
    (ht : first.Rewritten logs (i.allCopies first files) t) :
    t.status (Path.join i.layout.cniDirectory name) = .ok (.file bytes) := by
  have hreached := i.reached_plugin (h.isName hplugin)
  apply status_copy ht ((mem_allCopies h hfiles hconfig).mpr (.inl ⟨name, bytes, hplugin, rfl⟩))
  · rw [hreached]
    exact h.visible_copy (List.prefix_append _ _)
  · intro e he heq
    rw [hreached] at heq
    rcases placed_allCopies h hfiles hconfig he with ⟨other, bytes', hother, rfl⟩ | rfl
    · obtain rfl : other = name := List.head_eq_of_cons_eq (List.append_cancel_left heq)
      exact hplugin.unique hother
    · exact absurd heq.symm (i.plugin_ne_configFile name)

theorem config_of_rewritten (h : i.Copyable logs first) (hfiles : i.Selected first files)
    (hconfig : first.status i.config = .ok (.file contents))
    (ht : first.Rewritten logs (i.allCopies first files) t) :
    t.status (Path.join i.layout.cniConfigDirectory (Path.baseName i.config)) =
      .ok (.file contents) := by
  have hreached := i.reached_config (h.base contents hconfig)
  apply status_copy ht ((mem_allCopies h hfiles hconfig).mpr (.inr rfl))
  · rw [hreached]
    exact h.visible_copy i.directory_front_configFile
  · intro e he heq
    rw [hreached] at heq
    rcases placed_allCopies h hfiles hconfig he with ⟨other, bytes', hother, rfl⟩ | rfl
    · exact absurd heq (i.plugin_ne_configFile other)
    · rfl

theorem others_of_rewritten (h : i.Copyable logs first) (hfiles : i.Selected first files)
    (hconfig : first.status i.config = .ok (.file contents))
    (ht : first.Rewritten logs (i.allCopies first files) t) (hvisible : ¬ logs place)
    (htarget : ¬ i.Target first place) : t.at? place = first.at? place := by
  apply ht.at?_eq hvisible
  apply lastOf_eq_none.mpr
  rintro e he rfl
  rcases placed_allCopies h hfiles hconfig he with ⟨name, contents, hplugin, rfl⟩ | rfl
  · exact htarget (.inl ⟨name, contents, hplugin, rfl⟩)
  · exact htarget (.inr rfl)

/-- With all copies written the files are copied. -/
theorem duplicated_of_rewritten (h : i.Copyable logs first) (hfiles : i.Selected first files)
    (hne : files ≠ []) (hconfig : first.status i.config = .ok (.file contents))
    (ht : first.Rewritten logs (i.allCopies first files) t) : i.Duplicated logs first t where
  source := hfiles.source
  nonempty := by
    obtain ⟨source, hmem⟩ := List.exists_mem_of_ne_nil _ hne
    obtain ⟨name, contents, hplugin, -⟩ := (hfiles.all source).mp hmem
    exact ⟨name, contents, hplugin⟩
  plugins _ _ hplugin := plugin_of_rewritten h hfiles hconfig hplugin ht
  config := ⟨contents, hconfig, config_of_rewritten h hfiles hconfig ht⟩
  directories := ht.directories
  sources := by
    refine ⟨fun name => ?_, ?_⟩
    · apply others_of_rewritten h hfiles hconfig ht (h.visible_plugin name)
      exact not_target_source h.apart
    · apply others_of_rewritten h hfiles hconfig ht h.visible_config
      exact fun htarget => h.apart.config (directory_front_of_target htarget)
  subdirectories name hdirectory := by
    apply others_of_rewritten h hfiles hconfig ht (h.visible_copy (List.prefix_append _ _))
    rintro (⟨other, bytes, hother, heq⟩ | heq)
    · obtain rfl : name = other := List.head_eq_of_cons_eq (List.append_cancel_left heq)
      cases hdirectory.symm.trans hother.2
    · exact i.plugin_ne_configFile name heq
  others _ hvisible htarget := others_of_rewritten h hfiles hconfig ht hvisible htarget

theorem prefix_of_mem_copies (h : i.Copyable logs first) (hfiles : i.Selected first files)
    {done : List Text} (hdone : ∀ source ∈ done, source ∈ files) :
    ∀ w ∈ copies first i.layout.cniDirectory done,
      i.directory <+: (Path.reached w.1).dropLast := by
  intro w hw
  obtain ⟨source, hsource, rfl⟩ := List.mem_map.mp hw
  obtain ⟨name, contents, hplugin, rfl⟩ := (hfiles.all source).mp (hdone source hsource)
  have hname := h.isName hplugin
  simp [Path.baseName_join _ hname, i.reached_plugin hname]

/-- One more plugin is copied. -/
theorem spec_copyListed {s : NodeState} {done : List Text} (h : i.Copyable logs first)
    (hfiles : i.Selected first files) (hdone : ∀ other ∈ done, other ∈ files)
    (hsource : source ∈ files) :
    Spec (Logging s (first.Rewritten logs (copies first i.layout.cniDirectory done)))
      (copyInto i.layout.cniDirectory source)
      (fun _ => Logging s
        (first.Rewritten logs (copies first i.layout.cniDirectory (done ++ [source]))))
      fun _ => True := by
  obtain ⟨name, contents, hplugin, rfl⟩ := (hfiles.all source).mp hsource
  have hreached := Path.reached_join i.plugins (h.isName hplugin)
  have houtside : ¬ i.directory <+: (Path.reached (Path.join i.plugins name)).dropLast := by
    rw [hreached, List.dropLast_concat]
    exact h.apart.plugins
  have hvisible : ¬ logs (Path.reached (Path.join i.plugins name)) :=
    hreached ▸ h.visible_plugin name
  refine (spec_copyNext (prefix_of_mem_copies h hfiles hdone) houtside hvisible).ending ?_
  rintro _ s' ⟨hfile, -, ht⟩
  rw [copies, List.map_append]
  exact ⟨hfile, ht⟩

/-- When everything is copied, the files are. -/
theorem spec_duplicate {s : NodeState} (h : i.Copyable s.host.LogsAt first)
    (hn : install? n = some i) :
    Spec (Logging s (first.Rewritten s.host.LogsAt [])) (copyFiles n)
      (fun _ => Logging s (i.Duplicated s.host.LogsAt first)) fun _ => True := by
  obtain ⟨hlayout, -, hpath⟩ := of_install? hn
  have hlog : ∀ {ws} (level : LogLevel) (message : Text),
      Spec (Logging s (first.Rewritten s.host.LogsAt ws)) (NodeStep.log level message)
        (fun _ => Logging s (first.Rewritten s.host.LogsAt ws)) fun _ => True :=
    fun level message => spec_loggingLog tolerates_rewritten (fun _ h => h) level message
  have hcopies : Spec (Logging s (first.Rewritten s.host.LogsAt [])) (copyFiles n)
      (fun _ s' => ∃ files contents, i.Selected first files ∧ files ≠ [] ∧
        first.status i.config = .ok (.file contents) ∧
          Logging s (first.Rewritten s.host.LogsAt (i.allCopies first files)) s')
      fun _ => True := by
    apply spec_copyFiles_of_parts (M := fun done => Logging s
      (first.Rewritten s.host.LogsAt (copies first i.layout.cniDirectory done)))
      (spec_selectPlugins h hn)
    · exact fun _ _ _ => trivial
    · intro files done source hfiles hdone hsource
      rw [hlayout]
      exact spec_copyListed h hfiles hdone hsource
    · exact fun _ _ _ _ => trivial
    · intro files config hfiles hne hconfig
      obtain rfl : i.config = config := Option.some.inj (hpath.symm.trans hconfig)
      rw [hlayout]
      have houtside : ¬ i.directory <+: (Path.reached i.config).dropLast := fun hbelow =>
        h.apart.config (hbelow.trans (List.dropLast_prefix _))
      refine (spec_copyNext (prefix_of_mem_copies h hfiles fun _ hmem => hmem) houtside
        h.visible_config).ending ?_
      rintro _ s' ⟨hfile, ⟨contents, hcontents⟩, ht⟩
      exact ⟨files, contents, hfiles, hne, hcontents, hfile, ht⟩
    · exact fun _ => hlog
    · rintro level message s' ⟨files, contents, hfiles, hne, hcontents, hs⟩
      refine (hlog level message s' hs).mono ?_ fun _ h => h
      exact fun _ last hlast => ⟨files, contents, hfiles, hne, hcontents, hlast⟩
  refine hcopies.ending ?_
  rintro _ s' ⟨files, contents, hfiles, hne, hcontents, hfile, ht⟩
  exact ⟨hfile, duplicated_of_rewritten h hfiles hne hcontents ht⟩

/-! ## Copying again -/

/-- A tree that has come of another by logging alone, on a host that breaks nothing off. -/
structure Unchanged (logs : List Text → Prop) (first t : FileTree) : Prop where
  quiet : t.troubles = []
  same : first.Rewritten logs [] t

theorem Unchanged.at?_eq (h : Unchanged logs first t) (hvisible : ¬ logs place) :
    t.at? place = first.at? place := h.same.at?_eq hvisible (lastOf_nil _)

theorem Unchanged.status {path : Text} (h : Unchanged logs first t)
    (hvisible : ¬ logs (Path.reached path)) (hpath : first.status path = .ok (.file contents)) :
    t.status path = .ok (.file contents) :=
  status_mono (fun q => (h.same.directories q).mpr) (fun hat => (h.at?_eq hvisible).trans hat) hpath

/-- Writing what a file holds changes nothing. -/
theorem Unchanged.put {path : Text} (h : Unchanged logs first t)
    (hpath : t.status path = .ok (.file contents)) :
    Unchanged logs first (t.put (Path.reached path) (.file contents)) := by
  obtain ⟨hwritable, hat⟩ := writable_of_status hpath
  refine ⟨h.quiet, fun q => ?_, fun q hq => ?_, h.same.paths⟩
  · exact (at?_put_directory hwritable q).trans (h.same.directories q)
  · rw [at?_put_file hwritable]
    split
    next heq =>
      rw [← hat, heq]
      exact h.same.places q hq
    next => exact h.same.places q hq

theorem tolerates_unchanged :
    Tolerates (fun _ => False) logs (Unchanged logs first) fun _ => True where
  passes t ht := by
    refine ⟨?_, steady_rewritten t _ ht.same⟩
    show t.troubles.tail = []
    rw [ht.quiet]
    rfl
  makes _ _ _ _ _ hmade _ := hmade.elim
  writes t path place contents ht hwritable hlogs :=
    ⟨ht.quiet, tolerates_rewritten.writes t path place contents ht.same hwritable hlogs⟩
  troubles _ _ _ _ := trivial
  refused _ _ := trivial
  sameFile _ _ := trivial

/-- A file is copied onto one that holds the same. -/
theorem spec_copyAgain {s : NodeState} {directory : Text}
    (hsource : first.status source = .ok (.file contents))
    (hcopy : first.status (Path.join directory (Path.baseName source)) = .ok (.file contents))
    (hvisible : ¬ logs (Path.reached source))
    (hvisible' : ¬ logs (Path.reached (Path.join directory (Path.baseName source))))
    (hne : Path.reached source ≠ Path.reached (Path.join directory (Path.baseName source))) :
    Spec (Logging s (Unchanged logs first)) (copyInto directory source)
      (fun _ => Logging s (Unchanged logs first)) fun _ => False := by
  have hfile : Spec (Unchanged logs first)
      (copy source (Path.join directory (Path.baseName source)))
      (fun _ => Unchanged logs first) fun _ => False := by
    intro t ht
    have hdestination := ht.status hvisible' hcopy
    rw [run_copy ht.quiet (ht.status hvisible hsource) hdestination hne]
    exact ht.put hdestination
  unfold copyInto
  exact spec_bind ((spec_operation_ends (fun _ _ hlog => hlog) hfile).failing fun _ h => h.2)
    fun _ => spec_pure _ fun _ hs => hs

/-- The plugins are listed again. -/
theorem spec_selectAgain {s : NodeState} (h : i.Copyable logs first) (hn : install? n = some i)
    (hplugins : first.status i.plugins = .ok .directory) :
    Spec (Logging s (Unchanged logs first)) (pluginFiles n)
      (fun files s' => i.Selected first files ∧ Logging s (Unchanged logs first) s')
      fun _ => False := by
  have hlist : Spec (Unchanged logs first) (ask (·.list i.plugins))
      (fun _ => Unchanged logs first) fun _ => False := by
    intro t ht
    have hstatus := status_directory_mono (fun q => (ht.same.directories q).mpr) hplugins
    obtain ⟨names, hnames⟩ := list_of_status hstatus
    rw [run_ask ht.quiet, hnames]
    exact ht
  have hgoes : Spec (Logging s (Unchanged logs first)) (pluginFiles n)
      (fun _ => Logging s (Unchanged logs first)) fun _ => False := by
    obtain ⟨-, hpath, -⟩ := of_install? hn
    unfold pluginFiles
    rw [hpath]
    refine spec_bind ((spec_operation_ends (fun _ _ hlog => hlog) hlist).failing
      fun _ h => h.2) fun names => spec_bind spec_get fun before => ?_
    rintro _ ⟨rfl, hs⟩
    exact hs
  have hselect : Spec (Logging s (Unchanged logs first)) (pluginFiles n)
      (fun files s' => i.Selected first files ∧ Logging s (first.Rewritten logs []) s')
      fun _ => True := (spec_selectPlugins h hn).since fun _ hs => ⟨hs.1, hs.2.same⟩
  refine (hgoes.and hselect).weaken (fun _ hs => ⟨hs, hs⟩) ?_ fun _ hs => hs.1
  exact fun files s' hs => ⟨hs.2.1, hs.1⟩

theorem spec_copyPluginAgain {s : NodeState} (h : i.Copyable logs first)
    (hd : i.Duplicated logs first first) (hplugin : i.Plugin first name contents) :
    Spec (Logging s (Unchanged logs first))
      (copyInto i.layout.cniDirectory (Path.join i.plugins name))
      (fun _ => Logging s (Unchanged logs first)) fun _ => False := by
  have hname := h.isName hplugin
  have hreached := Path.reached_join i.plugins hname
  have hreached' := i.reached_plugin hname
  apply spec_copyAgain ((status_source hname hd.source).mpr hplugin)
  · rw [Path.baseName_join _ hname]
    exact hd.plugins name contents hplugin
  · rw [hreached]
    exact h.visible_plugin name
  · rw [Path.baseName_join _ hname, hreached']
    exact h.visible_copy (List.prefix_append _ _)
  · rw [Path.baseName_join _ hname, hreached, hreached']
    intro heq
    exact h.apart.plugins ((List.append_inj' heq rfl).1 ▸ List.prefix_refl _)

theorem spec_copyConfigAgain {s : NodeState} (h : i.Copyable logs first)
    (hd : i.Duplicated logs first first) :
    Spec (Logging s (Unchanged logs first)) (copyInto i.layout.cniConfigDirectory i.config)
      (fun _ => Logging s (Unchanged logs first)) fun _ => False := by
  obtain ⟨contents, hsource, hcopy⟩ := hd.config
  have hreached := i.reached_config (h.base contents hsource)
  have hfront := i.directory_front_configFile
  apply spec_copyAgain hsource hcopy h.visible_config
  · rw [hreached]
    exact h.visible_copy hfront
  · rw [hreached]
    intro heq
    exact h.apart.config (heq ▸ hfront)

/-- Where all copies are, copying goes through and changes nothing. -/
theorem spec_duplicateAgain {s : NodeState} (h : i.Copyable s.host.LogsAt first)
    (hn : install? n = some i) (hd : i.Duplicated s.host.LogsAt first first) :
    Spec (Logging s (Unchanged s.host.LogsAt first)) (copyFiles n)
      (fun _ => Logging s (Unchanged s.host.LogsAt first)) fun _ => False := by
  have hlog : ∀ (level : LogLevel) (message : Text),
      Spec (Logging s (Unchanged s.host.LogsAt first)) (NodeStep.log level message)
        (fun _ => Logging s (Unchanged s.host.LogsAt first)) fun _ => False :=
    spec_loggingLog tolerates_unchanged fun _ h => h
  obtain ⟨hlayout, -, hpath⟩ := of_install? hn
  apply spec_copyFiles_of_parts (M := fun _ => Logging s (Unchanged s.host.LogsAt first))
    (spec_selectAgain h hn hd.source)
  · intro hnone
    obtain ⟨name, contents, hsome⟩ := hd.nonempty
    exact absurd ((hnone.all _).mpr ⟨name, contents, hsome, rfl⟩) List.not_mem_nil
  · intro files done source hfiles _ hsource
    obtain ⟨name, contents, hplugin, rfl⟩ := (hfiles.all source).mp hsource
    rw [hlayout]
    exact spec_copyPluginAgain h hd hplugin
  · intro hunset
    cases hunset.symm.trans hpath
  · intro files config _ _ hset
    obtain rfl : i.config = config := Option.some.inj (hpath.symm.trans hset)
    rw [hlayout]
    exact spec_copyConfigAgain h hd
  · exact fun _ => hlog
  · exact hlog

/-- What has been copied is there to be copied again. -/
theorem Duplicated.again {t' : FileTree} (hd : i.Duplicated logs first t)
    (h : i.Copyable logs first) (hsame : ∀ q, t'.at? q = t.at? q) :
    i.Copyable logs t' ∧ i.Duplicated logs t' t' := by
  have hplugin : ∀ name contents, i.Plugin t' name contents ↔ i.Plugin first name contents := by
    intro name contents
    rw [Plugin, Plugin, hsame, hd.sources.1]
  have hdirectories : ∀ q, t'.at? q = some .directory ↔ first.at? q = some .directory :=
    fun q => hsame q ▸ hd.directories q
  have hconfig : ∀ contents, first.status i.config = .ok (.file contents) ↔
      t'.status i.config = .ok (.file contents) := by
    intro contents
    have hat : t'.at? (Path.reached i.config) = first.at? (Path.reached i.config) :=
      (hsame _).trans hd.sources.2
    constructor
    · exact status_mono (fun q => (hdirectories q).mpr) fun hfile => hat.trans hfile
    · exact status_mono (fun q => (hdirectories q).mp) fun hfile => hat.symm.trans hfile
  constructor
  · refine ⟨h.apart, fun name hname => h.names name ?_, fun contents hfile => ?_, h.logs⟩
    · rw [← hd.sources.1, ← hsame]
      exact hname
    · exact h.base contents ((hconfig contents).mpr hfile)
  · refine ⟨?_, ?_, ?_, ?_, fun _ => Iff.rfl, ⟨fun _ => rfl, rfl⟩, fun _ _ => rfl, fun _ _ _ => rfl⟩
    · exact status_directory_mono (fun q => (hdirectories q).mpr) hd.source
    · obtain ⟨name, contents, hsome⟩ := hd.nonempty
      exact ⟨name, contents, (hplugin name contents).mpr hsome⟩
    · intro name contents hsome
      rw [status_congr hsame]
      exact hd.plugins name contents ((hplugin name contents).mp hsome)
    · obtain ⟨contents, hsource, hcopy⟩ := hd.config
      refine ⟨contents, (hconfig contents).mp hsource, ?_⟩
      rw [status_congr hsame]
      exact hcopy

end Install

/-- When the plugins and their config have been copied, the copies are there and nothing else has
changed. Copying again then goes through and changes nothing, if nothing breaks it off. Paths are
relative to the working directory, and an absolute one names nothing. -/
theorem copyFiles_exact {n : Node} {i : Install} {s s' : NodeState} (hn : install? n = some i)
    (hi : i.Apart) (hsound : s.host.files.Sound)
    (hlogs : ∀ place, s.host.LogsAt place → ¬ i.Uses place)
    (hrun : (copyFiles n).run.run s = (.ok (), s')) :
    i.Duplicated s.host.LogsAt s.host.files s'.host.files ∧
      s'.host.journal.file = s.host.journal.file ∧
        ∀ again : NodeState, again.host.files.troubles = [] →
          again.host.journal.file = s'.host.journal.file →
            (∀ place, again.host.files.at? place = s'.host.files.at? place) →
              ∃ last, (copyFiles n).run.run again = (.ok (), last) ∧
                ∀ place, ¬ s.host.LogsAt place →
                  last.host.files.at? place = s'.host.files.at? place := by
  have hcopyable : i.Copyable s.host.LogsAt s.host.files :=
    ⟨hi, fun name hname => hsound.names _ hname name (by simp),
      fun _ hconfig => hsound.isName_baseName hconfig, hlogs⟩
  have hend : Install.Duplicated i s.host.LogsAt s.host.files s'.host.files ∧
      s'.host.journal.file = s.host.journal.file :=
    ((Install.spec_duplicate hcopyable hn).ended ⟨rfl, Rewritten.refl _ _⟩ hrun).symm
  obtain ⟨hduplicated, hfile⟩ := hend
  refine ⟨hduplicated, hfile, ?_⟩
  intro again hquiet hfile' hsame
  have hlogsAt : again.host.LogsAt = s.host.LogsAt := by
    funext place
    simp [Host.LogsAt, hfile', hfile]
  obtain ⟨hcopyable', hduplicated'⟩ := hduplicated.again hcopyable hsame
  rw [← hlogsAt] at hcopyable' hduplicated'
  have hagain := Install.spec_duplicateAgain hcopyable' hn hduplicated' again
    ⟨rfl, hquiet, Rewritten.refl _ _⟩
  generalize hrun' : (copyFiles n).run.run again = run at hagain
  obtain ⟨outcome, last⟩ := run
  cases outcome with
  | error _ => exact hagain.elim
  | ok _ =>
    refine ⟨last, rfl, fun place hvisible => ?_⟩
    rw [← hlogsAt] at hvisible
    exact (hagain.2.at?_eq hvisible).trans (hsame place)

/-- Where the plugin goes is another file, and beside it a file that no copy is for. -/
def crowdedFiles : FileTree :=
  ⟨[([text "k"], .directory), ([text "k", text "cni"], .directory),
    ([text "k", text "cni", text "config"], .directory),
    ([text "k", text "cni", text "a"], .file [0]), ([text "k", text "cni", text "b"], .file [0]),
    ([text "p"], .directory), ([text "p", text "a"], .file [1]), ([text "c"], .file [2])], []⟩

def crowdedState : NodeState := ⟨{ Host.empty with files := crowdedFiles }, [], []⟩

theorem copyFiles_exact_crowded :
    ∃ once, (copyFiles (briefNode (text "kubelet"))).run.run crowdedState = (.ok (), once) ∧
      briefInstall.Duplicated crowdedState.host.LogsAt crowdedFiles once.host.files ∧
        ∃ twice, (copyFiles (briefNode (text "kubelet"))).run.run once = (.ok (), twice) ∧
          ∀ place, twice.host.files.at? place = once.host.files.at? place := by
  have hran : ((copyFiles (briefNode (text "kubelet"))).run.run crowdedState).1.isOk = true := by
    decide +kernel
  have hnolog : ∀ place, ¬ crowdedState.host.LogsAt place := by
    rintro place ⟨file, hfile, -⟩
    cases hfile
  obtain ⟨hduplicated, -, hagain⟩ := copyFiles_exact (n := briefNode (text "kubelet"))
    (i := briefInstall) rfl (by decide) (by decide : crowdedFiles.Sound)
    (fun place hlog => absurd hlog (hnolog place)) (eq_mk_of_isOk hran)
  obtain ⟨twice, htwice, hsame⟩ := hagain _ (by decide +kernel) rfl fun _ => rfl
  exact ⟨_, eq_mk_of_isOk hran, hduplicated, twice, htwice, fun place => hsame place (hnolog place)⟩

end NodeBootstrap.Cni
