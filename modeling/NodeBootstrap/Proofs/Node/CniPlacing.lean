import NodeBootstrap.Proofs.FileTree.Operations
import NodeBootstrap.Proofs.Ignition.Effects
import NodeBootstrap.Proofs.Node.CniFiles

/-!
# Plugins in place

When copying the plugins comes to its end, each file that was in their directory at first, and their
config, is where the kubelet looks for it (`Cni.InPlace`). That the sources lie outside the install
directory is not needed: a file that is copied onto itself is a failure, so a copy that goes through
does not touch its own source, and the plugins are never copied onto another's source.

A host may log to a file, which is not one of the files here: of the places that it logs to nothing
is said.
-/

set_option autoImplicit false

namespace NodeBootstrap.Cni

open FileTree

/-- The plugins that were there at first and their config are where the kubelet looks for them, but
for places that are logged to. -/
structure InPlace (n : Node) (logs : List Text → Prop) (first t : FileTree) : Prop where
  plugins : ∀ (path name : Text) (contents : Bytes), n.cniPath = some path → Path.IsName name →
    first.status (Path.join path name) = .ok (.file contents) →
      ¬ logs (Path.reached (Path.join path name)) →
        ¬ logs (Path.reached (Path.join n.layout.cniDirectory name)) →
          t.status (Path.join n.layout.cniDirectory name) = .ok (.file contents)
  config : ∃ path, n.cniConfig = some path ∧
    (¬ logs (Path.reached path) →
      ¬ logs (Path.reached (Path.join n.layout.cniConfigDirectory (Path.baseName path))) →
        ∃ contents, t.status path = .ok (.file contents) ∧
          t.status (Path.join n.layout.cniConfigDirectory (Path.baseName path)) =
            .ok (.file contents) ∧
          ∀ before, first.status path = .ok (.file before) →
            ¬ Path.reached n.layout.cniDirectory <+: Path.reached path → contents = before)

/-- A sound tree that has come of another by making directories, and by writing files at some
places. -/
structure Grown (touched : List Text → Prop) (first t : FileTree) : Prop where
  sound : t.Sound
  directories : ∀ place, first.at? place = some .directory → t.at? place = some .directory
  files : ∀ place contents, ¬ touched place → first.at? place = some (.file contents) →
    t.at? place = some (.file contents)

variable {n : Node} {first s : NodeState} {touched logs : List Text → Prop} {before t : FileTree}
  {plugins name : Text}
  {place : List Text} {contents : Bytes}

theorem steady_grown : Steady (Grown touched before) := fun t troubles ht =>
  ⟨steady_sound t troubles ht.sound, ht.directories, ht.files⟩

theorem Grown.refl (ht : t.Sound) : Grown touched t t :=
  ⟨ht, fun _ h => h, fun _ _ _ h => h⟩

theorem Grown.mono {touched' : List Text → Prop} (h : Grown touched before t)
    (hmore : ∀ place, touched place → touched' place) : Grown touched' before t :=
  ⟨h.sound, h.directories, fun place contents hnot =>
    h.files place contents (mt (hmore place) hnot)⟩

/-- A file is written at a place of those. -/
theorem Grown.write {path : Text} (h : Grown touched before t)
    (hwritable : t.writable path = .ok place) (hplace : touched place) (contents : Bytes) :
    Grown touched before (t.put place (.file contents)) := by
  obtain ⟨hfound, hat⟩ := writable_eq_ok hwritable
  refine ⟨h.sound.put hfound hat, fun other hother => ?_, fun other bytes hnot hother => ?_⟩
  · exact (at?_put_directory hwritable other).mpr (h.directories other hother)
  · rw [at?_put_file hwritable, if_neg]
    · exact h.files other bytes hnot hother
    · rintro rfl
      exact hnot hplace

/-- Directories may be made anywhere. -/
theorem tolerates_grown :
    Tolerates (fun _ => True) touched (Grown touched before) fun _ => True where
  passes t ht := steady_grown t _ ht
  makes t path place ht hfound _ hat := by
    have hnot : t.at? place ≠ some .directory := by
      rw [hat]
      exact nofun
    exact ⟨ht.sound.put hfound hnot,
      fun other hother => at?_put_new hat (ht.directories other hother),
      fun other bytes hother hfile => at?_put_new hat (ht.files other bytes hother hfile)⟩
  writes _ _ _ contents ht hwritable hplace := ht.write hwritable hplace contents
  troubles _ _ _ _ := trivial
  refused _ _ := trivial
  sameFile _ _ := trivial

/-- A file that was not touched is found as before. -/
theorem Grown.status {path : Text} (h : Grown touched before t)
    (hplace : ¬ touched (Path.reached path)) (hpath : before.status path = .ok (.file contents)) :
    t.status path = .ok (.file contents) :=
  status_mono h.directories (h.files _ contents hplace) hpath

/-- A node that logs to what another logs to, by its files. -/
def Logging (first : NodeState) (P : FileTree → Prop) (s : NodeState) : Prop :=
  s.host.journal.file = first.host.journal.file ∧ P s.host.files

section Logging

variable {α : Type} {made written : List Text → Prop} {P : FileTree → Prop}
  {Q : α → FileTree → Prop}

theorem endures_logging (h : Tolerates made written P fun _ => True) :
    Endures made written (Logging first P) fun _ => True := fun _ =>
  { passes := fun t ht => ⟨ht.1, h.passes t ht.2⟩
    makes := fun t path place ht hfound hmade hat =>
      ⟨ht.1, h.makes t path place ht.2 hfound hmade hat⟩
    writes := fun t path place bytes ht hwritable hwritten =>
      ⟨ht.1, h.writes t path place bytes ht.2 hwritable hwritten⟩
    troubles := fun _ _ _ _ => trivial
    refused := fun _ _ => trivial
    sameFile := fun _ _ => trivial }

/-- Logging only writes what is logged to. -/
theorem outlivesLogs_logging (h : Tolerates made written P fun _ => True)
    (hlogs : ∀ place, first.host.LogsAt place → written place) :
    OutlivesLogs (Logging first P) := by
  rintro s level message ⟨hfile, hfiles⟩
  refine ⟨(s.host.logged_file level message).trans hfile, ?_⟩
  exact logged_tolerated h (fun file hlog => hlogs _ ⟨file, hfile ▸ hlog, rfl⟩) hfiles _ _

theorem spec_loggingLog {E : NodeState → Prop} (h : Tolerates made written P fun _ => True)
    (hlogs : ∀ place, first.host.LogsAt place → written place) (level : LogLevel)
    (message : Text) :
    Spec (Logging first P) (NodeStep.log level message) (fun _ => Logging first P) E :=
  fun s hs => outlivesLogs_logging h hlogs s level message hs

/-- An operation on files ends on the node as it ends on the files. -/
theorem spec_logging {area : FileFault → Failure} {step : FileStep α}
    (h : Spec P step Q fun _ => True) :
    Spec (Logging first P) (Host.onFiles area step : NodeStep α) (fun a => Logging first (Q a))
      fun _ => True :=
  spec_operation (fun _ _ hfile => hfile) h

end Logging

/-! ## Copying -/

/-- The places that plugins are copied to. -/
def PluginPlace (n : Node) (place : List Text) : Prop :=
  ∃ name, place = Path.reached n.layout.cniDirectory ++ [name]

/-- A tree in which some plugins have been copied: those among `done`. -/
structure Copying (n : Node) (logs : List Text → Prop) (first : FileTree) (path : Text)
    (done : List Text) (t : FileTree) : Prop where
  grown : Grown (fun place => logs place ∨ PluginPlace n place) first t
  copied : ∀ name contents, Path.IsName name → Path.join path name ∈ done →
    first.status (Path.join path name) = .ok (.file contents) →
      ¬ logs (Path.reached (Path.join path name)) →
        ¬ logs (Path.reached (Path.join n.layout.cniDirectory name)) →
          t.status (Path.join n.layout.cniDirectory name) = .ok (.file contents)

variable {done : List Text} {path : Text}

theorem steady_copying : Steady (Copying n logs before path done) := fun t troubles ht =>
  ⟨steady_grown t troubles ht.grown, fun name contents hname hmem hfirst hsource hplace =>
    steady_status _ _ t troubles (ht.copied name contents hname hmem hfirst hsource hplace)⟩

/-- Nothing but the log is written. -/
theorem tolerates_copying :
    Tolerates (fun _ => False) logs (Copying n logs before path done) fun _ => True where
  passes t ht := steady_copying t _ ht
  makes _ _ _ _ _ hmade _ := hmade.elim
  writes t file place contents ht hwritable hlogs := by
    refine ⟨ht.grown.write hwritable (.inl hlogs) contents, ?_⟩
    intro name bytes hname hmem hfirst hsource hplace
    refine status_put_ne hwritable ?_ (ht.copied name bytes hname hmem hfirst hsource hplace) _
    rintro rfl
    exact hplace hlogs
  troubles _ _ _ _ := trivial
  refused _ _ := trivial
  sameFile _ _ := trivial

theorem tolerates_inPlace :
    Tolerates (fun _ => False) logs (InPlace n logs before) fun _ => True where
  passes t ht := by
    refine ⟨fun path name contents hpath hname hfirst hsource hplace => ?_, ?_⟩
    · exact steady_status _ _ t _ (ht.plugins path name contents hpath hname hfirst hsource hplace)
    · obtain ⟨path, hpath, hconfig⟩ := ht.config
      refine ⟨path, hpath, fun hsource hplace => ?_⟩
      obtain ⟨contents, hstatus, hcopied, hsame⟩ := hconfig hsource hplace
      exact ⟨contents, steady_status _ _ t _ hstatus, steady_status _ _ t _ hcopied, hsame⟩
  makes _ _ _ _ _ hmade _ := hmade.elim
  writes t file place bytes ht hwritable hlogs := by
    have hkeep : ∀ {path contents}, ¬ logs (Path.reached path) →
        t.status path = .ok (.file contents) →
          (t.put place (.file bytes)).status path = .ok (.file contents) := by
      intro path contents hpath hstatus
      refine status_put_ne hwritable ?_ hstatus bytes
      rintro rfl
      exact hpath hlogs
    refine ⟨fun path name contents hpath hname hfirst hsource hplace => ?_, ?_⟩
    · exact hkeep hplace (ht.plugins path name contents hpath hname hfirst hsource hplace)
    · obtain ⟨path, hpath, hconfig⟩ := ht.config
      refine ⟨path, hpath, fun hsource hplace => ?_⟩
      obtain ⟨contents, hstatus, hcopied, hsame⟩ := hconfig hsource hplace
      exact ⟨contents, hkeep hsource hstatus, hkeep hplace hcopied, hsame⟩
  troubles _ _ _ _ := trivial
  refused _ _ := trivial
  sameFile _ _ := trivial

/-- One more plugin is copied. -/
theorem Copying.write {source : Text} (h : Copying n logs before path done t)
    (hname : Path.IsName name) (hsource : source = Path.join path name)
    (hstatus : t.status source = .ok (.file contents))
    (hwritable : t.writable (Path.join n.layout.cniDirectory name) = .ok place)
    (hne : Path.reached source ≠ place) :
    Copying n logs before path (done ++ [source]) (t.put place (.file contents)) := by
  have hreached : ∀ {other}, Path.IsName other →
      Path.reached (Path.join n.layout.cniDirectory other) =
        Path.reached n.layout.cniDirectory ++ [other] := Path.reached_join _
  have hplace : place = Path.reached n.layout.cniDirectory ++ [name] :=
    (eq_reached (writable_eq_ok hwritable).1).trans (hreached hname)
  refine ⟨h.grown.write hwritable (.inr ⟨name, hplace⟩) contents, ?_⟩
  intro other bytes hother hmem hfirst hlogs hlogs'
  by_cases heq : other = name
  · subst heq
    subst hsource
    have huntouched : ¬ (logs (Path.reached (Path.join path other)) ∨
        PluginPlace n (Path.reached (Path.join path other))) := by
      rintro (hlog | ⟨last, hlast⟩)
      · exact hlogs hlog
      · rw [Path.reached_join path hother] at hlast hne
        have hlast' := (List.append_inj' hlast rfl).2
        exact hne (by rw [hplace, hlast, hlast'])
    have hsame := (h.grown.status huntouched hfirst).symm.trans hstatus
    obtain rfl : bytes = contents := FileNode.file.inj (Except.ok.inj hsame)
    exact status_put_self hwritable bytes
  · have hdone : Path.join path other ∈ done := by
      rcases List.mem_append.mp hmem with hmem | hmem
      · exact hmem
      · have hjoin := congrArg Path.baseName ((List.mem_singleton.mp hmem).trans hsource)
        rw [Path.baseName_join _ hother, Path.baseName_join _ hname] at hjoin
        exact absurd hjoin heq
    refine status_put_ne hwritable ?_ (h.copied other bytes hother hdone hfirst hlogs hlogs') _
    rw [hreached hother, hplace]
    exact fun h => heq (List.head_eq_of_cons_eq (List.append_cancel_left h))

/-- What is listed in the directory of the plugins are names, and all plugins are listed. -/
structure Listed (logs : List Text → Prop) (first : FileTree) (path : Text) (files : List Text) :
    Prop where
  named : ∀ source ∈ files, ∃ name, Path.IsName name ∧ source = Path.join path name
  all : ∀ name contents, Path.IsName name →
    first.status (Path.join path name) = .ok (.file contents) →
      ¬ logs (Path.reached (Path.join path name)) → Path.join path name ∈ files

theorem listed_of_list {names : List Text} (h : Grown logs before t)
    (hlist : t.list path = .ok names) :
    Listed logs before path ((names.map (Path.join path ·)).filter t.isFile) := by
  obtain ⟨-, -, -, hnames⟩ := list_eq_ok hlist
  refine ⟨fun source hsource => ?_, fun name contents hname hfirst hlogs => ?_⟩
  · obtain ⟨name, hname, rfl⟩ := List.mem_map.mp (List.mem_filter.mp hsource).1
    refine ⟨name, ?_, rfl⟩
    exact h.sound.names _ ((hnames name).mp hname) name
      (List.mem_append_right _ (List.mem_singleton.mpr rfl))
  · have hstatus := h.status hlogs hfirst
    obtain ⟨-, hnode⟩ := status_eq_ok.mp hstatus
    obtain ⟨found, hfound, hat, -⟩ := nodeOf_eq_ok.mp hnode
    rw [eq_reached hfound, Path.reached_join path hname] at hat
    refine List.mem_filter.mpr ⟨List.mem_map.mpr ⟨name, (hnames name).mpr ?_, rfl⟩, ?_⟩
    · rw [hat]
      exact Option.some_ne_none _
    · exact isFile_iff.mpr ⟨contents, hstatus⟩

/-- The plugins are listed, and so far none is copied. -/
theorem spec_pluginFiles (hpath : n.cniPath = some path) :
    Spec (Logging first (Grown logs before)) (pluginFiles n)
      (fun files s => Listed logs before path files ∧
        Logging first (Copying n logs before path []) s)
      fun _ => True := by
  unfold pluginFiles
  rw [hpath]
  refine spec_bind (spec_logging ((spec_ask steady_grown _).failing fun _ _ => trivial)) ?_
  intro names
  refine spec_bind spec_get fun s => ?_
  rintro _ ⟨rfl, hfile, hlist, hgrown⟩
  exact ⟨listed_of_list hgrown hlist, hfile, hgrown.mono fun _ => .inl, by simp⟩

/-- One more plugin is copied. -/
theorem spec_copyPlugin {files : List Text} {source : Text}
    (hfiles : Listed logs before path files) (hsource : source ∈ files) :
    Spec (Logging first (Copying n logs before path done))
      (copyInto n.layout.cniDirectory source)
      (fun _ => Logging first (Copying n logs before path (done ++ [source]))) fun _ => True := by
  obtain ⟨name, hname, hjoin⟩ := hfiles.named source hsource
  refine spec_bind (spec_logging (spec_copy steady_copying (fun _ _ => trivial)
    (fun _ _ _ _ _ => trivial) ?_)) fun _ => spec_pure _ fun _ hs => hs
  intro t place contents ht hstatus hwritable hne
  rw [hjoin, Path.baseName_join _ hname] at hwritable
  exact ht.write hname hjoin hstatus hwritable hne

/-- With the config everything is in place. -/
theorem Copying.inPlace {files : List Text} {config : Text}
    (h : Copying n logs before path files t) (hfiles : Listed logs before path files)
    (hpath : n.cniPath = some path) (hconfig : n.cniConfig = some config)
    (hstatus : t.status config = .ok (.file contents))
    (hwritable :
      t.writable (Path.join n.layout.cniConfigDirectory (Path.baseName config)) = .ok place)
    (hne : Path.reached config ≠ place) : InPlace n logs before (t.put place (.file contents)) := by
  have hbase := h.grown.sound.isName_baseName hstatus
  have hplace : place =
      Path.reached n.layout.cniDirectory ++ [text "config", Path.baseName config] := by
    rw [eq_reached (writable_eq_ok hwritable).1, Path.reached_join _ hbase,
      InstallLayout.cniConfigDirectory, Path.reached_join _ Install.isName_config, List.append_assoc]
    rfl
  refine ⟨fun path' name bytes hpath' hname hfirst hlogs hlogs' => ?_, config, hconfig, ?_⟩
  · obtain rfl : path = path' := Option.some.inj (hpath.symm.trans hpath')
    have hcopied := h.copied name bytes hname (hfiles.all name bytes hname hfirst hlogs) hfirst
      hlogs hlogs'
    refine status_put_ne hwritable ?_ hcopied _
    rw [Path.reached_join _ hname, hplace]
    exact fun heq => nomatch (List.cons.inj (List.append_cancel_left heq)).2
  · intro hlogs _
    refine ⟨contents, status_put_ne hwritable hne hstatus _, status_put_self hwritable _, ?_⟩
    intro bytes hfirst houtside
    have huntouched : ¬ (logs (Path.reached config) ∨ PluginPlace n (Path.reached config)) := by
      rintro (hlog | ⟨name, hname⟩)
      · exact hlogs hlog
      · exact houtside (hname ▸ List.prefix_append _ _)
    have hsame := hstatus.symm.trans (h.grown.status huntouched hfirst)
    exact FileNode.file.inj (Except.ok.inj hsame)

/-- When everything is copied, the files are in place. -/
theorem spec_copyFiles (hlogs : ∀ place, first.host.LogsAt place → logs place) :
    Spec (Logging first (Grown logs before)) (copyFiles n)
      (fun _ => Logging first (InPlace n logs before)) fun _ => True := by
  have hnoFiles : n.cniPath = none → Spec (Logging first (Grown logs before)) (pluginFiles n)
      (fun files _ => files = []) fun _ => True := by
    intro hpath
    unfold pluginFiles
    rw [hpath]
    refine spec_bind (spec_logging ((spec_ask steady_grown _).failing fun _ _ => trivial)) ?_
    intro names
    dsimp only
    split
    next => exact spec_pure _ fun _ _ => rfl
    next => exact spec_throw _ fun _ _ => trivial
  cases hpath : n.cniPath with
  | none =>
    unfold copyFiles
    refine spec_bind (hnoFiles hpath) fun files => ?_
    rintro s rfl
    exact trivial
  | some path =>
    apply spec_copyFiles_of_parts (M := fun done => Logging first (Copying n logs before path done))
      (spec_pluginFiles hpath)
    · exact fun _ _ _ => trivial
    · exact fun _ _ _ hfiles _ hsource => spec_copyPlugin hfiles hsource
    · exact fun _ _ _ _ => trivial
    · intro files config hfiles _ hconfig
      refine spec_bind (spec_logging (spec_copy steady_copying (fun _ _ => trivial)
        (fun _ _ _ _ _ => trivial) ?_)) fun _ => spec_pure _ fun _ hs => hs
      intro t place contents ht hstatus hwritable hne
      exact ht.inPlace hfiles hpath hconfig hstatus hwritable hne
    · exact fun _ => spec_loggingLog tolerates_copying hlogs
    · exact spec_loggingLog tolerates_inPlace hlogs

end NodeBootstrap.Cni
