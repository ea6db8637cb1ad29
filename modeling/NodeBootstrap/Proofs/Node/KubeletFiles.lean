import NodeBootstrap.Proofs.FileTree.Changes
import NodeBootstrap.Proofs.Ignition.CollectedFlags
import NodeBootstrap.Proofs.Node.KubeletOrder

/-!
# The files of the kubelet

An installation makes directories on the way of the log directory and writes the program and the
files of the payload that have a rule, all of them in the install directory. An input that lies
outside it stays as it is, so every installation on a tree that others have been broken off on reads
the same program and the same payload (`Kubelet.keeps_ready_begun`, `Kubelet.Provided.since`). When
the files are in place, each of these places holds what the program and the payload say
(`Kubelet.Laid`), and every other what it held at first; nothing of what was begun before is left
(`Kubelet.Laid.unique`). The flags that come with the payload are the same too.
-/

set_option autoImplicit false

namespace NodeBootstrap

namespace Path

/-- The way of a joined path begins with that of the directory. -/
theorem Leads.join {directory name : Text} {place : List Text} (h : Leads directory place)
    (hname : IsName name) : Leads (Path.join directory name) place := by
  obtain ⟨front, hfront, hplace⟩ := h
  refine ⟨front, ?_, hplace⟩
  rw [names_join directory hname]
  exact hfront.trans (List.prefix_append _ _)

end Path

namespace FileTree

/-- What is found is at the place of its path. -/
theorem at?_of_status {t : FileTree} {path : Text} {node : FileNode}
    (h : t.status path = .ok node) :
    t.at? (Path.reached path) = some node := by
  obtain ⟨place, hplace, hat, -⟩ := nodeOf_eq_ok.mp (status_eq_ok.mp h).2
  rw [← eq_reached hplace]
  exact hat

end FileTree

namespace Kubelet

open FileTree Ignition OrderedMap

/-! ## What an installation changes -/

/-- The places at which an installation makes directories. -/
def Makes (n : Node) (place : List Text) : Prop := Path.Leads n.layout.logDirectory place

/-- The places at which an installation writes files: that of the program, and those of the rules
for entries of the payload. -/
inductive Writes (n : Node) (payload : Bytes) : List Text → Prop
  | program : Writes n payload (Path.reached (n.layout.file programName))
  | entry {document entry : Json} {flags : List (Text × Text)} {entries : List Json} {path : Text}
    {rule : Rule} (hload : load payload = .ok document) (hflags : declaredIn document = .ok flags)
    (hentries : files document = .ok entries) (hrule : ruleAt flags path = some rule)
    (hentry : lastEntry entries path = some entry) :
    Writes n payload (rule.place n.layout.installDirectory)

/-- A path that does not lead into the install directory. -/
def Outside (n : Node) (path : Text) : Prop :=
  ¬ Path.reached n.layout.installDirectory <+: Path.reached path

instance decidableOutside (n : Node) (path : Text) : Decidable (Outside n path) :=
  inferInstanceAs (Decidable (¬ _))

/-- The inputs of an installation on a tree, with what they hold. -/
structure Provided (n : Node) (ignition kubelet : Text) (payload program : Bytes)
    (first : FileTree) : Prop where
  ignitionFile : n.ignitionFile = some ignition
  kubeletPath : n.kubeletPath = some kubelet
  payload : first.status ignition = .ok (.file payload)
  program : first.status kubelet = .ok (.file program)
  ignition : Outside n ignition
  kubelet : Outside n kubelet

/-- A tree on which installations have been begun, since a first. -/
abbrev Begun (n : Node) (payload : Bytes) (first t : FileTree) : Prop :=
  Changed (Makes n) (Writes n payload) first t

variable {n : Node} {ignition kubelet path : Text} {payload program : Bytes}
  {first t t' : FileTree} {place : List Text} {rule : Rule} {flags : List (Text × Text)}
  {P : FileTree → Prop} {C : ServiceControl → Prop}

theorem isName_programName : Path.IsName programName := by decide

theorem isName_log : Path.IsName (text "log") := by decide

/-- No file of a payload takes the place of the program. -/
theorem place_ne_program (h : ruleAt flags path = some rule) :
    rule.place n.layout.installDirectory ≠ Path.reached (n.layout.file programName) := by
  have hdefault : ∀ e ∈ defaultRules, e.2.destination ≠ programName := by decide
  have hname : rule.destination ≠ programName := by
    rcases ruleAt_cases h with hmem | ⟨-, -, rfl⟩
    · exact hdefault _ hmem
    · decide
  intro hplace
  rw [Rule.place, Path.reached_join _ (isName_of_ruleAt h), InstallLayout.file,
    Path.reached_join _ isName_programName] at hplace
  exact hname (List.singleton_inj.mp (List.append_cancel_left hplace))

/-- Files are written in the install directory only. -/
theorem Writes.inside (h : Writes n payload place) :
    Path.reached n.layout.installDirectory <+: place := by
  cases h with
  | program =>
    rw [InstallLayout.file, Path.reached_join _ isName_programName]
    exact List.prefix_append _ _
  | entry _ _ _ hrule _ =>
    rw [Rule.place, Path.reached_join _ (isName_of_ruleAt hrule)]
    exact List.prefix_append _ _

/-- What lies outside the install directory is not written. -/
theorem Outside.not_writes (h : Outside n path) : ¬ Writes n payload (Path.reached path) :=
  fun hwrites => h hwrites.inside

/-- The inputs are there however many installations have been begun. -/
theorem Provided.since (h : Provided n ignition kubelet payload program first)
    (ht : Begun n payload first t) : Provided n ignition kubelet payload program t :=
  { h with
    payload := ht.status h.ignition.not_writes h.payload
    program := ht.status h.kubelet.not_writes h.program }

theorem Provided.inputs (h : Provided n ignition kubelet payload program t) :
    Inputs n t ignition kubelet :=
  ⟨h.ignitionFile, h.kubeletPath, isFile_iff.mpr ⟨payload, h.payload⟩,
    isFile_iff.mpr ⟨program, h.program⟩⟩

/-- The files that a walk through the payload writes are among those of the installation. -/
theorem placed_writes {document : Json} {entries : List Json} (hload : load payload = .ok document)
    (hflags : declaredIn document = .ok flags) (hentries : files document = .ok entries) :
    Placed (Writes n payload) (fun _ => True) n.layout.installDirectory
      (extendRules defaultRules (ofList flags)) entries := by
  intro members path rule hmem hrule
  refine ⟨?_, yields_trivial _⟩
  obtain ⟨hpath, hget⟩ := ruleFor_eq_some hrule
  rw [get?_extendRules] at hget
  cases hlast : lastEntry entries path with
  | none => exact absurd hpath (lastEntry_eq_none.mp hlast _ hmem)
  | some entry => exact .entry hload hflags hentries hget hlast

theorem located_begun (n : Node) (ignition kubelet : Text) (payload : Bytes) :
    Located (Makes n) (Writes n payload) (fun _ => True) n ignition kubelet where
  directory _ _ := yields_trivial _
  logDirectory _ _ := yields_trivial _
  made _ hplace := hplace.elim (fun h => h.join isName_log) id
  program := yields_trivial _
  written := .program
  ignition := yields_trivial _
  kubelet := yields_trivial _

/-- What operations on files keep is kept on a node that logs to no file. -/
theorem bears_on (n : Node) {made written : List Text → Prop}
    (h : Tolerates made written P fun _ => True) :
    Bears n (fun _ => True) made written (NodeState.On P C) fun _ => True where
  files _ := {
    passes := fun t ht => ⟨ht.file, h.passes t ht.files, ht.control⟩
    makes := fun t path place ht hfound hmade hat =>
      ⟨ht.file, h.makes t path place ht.files hfound hmade hat, ht.control⟩
    writes := fun t path place bytes ht hwritable hplace =>
      ⟨ht.file, h.writes t path place bytes ht.files hwritable hplace, ht.control⟩
    troubles := fun _ _ _ _ => trivial
    refused := fun _ _ => trivial
    sameFile := fun _ _ => trivial }
  logs _ level message hs := hs.logged level message
  flag _ _ _ _ h := h
  declared _ _ _ h := h

/-! ## Whatever it comes to -/

/-- Putting the files in place is an installation that has been begun. -/
theorem keeps_ready_begun (h : Provided n ignition kubelet payload program first) :
    Keeps (NodeState.On (Begun n payload first) C) (ready n ignition kubelet) (fun _ => True)
      fun _ => True := by
  have hbears := bears_on (C := C) n (tolerates_changed (Makes n) (Writes n payload) first)
  refine keeps_ready (keeps_installFiles hbears.files (coversFiles_any _)
    (located_begun n ignition kubelet payload) ?_) fun _ _ => yields_trivial _
  rintro contents ⟨s, hs, hread⟩
  have hpayload := (h.since hs.files).payload
  rw [read_eq_ok.mp hread] at hpayload
  cases hpayload
  exact keeps_walk hbears (covers_any _) (fun _ => trivial) (readable_any _ _)
    (fun _ _ _ _ => trivial) fun document flags entries => placed_writes

/-! ## When the files are in place -/

/-- What an installation puts at a place. -/
inductive Puts (n : Node) (payload program : Bytes) : List Text → FileNode → Prop
  | directory {place : List Text} (hplace : Makes n place) : Puts n payload program place .directory
  | program : Puts n payload program (Path.reached (n.layout.file programName)) (.file program)
  | entry {document entry : Json} {flags : List (Text × Text)} {entries : List Json} {path : Text}
    {rule : Rule} {bytes : Bytes} (hload : load payload = .ok document)
    (hflags : declaredIn document = .ok flags) (hentries : files document = .ok entries)
    (hrule : ruleAt flags path = some rule) (hentry : lastEntry entries path = some entry)
    (hbytes : translation n.layout.installDirectory path rule entry = .ok bytes) :
    Puts n payload program (rule.place n.layout.installDirectory) (.file bytes)

/-- A tree in which the files are in place, since a first. -/
structure Laid (n : Node) (payload program : Bytes) (first t : FileTree) : Prop where
  begun : Begun n payload first t
  puts : ∀ place node, Puts n payload program place node → t.at? place = some node
  written : ∀ place, Writes n payload place →
    ∃ bytes, Puts n payload program place (.file bytes)

/-- Where the files are in place, nothing is left of what was begun before. -/
theorem Laid.unique (h : Laid n payload program first t) (h' : Laid n payload program first t')
    (place : List Text) : t.at? place = t'.at? place := by
  by_cases hputs : ∃ node, Puts n payload program place node
  · obtain ⟨node, hnode⟩ := hputs
    rw [h.puts place node hnode, h'.puts place node hnode]
  · have hmakes : ¬ Makes n place := fun hplace => hputs ⟨_, .directory hplace⟩
    have hwrites : ¬ Writes n payload place := fun hplace =>
      hputs ((h.written place hplace).imp' .file fun _ hbytes => hbytes)
    rw [h.begun.kept hmakes hwrites, h'.begun.kept hmakes hwrites]

/-- What is there before a walk: the directories and the program. -/
structure Prepared (n : Node) (payload program : Bytes) (first t : FileTree) : Prop where
  begun : Begun n payload first t
  directory : t.status n.layout.logDirectory = .ok .directory
  program : t.status (n.layout.file programName) = .ok (.file program)

/-- With the files of the payload everything is in place. -/
theorem Prepared.laid {s s' : NodeState} {document : Json} {entries : List Json}
    {ws : List (Rule × Bytes)} (h : Prepared n payload program first s.host.files)
    (hlog : s.host.journal.file = none)
    (hwalk : Walk n payload defaultRules s s' document flags entries ws)
    (hbegun : Begun n payload first s'.host.files) :
    Laid n payload program first s'.host.files := by
  have hfiles := hwalk.materialized
  have hnot : ∀ place, ¬ s.host.LogsAt place := by
    rintro place ⟨file, hfile, -⟩
    exact nomatch hlog.symm.trans hfile
  -- a payload reads in one way only, so `Puts` and the walk speak of the same entries
  have hsame : ∀ {document' flags' entries'}, load payload = .ok document' →
      declaredIn document' = .ok flags' → files document' = .ok entries' →
        flags' = flags ∧ entries' = entries := by
    intro document' flags' entries' hload hflags hentries
    cases hload.symm.trans hwalk.loaded
    exact ⟨Except.ok.inj (hflags.symm.trans hwalk.declared),
      Except.ok.inj (hentries.symm.trans hwalk.listed)⟩
  refine ⟨hbegun, fun place node hputs => ?_, fun place hwrites => ?_⟩
  · cases hputs with
    | directory hplace =>
      exact (hfiles.directories place).mpr (directory_of_leads h.directory hplace)
    | program =>
      rw [hfiles.absent _ (hnot _) fun path rule hrule hplace =>
        absurd hplace (place_ne_program hrule)]
      exact at?_of_status h.program
    | entry hload hflags hentries hrule hentry hbytes =>
      obtain ⟨rfl, rfl⟩ := hsame hload hflags hentries
      obtain ⟨bytes, hbytes', hread⟩ := hfiles.present _ _ hrule (hnot _) _ hentry
      cases hbytes.symm.trans hbytes'
      exact at?_of_status (read_eq_ok.mp hread)
  · cases hwrites with
    | program => exact ⟨program, .program⟩
    | entry hload hflags hentries hrule hentry =>
      obtain ⟨rfl, rfl⟩ := hsame hload hflags hentries
      obtain ⟨bytes, hbytes, -⟩ := hfiles.present _ _ hrule (hnot _) _ hentry
      exact ⟨bytes, .entry hload hflags hentries hrule hentry hbytes⟩

/-- The flags behind a walk through the payload, on a node that had some before. -/
def Collects (n : Node) (payload : Bytes) (before behind : Flags) : Prop :=
  ∃ s s' document declared entries ws, s.kubeletFlags = before ∧ s.unitFlags = [] ∧
    s'.kubeletFlags = behind ∧ Walk n payload defaultRules s s' document declared entries ws

theorem Collects.unique {before behind behind' : Flags} (h : Collects n payload before behind)
    (h' : Collects n payload before behind') : behind = behind' := by
  obtain ⟨s, s', document, declared, entries, ws, hflags, hunit, rfl, hwalk⟩ := h
  obtain ⟨r, r', document', declared', entries', ws', hflags', hunit', rfl, hwalk'⟩ := h'
  cases hwalk.loaded.symm.trans hwalk'.loaded
  cases hwalk.declared.symm.trans hwalk'.declared
  cases hwalk.listed.symm.trans hwalk'.listed
  have hwritten := hwalk.written
  rw [hunit, ← hunit'] at hwritten
  cases hwritten.symm.trans hwalk'.written
  rw [hwalk.state.kubeletFlags, hwalk'.state.kubeletFlags, hflags, hflags']

/-- A node on which no walk has begun: it logs to no file, and has the flags of its start. -/
def Fresh (flags : Flags) (s : NodeState) : Prop :=
  s.host.journal.file = none ∧ s.kubeletFlags = flags ∧ s.unitFlags = []

/-- Directories are made on the way of the log directory. -/
theorem spec_makeDirectories_begun (hplaces : ∀ place, Path.Leads path place → Makes n place) :
    Spec (Begun n payload first) (makeDirectories path true) (fun _ => Begun n payload first)
      fun _ => True :=
  (keeps_makeDirectories (tolerates_changed (Makes n) (Writes n payload) first) true
    (fun _ _ => yields_trivial _) hplaces).spec.weaken (fun _ ht => ht) (fun _ _ ht => ht.2)
      fun _ _ => trivial

/-- The log directory is there when it has been made. -/
theorem spec_makeLogDirectory :
    Spec (Begun n payload first) (makeDirectories n.layout.logDirectory true)
      (fun _ t => Begun n payload first t ∧ t.status n.layout.logDirectory = .ok .directory)
      fun _ => True := by
  have hdot : (parentAndName n.layout.logDirectory).2 ≠ text "." := by
    rw [InstallLayout.logDirectory, parentAndName_join_name _ isName_log]
    decide
  exact ((spec_makeDirectories_begun fun _ hplace => hplace).and (spec_makeDirectories hdot)).weaken
    (fun _ ht => ⟨ht, trivial⟩) (fun _ _ ht => ht) fun _ _ => trivial

/-- The program is copied from its input, which is as it was at first. -/
theorem spec_copyProgram (h : Provided n ignition kubelet payload program first) :
    Spec (fun t => Begun n payload first t ∧ t.status n.layout.logDirectory = .ok .directory)
      (copy kubelet (n.layout.file programName))
      (fun _ => Prepared n payload program first) fun _ => True := by
  refine spec_copy ((steady_changed _ _ _).and (steady_status _ _)) (fun _ _ => trivial)
    (fun _ _ _ _ _ => trivial) ?_
  intro t place contents ht hsource hwritable _
  have hplace := eq_reached (writable_eq_ok hwritable).1
  have hcontents := (h.since ht.1).program
  rw [hsource] at hcontents
  cases hcontents
  refine ⟨ht.1.write (hplace ▸ .program) hwritable _, ?_, status_put_self hwritable _⟩
  exact status_directory_mono (fun q => (at?_put_directory hwritable q).mpr) ht.2

theorem steady_prepared : Steady (Prepared n payload program first) := fun t troubles ht =>
  ⟨steady_changed _ _ _ t troubles ht.begun, steady_status _ _ t troubles ht.directory,
    steady_status _ _ t troubles ht.program⟩

/-- The directories and the program are put in place before the walk. -/
theorem spec_installFiles {before : Flags} (h : Provided n ignition kubelet payload program first) :
    Spec (fun s => Fresh before s ∧ Begun n payload first s.host.files)
      (installFiles n ignition kubelet)
      (fun _ s' => ∃ s, Fresh before s ∧ Prepared n payload program first s.host.files ∧
        (walk n payload defaultRules).run.run s = (.ok (), s')) fun _ => True := by
  have hfresh : ∀ (s : NodeState) (files : FileTree), Fresh before s →
      Fresh before { s with host := { s.host with files } } := fun _ _ hs => hs
  unfold installFiles ensureDirectory
  refine spec_bind (spec_operation hfresh
    (spec_makeDirectories_begun fun _ hplace => hplace.join isName_log)) fun _ => ?_
  refine spec_bind (spec_operation hfresh spec_makeLogDirectory) fun _ => ?_
  refine spec_bind (spec_operation hfresh (spec_copyProgram h)) fun _ => ?_
  refine spec_bind (spec_operation hfresh ((spec_ask steady_prepared (·.read ignition)).failing
    fun _ _ => trivial)) fun contents => ?_
  rintro s ⟨hs, hread, ht⟩
  -- what is read is the payload, since the input lies outside of what has been written
  have hpayload := (h.since ht.begun).payload
  rw [read_eq_ok.mp hread] at hpayload
  cases hpayload
  cases hwalk : (walk n payload defaultRules).run.run s with
  | mk result s' =>
    cases result with
    | ok _ => exact ⟨s, hs, ht, hwalk⟩
    | error failure => exact trivial

/-- Behind a run that puts the files in place they are there, and the start command is the one for
the flags that come with the payload. -/
theorem ready_eq_ok {before : Flags} {s s' : NodeState} {startCommand : Text}
    (h : Provided n ignition kubelet payload program first) (hs : Fresh before s)
    (hbegun : Begun n payload first s.host.files)
    (hrun : (ready n ignition kubelet).run.run s = (.ok startCommand, s')) :
    Laid n payload program first s'.host.files ∧
      Collects n payload before s'.kubeletFlags := by
  have hready : Spec (fun s => Fresh before s ∧ Begun n payload first s.host.files)
      (ready n ignition kubelet)
      (fun _ s' => ∃ s, Fresh before s ∧ Prepared n payload program first s.host.files ∧
        (walk n payload defaultRules).run.run s = (.ok (), s')) fun _ => True := by
    refine spec_bind (spec_installFiles h) fun _ => spec_bind spec_get fun s => ?_
    refine (spec_ofExcept _).weaken (fun _ h => h) ?_ fun _ h => h
    rintro _ _ ⟨-, -, hwalk⟩
    exact hwalk
  obtain ⟨t, ht, hprepared, hwalk⟩ := hready.ended ⟨hs, hbegun⟩ hrun
  obtain ⟨document, flags, entries, ws, hwalk⟩ := walk_eq_ok hwalk
  have hlast := ((keeps_ready_begun (C := fun _ => True) h) s ⟨hs.1, hbegun, trivial⟩).1
  rw [hrun] at hlast
  exact ⟨hprepared.laid ht.1 hwalk hlast.files,
    t, s', document, flags, entries, ws, ht.2.1, ht.2.2, rfl, hwalk⟩

end Kubelet

end NodeBootstrap
