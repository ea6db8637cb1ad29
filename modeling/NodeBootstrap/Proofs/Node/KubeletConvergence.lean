import NodeBootstrap.Proofs.Node.KubeletFiles
import NodeBootstrap.Proofs.Node.KubeletService

/-!
# Installing again and again

A run that installs the kubelet may be broken off anywhere, and the next begins with what is left.
When one goes through undisturbed, the files are those that a single run would have left, and the
service has the start command and the display name that it would have, and runs. Its description is
another matter: it is given only when the service is made, so where an earlier run has made the
service and was broken off before it described it, it stays without one
(`Kubelet.installed_history`).
-/

set_option autoImplicit false

namespace NodeBootstrap.Kubelet

open FileTree Ignition

/-- A run on a fresh node that something happens to: whether it went through, and the host that it
leaves. -/
def installed (n : Node) (flags : Flags) (h : Host) (d : Disturbance) :
    Except Failure Unit × Host :=
  let (result, s) := (install n).run.run ⟨h.disturbed d, flags, []⟩
  (result, s.host)

/-- The host after runs that something happened to, one after the other. -/
def history (n : Node) (flags : Flags) (first : Host) (ds : List Disturbance) : Host :=
  ds.foldl (fun h d => (installed n flags h d).2) first

/-- A service that was not there at first is there without a description. -/
def Undescribed (n : Node) (first h : Host) : Prop :=
  first.services.get? n.serviceName = none ∧
    ∃ entry, h.services.get? n.serviceName = some entry ∧ entry.description = []

variable {n : Node} {ignition kubelet : Text} {payload program : Bytes} {first : FileTree}
  {flags : Flags} {quiet described : Prop} {S : ServiceEntry → Prop} {h last : Host}
  {d : Disturbance} {ds : List Disturbance}

/-! ## Runs that something happens to -/

/-- Whatever a run comes to, a service that is there is there afterwards, with the names that it
has. -/
theorem spec_replace (h : Provided n ignition kubelet payload program first) (hS : Stable S) :
    Spec (NodeState.On (Begun n payload first) (·.Serves quiet n.serviceName S))
      (replace n ignition kubelet)
      (fun _ => NodeState.On (Begun n payload first) (·.Serves quiet n.serviceName S))
      (NodeState.On (Begun n payload first) (·.Serves quiet n.serviceName S)) := by
  refine spec_bind (spec_hold hS) fun exists? => ?_
  refine spec_bind ((keeps_ready_begun h).spec.since fun s hs => hs.2) fun startCommand => ?_
  refine (spec_register hS exists?).weaken (fun s hs => hs.2) (fun _ => ?_) fun _ hs => hs
  exact NodeState.On.control_mono fun _ hserves => hserves.mono fun _ h => h.names

/-- A service that is not there is not there afterwards, or it has been made. -/
theorem spec_replace_vacant (h : Provided n ignition kubelet payload program first) :
    Spec (NodeState.On (Begun n payload first) (·.Vacant quiet described n.serviceName))
      (replace n ignition kubelet)
      (fun _ => NodeState.On (Begun n payload first) fun control =>
        control.Misses n.serviceName ∨ control.Holds n.serviceName (Made described))
      (NodeState.On (Begun n payload first) fun control =>
        control.Misses n.serviceName ∨ control.Holds n.serviceName (Made described)) := by
  have hmisses : ∀ s : NodeState,
      s.On (Begun n payload first) (·.Vacant quiet described n.serviceName) →
        s.On (Begun n payload first) fun control =>
          control.Misses n.serviceName ∨ control.Holds n.serviceName (Made described) :=
    NodeState.On.control_mono fun _ hvacant => .inl hvacant.1.misses
  refine spec_bind (spec_hold_vacant.failing hmisses) fun exists? => Spec.knowing ?_
  rintro rfl
  refine spec_bind ((keeps_ready_begun h).spec.failing hmisses) fun startCommand => ?_
  refine spec_register_vacant.weaken (fun s hs => hs.2) (fun _ => ?_) fun _ hs => hs
  refine NodeState.On.control_mono fun _ hserves => .inr (hserves.mono fun _ h => ?_).holds
  exact ⟨h.names.displayName,
    .inl (h.names.description.resolve_right fun hnot => hnot.1 trivial)⟩

/-- What holds of the host behind the replacing of files and service, whatever comes of it, holds
behind the run. -/
theorem on_installed_of_replace {C C' : ServiceControl → Prop}
    (hgiven : Provided n ignition kubelet payload program first)
    (hspec : Spec (NodeState.On (Begun n payload first) C) (replace n ignition kubelet)
      (fun _ => NodeState.On (Begun n payload first) C') (NodeState.On (Begun n payload first) C'))
    (hhost : (h.disturbed d).On (Begun n payload first) C) :
    (installed n flags h d).2.On (Begun n payload first) C' := by
  have hend := hspec ⟨h.disturbed d, flags, []⟩ hhost
  rw [installed, (hgiven.since hhost.files).inputs.run_install]
  generalize (replace n ignition kubelet).run.run ⟨h.disturbed d, flags, []⟩ = ended at hend ⊢
  obtain ⟨result, s⟩ := ended
  cases result <;> exact hend

/-- What one run leaves of a service that is there. -/
theorem on_installed (hgiven : Provided n ignition kubelet payload program first) (hS : Stable S)
    (hd : d.Reported)
    (hhost : h.On (Begun n payload first) (·.Holds n.serviceName S)) :
    (installed n flags h d).2.On (Begun n payload first) (·.Holds n.serviceName S) := by
  have hend : (installed n flags h d).2.On (Begun n payload first)
      (·.Serves (d = .nothing) n.serviceName S) :=
    on_installed_of_replace hgiven (spec_replace hgiven hS)
      (hhost.disturbed hd (steady_changed _ _ _))
  exact ⟨hend.file, hend.files, hend.control.holds⟩

/-- What one run leaves of a service that is not there, or was made by another. -/
theorem on_installed_vacant (hgiven : Provided n ignition kubelet payload program first)
    (hd : d.Reported) (hdescribed : described → d.Spares (text "description"))
    (hhost : h.On (Begun n payload first) fun control =>
      control.Misses n.serviceName ∨ control.Holds n.serviceName (Made described)) :
    (installed n flags h d).2.On (Begun n payload first) fun control =>
      control.Misses n.serviceName ∨ control.Holds n.serviceName (Made described) := by
  obtain ⟨hfile, hfiles, hmisses | hholds⟩ := hhost
  · exact on_installed_of_replace hgiven (spec_replace_vacant hgiven)
      (Host.On.disturbed_vacant ⟨hfile, hfiles, hmisses⟩ hd hdescribed (steady_changed _ _ _))
  · have hmade : (installed n flags h d).2.On (Begun n payload first)
        (·.Holds n.serviceName (Made described)) :=
      on_installed hgiven (stable_made described) hd ⟨hfile, hfiles, hholds⟩
    exact ⟨hmade.file, hmade.files, .inr hmade.control⟩

/-- What each of the runs preserves holds behind all of them. -/
theorem holds_history {I : Host → Prop} (hfirst : I h)
    (hstep : ∀ d ∈ ds, ∀ h, I h → I (installed n flags h d).2) : I (history n flags h ds) := by
  induction ds generalizing h with
  | nil => exact hfirst
  | cons d ds ih =>
    obtain ⟨hd, hds⟩ := List.forall_mem_cons.mp hstep
    exact ih (hd h hfirst) hds

theorem on_history (hgiven : Provided n ignition kubelet payload program first) (hS : Stable S)
    (hds : ∀ d ∈ ds, d.Reported)
    (hhost : h.On (Begun n payload first) (·.Holds n.serviceName S)) :
    (history n flags h ds).On (Begun n payload first) (·.Holds n.serviceName S) :=
  holds_history hhost fun d hd _ => on_installed hgiven hS (hds d hd)

theorem on_history_vacant (hgiven : Provided n ignition kubelet payload program first)
    (hds : ∀ d ∈ ds, d.Reported) (hdescribed : described → ∀ d ∈ ds, d.Spares (text "description"))
    (hhost : h.On (Begun n payload first) fun control =>
      control.Misses n.serviceName ∨ control.Holds n.serviceName (Made described)) :
    (history n flags h ds).On (Begun n payload first) fun control =>
      control.Misses n.serviceName ∨ control.Holds n.serviceName (Made described) :=
  holds_history hhost fun d hd _ =>
    on_installed_vacant hgiven (hds d hd) fun hspares => hdescribed hspares d hd

/-! ## The run that goes through -/

/-- An entry with some names. -/
def Named (shown described : Text) (entry : ServiceEntry) : Prop :=
  entry.displayName = shown ∧ entry.description = described

theorem stable_named (shown described : Text) : Stable (Named shown described) :=
  ⟨fun _ _ h => h, fun _ _ h => h⟩

/-- A host on which the kubelet is installed: the files are in place, and the service runs with the
start command for the flags of the payload. -/
structure Settled (n : Node) (payload program : Bytes) (first : FileTree) (flags : Flags)
    (S : ServiceEntry → Prop) (h : Host) : Prop where
  laid : Laid n payload program first h.files
  service : ∃ behind entry, Collects n payload flags behind ∧
    command n behind = .ok entry.command ∧ h.services.get? n.serviceName = some entry ∧
      entry.state = ServiceState.running ∧ S entry

/-- A service that was made and described has the names of the kubelet. -/
theorem Settled.named (hlast : Settled n payload program first flags (Made True) last) :
    Settled n payload program first flags (Named displayName description) last := by
  obtain ⟨behind, entry, hflags, hcommand, hentry, hstate, hmade⟩ := hlast.service
  exact ⟨hlast.laid, behind, entry, hflags, hcommand, hentry, hstate, hmade.displayName,
    hmade.description.resolve_right fun hnot => hnot.1 trivial⟩

/-- Two hosts on which the kubelet is installed under one display name agree on all but the
description. -/
theorem Settled.agree {single : Host} {shown x y : Text} {same : Prop}
    (hlast : Settled n payload program first flags (Named shown x) last)
    (hsingle : Settled n payload program first flags (Named shown y) single)
    (hsame : x = y ↔ same) :
    (∀ place, last.files.at? place = single.files.at? place) ∧
      ∃ entry entry', last.services.get? n.serviceName = some entry ∧
        single.services.get? n.serviceName = some entry' ∧ entry.command = entry'.command ∧
          entry.state = entry'.state ∧ entry.displayName = entry'.displayName ∧
            (entry = entry' ↔ same) := by
  obtain ⟨behind, entry, hflags, hcommand, hentry, hstate, hshown, hdescribed⟩ := hlast.service
  obtain ⟨behind', entry', hflags', hcommand', hentry', hstate', hshown', hdescribed'⟩ :=
    hsingle.service
  obtain rfl := hflags.unique hflags'
  have hcommands : entry.command = entry'.command :=
    Except.ok.inj (hcommand.symm.trans hcommand')
  have hstates : entry.state = entry'.state := hstate.trans hstate'.symm
  have hnames : entry.displayName = entry'.displayName := hshown.trans hshown'.symm
  refine ⟨hlast.laid.unique hsingle.laid, entry, entry', hentry, hentry', hcommands, hstates,
    hnames, ?_⟩
  rw [← hsame, ← hdescribed, ← hdescribed']
  cases entry
  cases entry'
  simp only [ServiceEntry.mk.injEq] at hcommands hstates hnames ⊢
  simp only [hcommands, hstates, hnames, true_and]

/-- The last part of a run that goes through leaves the kubelet installed, if it starts the
service. -/
theorem settled_of_register {C : ServiceControl → Prop} {s held placed last : NodeState}
    {exists? : Bool} {startCommand : Text} {E : NodeState → Prop}
    (hgiven : Provided n ignition kubelet payload program first) (hs : Fresh flags s)
    (hhold : (hold n).run.run s = (.ok exists?, held))
    (hready : (ready n ignition kubelet).run.run held = (.ok startCommand, placed))
    (hregister : (register n exists? startCommand).run.run placed = (.ok (), last))
    (hheld : held.On (Begun n payload first) C)
    (hspec : Spec (NodeState.On (Laid n payload program first) C)
      (register n exists? startCommand)
      (fun _ => NodeState.On (Laid n payload program first)
        (·.Serves quiet n.serviceName (Started quiet S startCommand))) E) (hquiet : quiet) :
    Settled n payload program first flags S last.host := by
  have hunchanged : Unchanged s held := ((keeps_hold (manages_unchanged n s) trivial
    fun _ => trivial).ran (Walked.refl s) hhold).1
  have hfresh : Fresh flags held := ⟨hunchanged.journal.trans hs.1,
    hunchanged.kubeletFlags.trans hs.2.1, hunchanged.unitFlags.trans hs.2.2⟩
  obtain ⟨hlaid, hcollects⟩ := ready_eq_ok hgiven hfresh hheld.files hready
  have hplaced := ((keeps_ready_begun hgiven).ran hheld hready).1
  have hend : last.On (Laid n payload program first)
      (·.Serves quiet n.serviceName (Started quiet S startCommand)) :=
    hspec.ended ⟨hplaced.file, hlaid, hplaced.control⟩ hregister
  obtain ⟨entry, hentry, hstarted⟩ := Host.entry_of_holds hend.control.holds
  refine ⟨hend.files, placed.kubeletFlags, entry, hcollects, ?_, hentry, hstarted.state hquiet,
    hstarted.names⟩
  rw [hstarted.command]
  exact command_of_ready hready

/-- The parts of a run that goes through. -/
theorem parts_of_installed (hgiven : Provided n ignition kubelet payload program first)
    (hbegun : Begun n payload first (h.disturbed d).files)
    (hrun : installed n flags h d = (.ok (), last)) :
    ∃ exists? held startCommand placed s,
      (hold n).run.run ⟨h.disturbed d, flags, []⟩ = (.ok exists?, held) ∧
        (ready n ignition kubelet).run.run held = (.ok startCommand, placed) ∧
          (register n exists? startCommand).run.run placed = (.ok (), s) ∧ s.host = last := by
  rw [installed, (hgiven.since hbegun).inputs.run_install] at hrun
  cases hreplace : (replace n ignition kubelet).run.run ⟨h.disturbed d, flags, []⟩ with
  | mk result s =>
    rw [hreplace] at hrun
    obtain ⟨rfl, rfl⟩ := Prod.mk.inj hrun
    obtain ⟨exists?, held, hhold, hrest⟩ := run_bind_eq_ok hreplace
    obtain ⟨startCommand, placed, hready, hregister⟩ := run_bind_eq_ok hrest
    exact ⟨exists?, held, startCommand, placed, s, hhold, hready, hregister, rfl⟩

/-- An undisturbed run that goes through installs the kubelet as a service that is there. -/
theorem settled_of_holds (hgiven : Provided n ignition kubelet payload program first)
    (hS : Stable S) (hhost : h.On (Begun n payload first) (·.Holds n.serviceName S))
    (hrun : installed n flags h .nothing = (.ok (), last)) :
    Settled n payload program first flags S last := by
  have hstart : NodeState.On (Begun n payload first) (·.Serves (Disturbance.nothing = .nothing)
      n.serviceName S) ⟨h.disturbed .nothing, flags, []⟩ :=
    hhost.disturbed Disturbance.reported_nothing (steady_changed _ _ _)
  obtain ⟨exists?, held, startCommand, placed, s, hhold, hready, hregister, rfl⟩ :=
    parts_of_installed hgiven hstart.files hrun
  obtain ⟨-, hheld⟩ := (spec_hold hS).ended hstart hhold
  exact settled_of_register hgiven ⟨hstart.file, rfl, rfl⟩ hhold hready hregister hheld
    (spec_register hS exists?) rfl

/-- So it does where the service is not there, and describes it. -/
theorem settled_of_misses (hgiven : Provided n ignition kubelet payload program first)
    (hhost : h.On (Begun n payload first) (·.Misses n.serviceName))
    (hrun : installed n flags h .nothing = (.ok (), last)) :
    Settled n payload program first flags (Made True) last := by
  have hstart : NodeState.On (Begun n payload first) (·.Vacant (Disturbance.nothing = .nothing) True
      n.serviceName) ⟨h.disturbed .nothing, flags, []⟩ :=
    hhost.disturbed_vacant Disturbance.reported_nothing (fun _ => ⟨rfl, rfl⟩)
      (steady_changed _ _ _)
  obtain ⟨exists?, held, startCommand, placed, s, hhold, hready, hregister, rfl⟩ :=
    parts_of_installed hgiven hstart.files hrun
  obtain ⟨rfl, hheld⟩ := spec_hold_vacant.ended hstart hhold
  exact settled_of_register hgiven ⟨hstart.file, rfl, rfl⟩ hhold hready hregister hheld
    spec_register_vacant rfl

/-! ## Histories -/

theorem not_undescribed {firstHost : Host} {entry : ServiceEntry}
    (hentry : firstHost.services.get? n.serviceName = some entry) :
    ¬ Undescribed n firstHost h :=
  fun hnot => Option.some_ne_none _ (hentry.symm.trans hnot.1)

theorem not_undescribed_of_misses {firstHost : Host} (hcontrol : h.control.Misses n.serviceName) :
    ¬ Undescribed n firstHost h := by
  rintro ⟨-, entry, hentry, -⟩
  exact Option.some_ne_none _ (hentry.symm.trans (Host.entry_of_misses hcontrol))

/-- Where a service has been made, its own description decides. -/
theorem undescribed_iff {firstHost : Host} {entry : ServiceEntry}
    (hnone : firstHost.services.get? n.serviceName = none)
    (hentry : h.services.get? n.serviceName = some entry) :
    Undescribed n firstHost h ↔ entry.description = [] := by
  refine ⟨?_, fun hnil => ⟨hnone, entry, hentry, hnil⟩⟩
  rintro ⟨-, other, hother, hnil⟩
  cases hentry.symm.trans hother
  exact hnil

/-- It is the one of the kubelet, or there is none. -/
theorem described_iff {entry : ServiceEntry} (hmade : Made described entry) :
    entry.description = description ↔ ¬ entry.description = [] := by
  constructor
  · intro hdescription hnil
    exact absurd (hdescription.symm.trans hnil) (by decide)
  · intro hnot
    exact hmade.description.resolve_right fun hnone => hnot hnone.2

/-- A service that is there has some names, and keeps them. -/
theorem named_of_holds {P : FileTree → Prop} (hhost : h.On P (·.Holds n.serviceName S)) :
    ∃ entry, h.services.get? n.serviceName = some entry ∧ S entry ∧
      h.On P (·.Holds n.serviceName (Named entry.displayName entry.description)) := by
  obtain ⟨hfile, hfiles, t, entry, hcontrol, hentry, hS⟩ := hhost
  refine ⟨entry, ?_, hS, hfile, hfiles, t, entry, hcontrol, hentry, rfl, rfl⟩
  rw [Host.services, hcontrol]
  exact hentry

/-- Whatever happened to the runs before, a run that goes through undisturbed leaves the files and
the service as a single run does that goes through undisturbed; but for the description of a service
that one of the runs before has made and did not describe. There is none if no run is kept from
describing it. The runs log to no file, which would grow with each of them. Paths are relative to
the working directory, and an absolute one names nothing. -/
theorem installed_history (n : Node) (flags : Flags) (ignition kubelet : Text)
    (first last single : Host) (t : ServiceTable) (ds : List Disturbance)
    (hinputs : Inputs n first.files ignition kubelet) (hignition : Outside n ignition)
    (hkubelet : Outside n kubelet) (hfile : first.journal.file = none)
    (hcontrol : first.control = .table t) (hds : ∀ d ∈ ds, d.Reported)
    (hlast : installed n flags (history n flags first ds) .nothing = (.ok (), last))
    (hsingle : installed n flags first .nothing = (.ok (), single)) :
    (∀ place, last.files.at? place = single.files.at? place) ∧
      (∃ entry entry', last.services.get? n.serviceName = some entry ∧
        single.services.get? n.serviceName = some entry' ∧ entry.command = entry'.command ∧
          entry.state = entry'.state ∧ entry.displayName = entry'.displayName ∧
            (entry = entry' ↔ ¬ Undescribed n first (history n flags first ds))) ∧
      ((∀ d ∈ ds, d.Spares (text "description")) →
        ¬ Undescribed n first (history n flags first ds)) := by
  obtain ⟨payload, hpayload⟩ := isFile_iff.mp hinputs.ignition
  obtain ⟨program, hprogram⟩ := isFile_iff.mp hinputs.kubelet
  have hgiven : Provided n ignition kubelet payload program first.files :=
    ⟨hinputs.ignitionFile, hinputs.kubeletPath, hpayload, hprogram, hignition, hkubelet⟩
  have hbegun : Begun n payload first.files first.files := Changed.refl _ _ _
  cases hentry : t.services.get? n.serviceName with
  | some entry =>
    -- the service is there at first: no run makes it, so its names are its own to the end
    have hfirst : first.On (Begun n payload first.files)
        (·.Holds n.serviceName (Named entry.displayName entry.description)) :=
      ⟨hfile, hbegun, t, entry, hcontrol, hentry, rfl, rfl⟩
    obtain ⟨entry, hsome, -⟩ := Host.entry_of_holds hfirst.control
    have hnot : ¬ Undescribed n first (history n flags first ds) := not_undescribed hsome
    obtain ⟨hfiles, hentries⟩ :=
      (settled_of_holds hgiven (stable_named _ _) (on_history hgiven (stable_named _ _) hds hfirst)
        hlast).agree (settled_of_holds hgiven (stable_named _ _) hfirst hsingle)
          (iff_of_true rfl hnot)
    exact ⟨hfiles, hentries, fun _ => hnot⟩
  | none =>
    have hfirst : first.On (Begun n payload first.files) (·.Misses n.serviceName) :=
      ⟨hfile, hbegun, t, hcontrol, hentry⟩
    have hone := (settled_of_misses hgiven hfirst hsingle).named
    have hhistory : (history n flags first ds).On (Begun n payload first.files) fun control =>
        control.Misses n.serviceName ∨ control.Holds n.serviceName
          (Made (∀ d ∈ ds, d.Spares (text "description"))) :=
      on_history_vacant hgiven hds id ⟨hfile, hbegun, .inl hfirst.control⟩
    obtain ⟨hlogs, hchanged, hmisses | hholds⟩ := hhistory
    · -- no run before has made it, so the last one does, as a single one would
      have hnot : ¬ Undescribed n first (history n flags first ds) :=
        not_undescribed_of_misses hmisses
      obtain ⟨hfiles, hentries⟩ :=
        (settled_of_misses hgiven ⟨hlogs, hchanged, hmisses⟩ hlast).named.agree hone
          (iff_of_true rfl hnot)
      exact ⟨hfiles, hentries, fun _ => hnot⟩
    · -- one before has: the last run finds the service, and leaves it the description it has
      obtain ⟨entry, hsome, hmade, hnamed⟩ := named_of_holds ⟨hlogs, hchanged, hholds⟩
      have hundescribed := undescribed_iff (Host.entry_of_misses hfirst.control) hsome
      have hdescription : entry.description = description ↔
          ¬ Undescribed n first (history n flags first ds) := by
        rw [described_iff hmade, hundescribed]
      rw [hmade.displayName] at hnamed
      obtain ⟨hfiles, hentries⟩ :=
        (settled_of_holds hgiven (stable_named _ _) hnamed hlast).agree hone hdescription
      refine ⟨hfiles, hentries, fun hspares => hdescription.mp ?_⟩
      exact hmade.description.resolve_right fun hnone => hnone.1 hspares

/-! ## Two brief histories -/

/-- A run in which the service is not started. -/
def briefUnstarted : Disturbance := ⟨[(text "start", 5, [])], [], []⟩

/-- A run in which the service is not described. -/
def briefUndescribed : Disturbance := ⟨[(text "description", 5, [])], [], []⟩

theorem isOk_brief : (installed briefNode [] briefHost .nothing).1.isOk = true := by decide +kernel

/-- Where the service has not been started, all is the same in the end. -/
theorem installed_history_brief :
    ∃ last single, installed briefNode [] (history briefNode [] briefHost [briefUnstarted])
        .nothing = (.ok (), last) ∧
      installed briefNode [] briefHost .nothing = (.ok (), single) ∧
        (∀ place, last.files.at? place = single.files.at? place) ∧
          last.services.get? briefNode.serviceName =
            single.services.get? briefNode.serviceName := by
  have hran : (installed briefNode [] (history briefNode [] briefHost [briefUnstarted])
      .nothing).1.isOk = true := by decide +kernel
  have hlast := eq_mk_of_isOk hran
  have hsingle := eq_mk_of_isOk isOk_brief
  have hreported : ∀ d ∈ [briefUnstarted], d.Reported := by
    intro d hd
    obtain rfl := List.mem_singleton.mp hd
    exact Disturbance.reported_fault (by decide)
  have hspares : ∀ d ∈ [briefUnstarted], d.Spares (text "description") := by
    intro d hd
    obtain rfl := List.mem_singleton.mp hd
    exact ⟨rfl, rfl⟩
  obtain ⟨hfiles, ⟨entry, entry', hentry, hentry', -, -, -, heq⟩, hdescribed⟩ :=
    installed_history briefNode [] (text "i") (text "b") briefHost _ _ ServiceTable.empty
      [briefUnstarted] ⟨rfl, rfl, by decide, by decide⟩ (by decide) (by decide) rfl rfl hreported
      hlast hsingle
  refine ⟨_, _, hlast, hsingle, hfiles, ?_⟩
  rw [hentry, hentry', heq.mpr (hdescribed hspares)]

/-- A service that has not been described stays without a description. -/
theorem description_brief :
    (((installed briefNode [] (history briefNode [] briefHost [briefUndescribed])
        .nothing).2.services.get? briefNode.serviceName).map (·.description),
      ((installed briefNode [] briefHost .nothing).2.services.get?
        briefNode.serviceName).map (·.description)) = (some [], some description) := by
  decide +kernel

/-- One verb that fails once is enough for another entry in the end. -/
theorem not_installed_history :
    ¬ ∀ (n : Node) (flags : Flags) (ignition kubelet : Text) (first last single : Host)
        (t : ServiceTable) (ds : List Disturbance), Inputs n first.files ignition kubelet →
        Outside n ignition → Outside n kubelet → first.journal.file = none →
        first.control = .table t → (∀ d ∈ ds, d.Reported ∧ d.results = [] ∧ d.refusals = []) →
        (∀ before d after, ds = before ++ d :: after →
          (installed n flags (history n flags first before) d).1 ≠ .ok ()) →
        installed n flags (history n flags first ds) .nothing = (.ok (), last) →
        installed n flags first .nothing = (.ok (), single) →
          last.services.get? n.serviceName = single.services.get? n.serviceName := by
  intro h
  have hran : (installed briefNode [] (history briefNode [] briefHost [briefUndescribed])
      .nothing).1.isOk = true := by decide +kernel
  have hfailed : (installed briefNode [] briefHost briefUndescribed).1.isOk = false := by
    decide +kernel
  have hsame := h briefNode [] (text "i") (text "b") briefHost _ _ ServiceTable.empty
    [briefUndescribed] ⟨rfl, rfl, by decide, by decide⟩ (by decide) (by decide) rfl rfl ?_ ?_
    (eq_mk_of_isOk hran) (eq_mk_of_isOk isOk_brief)
  · obtain ⟨hlast, hsingle⟩ := Prod.mk.inj description_brief
    rw [hsame, hsingle] at hlast
    exact absurd hlast (by decide)
  · intro d hd
    obtain rfl := List.mem_singleton.mp hd
    exact ⟨Disturbance.reported_fault (by decide), rfl, rfl⟩
  · intro before d after hds hok
    obtain ⟨rfl, hrest⟩ := List.append_eq_singleton_iff.mp hds.symm |>.resolve_right (by simp)
    obtain ⟨rfl, rfl⟩ := List.cons.inj hrest
    rw [history, List.foldl_nil] at hok
    rw [hok] at hfailed
    exact absurd hfailed (by decide)

end NodeBootstrap.Kubelet
