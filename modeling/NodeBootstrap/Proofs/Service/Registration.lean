import NodeBootstrap.Proofs.Service.Dialogue
import NodeBootstrap.Proofs.Service.Manager

/-!
# Making a service

A service that a table lacks is made by one run of the service control program and described by
another. The second may fail where the first went through, and then the service is there without a
description. A service that is there already is not made again.
-/

set_option autoImplicit false

namespace NodeBootstrap

/-- A table without a service, where runs that it does not act on fail. When it is to be `quiet`, it
acts on every run. -/
structure ServiceTable.Lacks (quiet : Prop) (name : Text) (t : ServiceTable) : Prop where
  troubles : ∀ result, some result ∈ t.troubles → result.Fails
  faults : ∀ verb code output, t.faults.get? verb = some (code, output) → code ≠ 0
  acts : quiet → t.troubles = [] ∧ t.faults = []
  entry : t.services.get? name = none

/-- A control by a table that lacks a service. -/
def ServiceControl.Lacks (quiet : Prop) (name : Text) (control : ServiceControl) : Prop :=
  ∃ t, control = .table t ∧ t.Lacks quiet name

/-- A control that acts on a verb. -/
def ServiceControl.Heeds (verb : Text) (control : ServiceControl) : Prop :=
  ∀ t, control = .table t → t.troubles = [] ∧ t.faults.get? verb = none

/-- A control that lacks a service and acts on descriptions, if it is to be `described`. -/
def ServiceControl.Vacant (quiet described : Prop) (name : Text) (control : ServiceControl) :
    Prop :=
  control.Lacks quiet name ∧ (described → control.Heeds (text "description"))

/-- What follows the name of a service that is to be made. -/
def createArguments (command shown : Text) : List Text :=
  [text "binPath=", command, text "start=", text "auto", text "DisplayName=", shown]

variable {quiet : Prop} {name verb : Text} {S : ServiceEntry → Prop} {arguments : List Text}
  {control : ServiceControl}

namespace ServiceTable

variable {t : ServiceTable}

/-- Behind what a run comes to for another reason the table is as it was. -/
theorem Lacks.rest {trouble : Option ProcessResult} {troubles : List (Option ProcessResult)}
    (h : t.Lacks quiet name) (htroubles : t.troubles = trouble :: troubles) :
    { t with troubles := troubles }.Lacks quiet name where
  troubles result hmem := h.troubles result (htroubles ▸ List.mem_cons_of_mem _ hmem)
  faults := h.faults
  acts hquiet := nomatch htroubles.symm.trans (h.acts hquiet).1
  entry := h.entry

/-- A verb on a service that is not there fails. -/
theorem Lacks.answer (h : t.Lacks quiet name) (hverb : verb ≠ text "create")
    (arguments : List Text) :
    (t.answer verb name arguments).1.Fails ∧ (t.answer verb name arguments).2.Lacks quiet name := by
  rw [ServiceTable.answer]
  split
  next code output hfault => exact ⟨h.faults verb code output hfault, h⟩
  next =>
    rw [if_neg hverb, h.entry]
    exact ⟨(by decide : (1060 : Int) ≠ 0), h⟩

/-- A new service is made, or the run fails. -/
theorem Lacks.answer_create (h : t.Lacks quiet name) (command shown : Text) :
    ((∃ output, (t.answer (text "create") name (createArguments command shown)).1 =
        .finished 0 output) ∧
      (t.answer (text "create") name (createArguments command shown)).2.Serves quiet name
        (· = ⟨command, ServiceState.stopped, shown, []⟩)) ∨
    ((t.answer (text "create") name (createArguments command shown)).1.Fails ∧
      (t.answer (text "create") name (createArguments command shown)).2.Lacks quiet name) := by
  rw [ServiceTable.answer]
  split
  next code output hfault => exact .inr ⟨h.faults _ code output hfault, h⟩
  next =>
    have hkey : t.services.hasKey name = false := by
      rw [OrderedMap.hasKey, h.entry]
      rfl
    rw [if_pos rfl, ServiceTable.create, hkey, if_neg Bool.false_ne_true]
    refine .inl ⟨⟨_, rfl⟩, h.troubles, h.faults, h.acts, _, ?_, rfl⟩
    exact OrderedMap.get?_set_self t.services name _

/-- A service that is there is not made again. -/
theorem Serves.answer_create (h : t.Serves quiet name S) (arguments : List Text) :
    (t.answer (text "create") name arguments).1.Fails ∧
      (t.answer (text "create") name arguments).2.Serves quiet name S := by
  obtain ⟨entry, hentry, -⟩ := h.entry
  rw [ServiceTable.answer]
  split
  next code output hfault => exact ⟨h.faults _ code output hfault, h⟩
  next =>
    have hkey : t.services.hasKey name = true := by
      rw [OrderedMap.hasKey, hentry]
      rfl
    rw [if_pos rfl, ServiceTable.create, if_pos hkey]
    exact ⟨(by decide : (1073 : Int) ≠ 0), h⟩

end ServiceTable

/-! ## Runs of the program -/

namespace ServiceControl

open ServiceManager

/-- A run on a table fails where the table does not do what is asked for, for then its answer fails
and so does everything else that the run may come to. -/
theorem run_fails {t : ServiceTable} {I : ServiceTable → Prop} (ht : I t)
    (htroubles : ∀ result, some result ∈ t.troubles → result.Fails)
    (hrest : ∀ trouble troubles, t.troubles = trouble :: troubles → I { t with troubles })
    (hanswer : ∀ t', I t' → (t'.answer verb name arguments).1.Fails ∧
      I (t'.answer verb name arguments).2) :
    ((ServiceControl.table t).run (verb :: name :: arguments)).1.Fails ∧
      ∃ t', ((ServiceControl.table t).run (verb :: name :: arguments)).2 = .table t' ∧ I t' := by
  have hrun : (t.run verb name arguments).1.Fails ∧ I (t.run verb name arguments).2 :=
    ServiceTable.run_cases (D := fun ran => ran.1.Fails ∧ I ran.2) ht hrest (fun _ => hanswer)
      (fun result troubles heq =>
        ⟨htroubles result (heq ▸ List.mem_cons_self), hrest _ _ heq⟩)
      fun _ t' ht' => ⟨trivial, ht'⟩
  exact ⟨hrun.1, _, rfl, hrun.2⟩

theorem Lacks.run (h : control.Lacks quiet name) (hverb : verb ≠ text "create")
    (arguments : List Text) :
    (control.run (verb :: name :: arguments)).1.Fails ∧
      (control.run (verb :: name :: arguments)).2.Lacks quiet name := by
  obtain ⟨t, rfl, ht⟩ := h
  exact run_fails ht ht.troubles (fun _ _ => ht.rest) fun t' ht' => ht'.answer hverb arguments

/-- Making a service that is not there, where a command with its name is taken, or failing to. -/
theorem Lacks.run_create (h : control.Lacks quiet name) (command shown : Text) :
    ((∃ output, (control.run (createWords name command shown)).1 = .finished 0 output) ∧
      (control.run (createWords name command shown)).2.Serves quiet name
        (· = ⟨command, ServiceState.stopped, shown, []⟩) ∧
      (control.run (createWords name command shown)).2.launch.takes name = true) ∨
    ((control.run (createWords name command shown)).1.Fails ∧
      (control.run (createWords name command shown)).2.Lacks quiet name) := by
  obtain ⟨t, rfl, ht⟩ := h
  refine ServiceTable.run_cases (I := fun t' => t'.Lacks quiet name ∧ t'.launch = t.launch)
    (D := fun ran =>
      ((∃ output, ran.1 = .finished 0 output) ∧ (ServiceControl.table ran.2).Serves quiet name
          (· = ⟨command, ServiceState.stopped, shown, []⟩) ∧ ran.2.launch.takes name = true) ∨
        (ran.1.Fails ∧ (ServiceControl.table ran.2).Lacks quiet name)) ⟨ht, rfl⟩
    (fun _ _ htroubles => ⟨ht.rest htroubles, rfl⟩) ?_ (fun result troubles htroubles => ?_)
    fun _ t' ht' => .inr ⟨trivial, t', rfl, ht'.1⟩
  · rintro htakes t' ⟨ht', hlaunch⟩
    have hname : t.launch.takes name = true :=
      List.all_eq_true.mp htakes name (List.mem_cons_of_mem _ List.mem_cons_self)
    rw [← hlaunch, ← (t'.answered _ name (createArguments command shown)).launch] at hname
    rcases ht'.answer_create command shown with ⟨hdone, hserves⟩ | ⟨hfails, hlacks⟩
    · exact .inl ⟨hdone, ⟨_, rfl, hserves⟩, hname⟩
    · exact .inr ⟨hfails, _, rfl, hlacks⟩
  · exact .inr ⟨ht.troubles result (htroubles ▸ List.mem_cons_self), _, rfl, ht.rest htroubles⟩

theorem Serves.run_create (h : control.Serves quiet name S) :
    (control.run (text "create" :: name :: arguments)).1.Fails ∧
      (control.run (text "create" :: name :: arguments)).2.Serves quiet name S := by
  obtain ⟨t, rfl, ht⟩ := h
  exact run_fails ht ht.troubles (fun _ _ => ht.rest) fun t' ht' => ht'.answer_create arguments

/-- A verb that is acted on goes on being acted on. -/
theorem Heeds.run (h : control.Heeds verb) (words : List Text) :
    (control.run words).2.Heeds verb := by
  cases control with
  | script results =>
    intro t ht
    cases results <;> exact nomatch ht
  | table t =>
    obtain ⟨htroubles, hfault⟩ := h t rfl
    match words with
    | [] => exact h
    | [_] => exact h
    | other :: name :: arguments =>
      intro t' ht'
      have hrun : (t.run other name arguments).2 = t' := ServiceControl.table.inj ht'
      rw [ServiceTable.run, ServiceTable.perform, htroubles] at hrun
      split at hrun
      next =>
        have hanswered := t.answered other name arguments
        rw [← hrun, hanswered.troubles, hanswered.faults]
        exact ⟨htroubles, hfault⟩
      next => exact hrun ▸ ⟨rfl, hfault⟩

/-- Where the verb is acted on and the words are taken, a service that is there is described. -/
theorem Serves.run_description (h : control.Serves quiet name S)
    (hname : control.launch.takes name = true) (description : Text)
    (hdescription : ∀ c ∈ description, c.isSpellable = true) :
    ((∃ output, (control.run (descriptionWords name description)).1 = .finished 0 output) ∧
      (control.run (descriptionWords name description)).2.Serves quiet name
        fun entry => ∃ before, S before ∧ entry = { before with description := description }) ∨
    ((control.run (descriptionWords name description)).1.Fails ∧
      ¬ control.Heeds (text "description") ∧
        (control.run (descriptionWords name description)).2.Serves quiet name S) := by
  have hacts : ServiceTable.Acts (text "description") name [description] [] S
      fun _ _ entry => ∃ before, S before ∧ entry = { before with description := description } := by
    intro t entry hentry hS
    exact ⟨0, _, _, _, rfl, .inl rfl, rfl, rfl, OrderedMap.get?_set_self t.services name _,
      entry, hS, rfl⟩
  rcases h.run (by decide) hacts with ⟨code, output, hresult, hcode, hserves⟩ | ⟨hfails, -, hserves⟩
  · obtain rfl : code = 0 := hcode.resolve_right List.not_mem_nil
    exact .inl ⟨⟨output, hresult⟩, hserves⟩
  · refine .inr ⟨hfails, fun hheeds => ?_, hserves⟩
    obtain ⟨t, rfl, ht⟩ := h
    obtain ⟨htroubles, hfault⟩ := hheeds t rfl
    obtain ⟨entry, hentry, -⟩ := ht.entry
    have htakes : t.takes [text "description", name, description] = true := by
      refine List.all_eq_true.mpr ?_
      simp only [List.forall_mem_cons]
      exact ⟨takes_vocabulary _ _ (by decide), hname, t.launch.takes_of_spellable hdescription,
        List.forall_mem_nil _⟩
    have hdone : ((ServiceControl.table t).run [text "description", name, description]).1 =
        ServiceTable.success := by
      show (t.run (text "description") name [description]).1 = _
      rw [ServiceTable.run, if_pos htakes, ServiceTable.perform, htroubles]
      dsimp only
      rw [ServiceTable.answer, hfault]
      dsimp only
      rw [if_neg (by decide), hentry]
      rfl
    rw [hdone] at hfails
    exact hfails rfl

end ServiceControl

/-! ## The operations -/

namespace ServiceManager

variable {P : FileTree → Prop} {C : ServiceControl → Prop}
  {D : ProcessResult → ServiceControl → Prop} {m : ServiceManager} {words : List Text} {allowed : List Int}

/-- Running the program comes to what the control comes to; it fails unless the code is allowed. -/
theorem spec_run_control (hm : m.connected = true)
    (h : ∀ control, C control → D (control.run words).1 (control.run words).2) :
    Spec (Host.On P C) (m.run words allowed)
      (fun answer => Host.On P fun control => ∃ printed, D (.finished answer.1 printed) control ∧
        (answer.1 = 0 ∨ answer.1 ∈ allowed))
      (Host.On P fun control => ∃ result, D result control ∧ ¬ result.Accepted allowed) := by
  unfold ServiceManager.run
  rw [hm]
  refine spec_bind (spec_runControl h) fun result => ?_
  cases result with
  | finished code output =>
    dsimp only
    split
    next hcode =>
      refine spec_throw _ fun host hhost => ⟨hhost.file, hhost.files, _, hhost.control, ?_⟩
      rintro ⟨_, _, heq, hallowed⟩
      cases heq
      exact hallowed.elim hcode.1 hcode.2
    next hcode =>
      refine spec_pure _ fun host hhost => ⟨hhost.file, hhost.files, output, hhost.control, ?_⟩
      exact Decidable.or_iff_not_imp_left.mpr fun hzero =>
        Decidable.of_not_not fun hnot => hcode ⟨hzero, hnot⟩
  | _ =>
    refine spec_throw _ fun host hhost => ⟨hhost.file, hhost.files, _, hhost.control, ?_⟩
    rintro ⟨_, _, heq, -⟩
    cases heq

/-- A service that is there is found, unless the run fails. -/
theorem spec_exists? :
    Spec (Host.On P (·.Serves quiet name S)) (m.exists? name)
      (fun found host => (quiet → found = true) ∧ host.On P (·.Serves quiet name S))
      (Host.On P (·.Serves quiet name S)) := by
  have hcommand : Spec (Host.On P (·.Serves quiet name S)) (m.startCommand? name)
      (fun found host => (quiet → found ≠ none) ∧ host.On P (·.Serves quiet name S))
      (Host.On P (·.Serves quiet name S)) := by
    refine spec_bind (spec_run (by decide) (acts_qc _ S)) fun answer => ?_
    obtain ⟨code, output⟩ := answer
    intro host hhost
    have hend : host.On P (·.Serves quiet name S) :=
      ⟨hhost.file, hhost.files, hhost.control.mono fun _ h => h.elim (·.2.2) (·.2.2.2)⟩
    dsimp only
    split
    next hcode =>
      refine ⟨fun hquiet => ?_, hend⟩
      obtain ⟨t, -, ht⟩ := hhost.control
      obtain ⟨entry, -, hentry⟩ := ht.entry
      rcases hentry with ⟨hzero, -⟩ | ⟨hnot, -⟩
      · exact absurd (hcode.symm.trans hzero) (by decide)
      · exact absurd hquiet hnot
    next =>
      split
      next => exact ⟨fun _ => Option.some_ne_none _, hend⟩
      next => exact hend
  refine spec_bind hcommand fun found => spec_pure _ fun host hhost => ⟨fun hquiet => ?_, hhost.2⟩
  exact Option.isSome_iff_ne_none.mpr (hhost.1 hquiet)

/-- A service that is not there is not found. -/
theorem spec_exists?_vacant {described : Prop} (hm : m.connected = true) :
    Spec (Host.On P (·.Vacant quiet described name)) (m.exists? name)
      (fun found host => found = false ∧ host.On P (·.Vacant quiet described name))
      (Host.On P (·.Vacant quiet described name)) := by
  have hrun : Spec (Host.On P (·.Vacant quiet described name))
      (m.run [text "qc", name, configRoom] [doesNotExist])
      (fun answer host => answer.1 = doesNotExist ∧
        host.On P (·.Vacant quiet described name))
      (Host.On P (·.Vacant quiet described name)) := by
    refine (spec_run_control (D := fun result control =>
      result.Fails ∧ control.Vacant quiet described name) hm ?_).weaken (fun _ h => h) ?_ ?_
    · rintro control ⟨hlacks, hheeds⟩
      obtain ⟨hfails, hlacks⟩ :=
        hlacks.run (by decide : text "qc" ≠ text "create") [configRoom]
      exact ⟨hfails, hlacks, fun h => (hheeds h).run _⟩
    · rintro ⟨code, output⟩ host ⟨hfile, hfiles, printed, ⟨hfails, hcontrol⟩, hallowed⟩
      exact ⟨List.mem_singleton.mp (hallowed.resolve_left hfails), hfile, hfiles, hcontrol⟩
    · rintro host ⟨hfile, hfiles, result, ⟨-, hcontrol⟩, -⟩
      exact ⟨hfile, hfiles, hcontrol⟩
  have hnone : Spec (Host.On P (·.Vacant quiet described name)) (m.startCommand? name)
      (fun found host => found = none ∧ host.On P (·.Vacant quiet described name))
      (Host.On P (·.Vacant quiet described name)) := by
    refine spec_bind hrun ?_
    rintro ⟨code, output⟩ host ⟨hcode, hhost⟩
    dsimp only at hcode ⊢
    rw [if_pos hcode]
    exact ⟨rfl, hhost⟩
  refine spec_bind hnone fun found => spec_pure _ ?_
  rintro host ⟨rfl, hhost⟩
  exact ⟨rfl, hhost⟩

/-- A run that no code but zero is allowed for does what it is to do, or fails. -/
theorem spec_run_strict {A B : ServiceControl → Prop} (hm : m.connected = true)
    (h : ∀ control, C control →
      ((∃ output, (control.run words).1 = .finished 0 output) ∧ A (control.run words).2) ∨
        ((control.run words).1.Fails ∧ B (control.run words).2)) :
    Spec (Host.On P C) (m.run words []) (fun _ => Host.On P A) (Host.On P B) := by
  refine (spec_run_control (D := fun result control =>
    ((∃ output, result = .finished 0 output) ∧ A control) ∨ (result.Fails ∧ B control)) hm h).weaken
      (fun _ hhost => hhost) ?_ ?_
  · rintro ⟨code, output⟩ host ⟨hfile, hfiles, printed, hdone, hallowed⟩
    refine ⟨hfile, hfiles, ?_⟩
    rcases hdone with ⟨-, hA⟩ | ⟨hfails, -⟩
    · exact hA
    · exact absurd (hallowed.resolve_right List.not_mem_nil) hfails
  · rintro host ⟨hfile, hfiles, result, hdone, hnot⟩
    refine ⟨hfile, hfiles, ?_⟩
    rcases hdone with ⟨⟨output, rfl⟩, -⟩ | ⟨-, hB⟩
    · exact absurd ⟨0, output, rfl, .inl rfl⟩ hnot
    · exact hB

/-- A service that is there already is not made again. -/
theorem spec_create_serves (hm : m.connected = true) (command : Text)
    (displayName description : Option Text) :
    Spec (Host.On P (·.Serves quiet name S)) (m.create name command displayName description)
      (fun _ _ => False) (Host.On P (·.Serves quiet name S)) := by
  refine spec_bind (spec_log _ _) fun _ => ?_
  refine spec_bind ((spec_run_strict (A := fun _ => False) hm fun control h =>
    .inr h.run_create).ending fun _ host hhost => hhost.control) fun _ _ => False.elim

section Making

variable {described : Prop} {command shown description : Text}

/-- A service that is not there is made, without a description, by a command with its name. -/
theorem spec_make (hm : m.connected = true) :
    Spec (Host.On P (·.Vacant quiet described name)) (m.run (createWords name command shown) [])
      (fun _ => Host.On P fun control =>
        control.Serves quiet name (· = ⟨command, ServiceState.stopped, shown, []⟩) ∧
          control.launch.takes name = true ∧
            (described → control.Heeds (text "description")))
      (Host.On P (·.Lacks quiet name)) := by
  refine spec_run_strict hm ?_
  rintro control ⟨hlacks, hheeds⟩
  rcases hlacks.run_create command shown with ⟨hdone, hserves, hname⟩ | ⟨hfails, hlacks⟩
  · exact .inl ⟨hdone, hserves, hname, fun h => (hheeds h).run _⟩
  · exact .inr ⟨hfails, hlacks⟩

/-- A service that was made is described; where that fails, it has no description. -/
theorem spec_describe (hm : m.connected = true)
    (hdescription : ∀ c ∈ description, c.isSpellable = true) :
    Spec
      (Host.On P fun control =>
        control.Serves quiet name (· = ⟨command, ServiceState.stopped, shown, []⟩) ∧
          control.launch.takes name = true ∧
            (described → control.Heeds (text "description")))
      (m.run (descriptionWords name description) [])
      (fun _ => Host.On P (·.Serves quiet name
        (· = ⟨command, ServiceState.stopped, shown, description⟩)))
      (Host.On P fun control => ¬ described ∧
        control.Serves quiet name (· = ⟨command, ServiceState.stopped, shown, []⟩)) := by
  refine spec_run_strict hm ?_
  rintro control ⟨hserves, hname, hheeds⟩
  rcases hserves.run_description hname description hdescription with
    ⟨hdone, hserves⟩ | ⟨hfails, hnot, hserves⟩
  · refine .inl ⟨hdone, hserves.mono ?_⟩
    rintro _ ⟨_, rfl, rfl⟩
    rfl
  · exact .inr ⟨hfails, mt hheeds hnot, hserves⟩

/-- A service that is not there is made and described. Where only describing it fails, it is there
without a description. -/
theorem spec_create (hm : m.connected = true) (command : Text) (hshown : shown ≠ [])
    (hdescription : description ≠ [])
    (hspellable : ∀ c ∈ description, c.isSpellable = true) :
    Spec (Host.On P (·.Vacant quiet described name))
      (m.create name command (some shown) (some description))
      (fun _ => Host.On P (·.Serves quiet name
        (· = ⟨command, ServiceState.stopped, shown, description⟩)))
      (Host.On P fun control => control.Lacks quiet name ∨
        (¬ described ∧
          control.Serves quiet name (· = ⟨command, ServiceState.stopped, shown, []⟩))) := by
  obtain ⟨first, shown, rfl⟩ := List.exists_cons_of_ne_nil hshown
  obtain ⟨first', description, rfl⟩ := List.exists_cons_of_ne_nil hdescription
  refine spec_bind (spec_log _ _) fun _ => ?_
  refine spec_bind ((spec_make hm).failing fun host hhost =>
    ⟨hhost.file, hhost.files, .inl hhost.control⟩) fun _ => ?_
  refine spec_bind ((spec_describe hm hspellable).failing fun host hhost =>
    ⟨hhost.file, hhost.files, .inr hhost.control⟩) fun _ => ?_
  exact spec_pure _ fun _ hhost => hhost

end Making

end ServiceManager

end NodeBootstrap
