import NodeBootstrap.Proofs.Service.Registration

/-!
# Disturbed runs

What happens to a run of the program lies outside it: the service control program answers a verb
with a code of its own, a single run of it comes to something else, an operation on files is broken
off. A `Disturbance` is all of that for one run. It changes neither the services nor the files that
the run begins with.
-/

set_option autoImplicit false

namespace NodeBootstrap

/-- What happens to a run: verbs that the service control program answers with a code of its own,
single runs of it that come to something else, and operations on files that are broken off. -/
structure Disturbance where
  faults : OrderedMap Text (Int × Text)
  results : List (Option ProcessResult)
  refusals : List (Option FileTrouble)
  deriving DecidableEq, Repr

/-- Nothing happens. -/
def Disturbance.nothing : Disturbance := ⟨[], [], []⟩

/-- What the service control program does not do, it reports as a failure. -/
structure Disturbance.Reported (d : Disturbance) : Prop where
  faults : ∀ verb code output, d.faults.get? verb = some (code, output) → code ≠ 0
  results : ∀ result, some result ∈ d.results → result.Fails

/-- The service control program does what a verb says. -/
def Disturbance.Spares (d : Disturbance) (verb : Text) : Prop :=
  d.results = [] ∧ d.faults.get? verb = none

/-- A host on which something is going to happen. -/
def Host.disturbed (h : Host) (d : Disturbance) : Host :=
  { h with
    files := { h.files with troubles := d.refusals }
    control :=
      match h.control with
      | .script results => .script results
      | .table t => .table { t with faults := d.faults, troubles := d.results } }

/-- A control by a table that has a service in an entry with `S`. -/
def ServiceControl.Holds (name : Text) (S : ServiceEntry → Prop) (control : ServiceControl) :
    Prop :=
  ∃ t entry, control = .table t ∧ t.services.get? name = some entry ∧ S entry

/-- A control by a table that does not have a service. -/
def ServiceControl.Misses (name : Text) (control : ServiceControl) : Prop :=
  ∃ t, control = .table t ∧ t.services.get? name = none

/-- A service runs with a start command. -/
def Host.Runs (h : Host) (name command : Text) : Prop :=
  ∃ entry, h.services.get? name = some entry ∧ entry.command = command ∧
    entry.state = ServiceState.running

/-- What happens to files alone. -/
theorem Disturbance.reported_refusals (refusals : List (Option FileTrouble)) :
    Disturbance.Reported ⟨[], [], refusals⟩ := ⟨nofun, nofun⟩

theorem Disturbance.reported_nothing : Disturbance.nothing.Reported := reported_refusals []

/-- A verb that fails. -/
theorem Disturbance.reported_fault {verb output : Text} {code : Int} (hcode : code ≠ 0) :
    Disturbance.Reported ⟨[(verb, code, output)], [], []⟩ where
  faults other answered said hfault := by
    by_cases hverb : verb = other
    · rw [OrderedMap.get?, if_pos hverb] at hfault
      cases hfault
      exact hcode
    · rw [OrderedMap.get?, if_neg hverb] at hfault
      cases hfault
  results _ hresult := absurd hresult List.not_mem_nil

section Services

variable {quiet : Prop} {name : Text} {S S' : ServiceEntry → Prop} {control : ServiceControl}

theorem ServiceControl.Serves.holds (h : control.Serves quiet name S) : control.Holds name S := by
  obtain ⟨t, rfl, ht⟩ := h
  obtain ⟨entry, hentry, hS⟩ := ht.entry
  exact ⟨t, entry, rfl, hentry, hS⟩

theorem ServiceControl.Lacks.misses (h : control.Lacks quiet name) : control.Misses name := by
  obtain ⟨t, rfl, ht⟩ := h
  exact ⟨t, rfl, ht.entry⟩

/-- What holds of the entry of a service. -/
theorem Host.entry_of_holds {h : Host} (hcontrol : h.control.Holds name S) :
    ∃ entry, h.services.get? name = some entry ∧ S entry := by
  obtain ⟨t, entry, htable, hentry, hS⟩ := hcontrol
  rw [Host.services, htable]
  exact ⟨entry, hentry, hS⟩

theorem Host.entry_of_misses {h : Host} (hcontrol : h.control.Misses name) :
    h.services.get? name = none := by
  obtain ⟨t, htable, hentry⟩ := hcontrol
  rw [Host.services, htable]
  exact hentry

end Services

section Hosts

variable {h : Host} {d : Disturbance} {P : FileTree → Prop} {S : ServiceEntry → Prop} {name : Text}

/-- A disturbance changes neither files nor services. -/
theorem Host.On.disturbed (hhost : h.On P (·.Holds name S)) (hd : d.Reported) (hP : Steady P) :
    (h.disturbed d).On P (·.Serves (d = .nothing) name S) := by
  obtain ⟨t, entry, hcontrol, hentry, hS⟩ := hhost.control
  refine ⟨hhost.file, hP _ _ hhost.files, { t with faults := d.faults, troubles := d.results }, ?_,
    hd.results, hd.faults, ?_, entry, hentry, hS⟩
  · rw [Host.disturbed, hcontrol]
  · rintro rfl
    exact ⟨rfl, rfl⟩

/-- A service that is not there is not there in a run that something happens to. -/
theorem Host.On.disturbed_vacant {described : Prop} (hhost : h.On P (·.Misses name))
    (hd : d.Reported) (hdescribed : described → d.Spares (text "description")) (hP : Steady P) :
    (h.disturbed d).On P (·.Vacant (d = .nothing) described name) := by
  obtain ⟨t, hcontrol, hentry⟩ := hhost.control
  have hdisturbed : (h.disturbed d).control =
      .table { t with faults := d.faults, troubles := d.results } := by
    rw [Host.disturbed, hcontrol]
  refine ⟨hhost.file, hP _ _ hhost.files, ⟨_, hdisturbed, hd.results, hd.faults, ?_, hentry⟩, ?_⟩
  · rintro rfl
    exact ⟨rfl, rfl⟩
  · intro h t' ht'
    cases hdisturbed.symm.trans ht'
    exact hdescribed h

end Hosts

end NodeBootstrap
