import NodeBootstrap.Proofs.Service.Dialogue
import NodeBootstrap.Proofs.Service.Management

/-!
# Runs of the service control program and what they leave

`Host.Spent` records what a step of the manager costs: the commands it runs, in their order, and the
pauses it makes. A run of one command that goes through gives its code and what it printed; any
other that comes to its end is a failure of the services. Both cost the one command.
-/

set_option autoImplicit false

namespace NodeBootstrap

/-- The control behind some runs. -/
def ServiceControl.after (control : ServiceControl) (runs : List (List Text)) : ServiceControl :=
  runs.foldl (fun control words => (control.run words).2) control

/-- A host on which commands were run since another, with pauses between them. -/
structure Host.Spent (first : Host) (runs : List (List Text)) (pauses : List Value) (h : Host) :
    Prop where
  calls : h.calls = first.calls ++ runs.map (ServiceManager.program :: ·)
  sleeps : h.sleeps = first.sleeps ++ pauses
  control : h.control = first.control.after runs
  clock : h.clock = first.clock

section Spent

variable {first h h' : Host} {runs runs' : List (List Text)} {pauses pauses' : List Value}

theorem Host.Spent.refl (h : Host) : h.Spent [] [] h :=
  ⟨(List.append_nil _).symm, (List.append_nil _).symm, rfl, rfl⟩

theorem Host.Spent.trans (h₁ : first.Spent runs pauses h) (h₂ : h.Spent runs' pauses' h') :
    first.Spent (runs ++ runs') (pauses ++ pauses') h' where
  calls := by rw [h₂.calls, h₁.calls, List.map_append, List.append_assoc]
  sleeps := by rw [h₂.sleeps, h₁.sleeps, List.append_assoc]
  control := by
    rw [h₂.control, h₁.control]
    exact (List.foldl_append ..).symm
  clock := h₂.clock.trans h₁.clock

theorem Host.spent_ran (h : Host) (words : List Text) :
    h.Spent [words] [] (h.ran ServiceManager.program words) :=
  ⟨rfl, (List.append_nil _).symm, rfl, rfl⟩

theorem Host.spent_pause (h : Host) (length : Value) : h.Spent [] [length] (h.paused length) :=
  ⟨(List.append_nil _).symm, rfl, rfl, rfl⟩

/-- A log line is neither a command nor a pause. -/
theorem Host.spent_logged (h : Host) (level : LogLevel) (message : Text) :
    h.Spent [] [] (h.logged level message) := by
  obtain ⟨hcalls, hcontrol, -, hclock⟩ := h.logged_kept level message
  obtain ⟨hsleeps, -⟩ := h.logged_record level message
  refine ⟨?_, ?_, hcontrol, hclock⟩
  · rw [hcalls, List.map_nil, List.append_nil]
  · rw [hsleeps, List.append_nil]

end Spent

namespace ServiceManager

variable {m : ServiceManager} {words : List Text} {allowed : List Int} {h : Host}

/-- A run that goes through gives its code and what it printed. -/
theorem run_accepted (hm : m.connected = true) {code : Int} {output : Text}
    (hreply : (h.control.run words).1 = .finished code output)
    (hcode : code = 0 ∨ code ∈ allowed) :
    (m.run words allowed).run.run h = (.ok (code, Text.stripped output), h.ran program words) := by
  have hran : (Host.runControl program words).run.run h =
      (.ok (.finished code output), h.ran program words) := by
    rw [← hreply]
    rfl
  unfold ServiceManager.run
  rw [hm]
  show ((Host.runControl program words >>= _ : HostStep (Int × Text)).run.run h) = _
  rw [run_bind, hran]
  dsimp only
  rw [if_neg fun hnot => hcode.elim hnot.1 hnot.2]
  rfl

/-- Any other is a failure of the services. -/
theorem run_refused (hm : m.connected = true) (hbroken : (h.control.run words).1 ≠ .broken)
    (hnot : ¬ (h.control.run words).1.Accepted allowed) :
    ∃ fault, (m.run words allowed).run.run h =
      (.error (.service fault), h.ran program words) := by
  have hran : (Host.runControl program words).run.run h =
      (.ok (h.control.run words).1, h.ran program words) := rfl
  unfold ServiceManager.run
  rw [hm]
  show ∃ fault, ((Host.runControl program words >>= _ : HostStep (Int × Text)).run.run h) = _
  rw [run_bind, hran]
  generalize (h.control.run words).1 = reply at hbroken hnot
  cases reply with
  | finished code output =>
    have hcode : code ≠ 0 ∧ code ∉ allowed := by
      constructor
      · exact fun hzero => hnot ⟨code, output, rfl, .inl hzero⟩
      · exact fun hmem => hnot ⟨code, output, rfl, .inr hmem⟩
    dsimp only
    rw [if_pos hcode]
    exact ⟨_, rfl⟩
  | timedOut => exact ⟨_, rfl⟩
  | noProgram => exact ⟨_, rfl⟩
  | broken => exact absurd rfl hbroken

end ServiceManager

end NodeBootstrap
