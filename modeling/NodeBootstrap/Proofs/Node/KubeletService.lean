import NodeBootstrap.Proofs.Node.KubeletOrder
import NodeBootstrap.Proofs.Service.Disturbance

/-!
# The service of the kubelet

An installation that finds the service gives it the start command and starts it; of its names it
changes none. One that does not find it makes the service under names of its own. The description
comes last, so a service that an installation has made may be without one.
-/

set_option autoImplicit false

namespace NodeBootstrap.Kubelet

open ServiceManager

/-- What is said of an entry whatever its state and its start command are. -/
structure Stable (S : ServiceEntry → Prop) : Prop where
  state : ∀ entry state, S entry → S { entry with state := state }
  command : ∀ entry command, S entry → S { entry with command := command }

/-- The names of a service that an installation has made. If it is to be `described`, it is. -/
structure Made (described : Prop) (entry : ServiceEntry) : Prop where
  displayName : entry.displayName = displayName
  description : entry.description = description ∨ (¬ described ∧ entry.description = [])

/-- A service that has a start command, and runs if nothing happens meanwhile. -/
structure Started (quiet : Prop) (S : ServiceEntry → Prop) (startCommand : Text)
    (entry : ServiceEntry) : Prop where
  names : S entry
  command : entry.command = startCommand
  state : quiet → entry.state = ServiceState.running

variable {n : Node} {startCommand : Text} {quiet described : Prop} {P : FileTree → Prop}
  {S : ServiceEntry → Prop}

theorem stable_made (described : Prop) : Stable (Made described) where
  state _ _ h := ⟨h.displayName, h.description⟩
  command _ _ h := ⟨h.displayName, h.description⟩

/-- A service that has a start command is started, and has it then. -/
theorem spec_started (hS : Stable S) (message : Text) :
    Spec
      (NodeState.On P (·.Serves quiet n.serviceName fun entry =>
        S entry ∧ entry.command = startCommand))
      (do
        n.services.start n.serviceName
        NodeStep.log .info message)
      (fun _ => NodeState.On P (·.Serves quiet n.serviceName (Started quiet S startCommand)))
      (NodeState.On P (·.Serves quiet n.serviceName S)) := by
  have hstart : Spec
      (NodeState.On P (·.Serves quiet n.serviceName fun entry =>
        S entry ∧ entry.command = startCommand))
      (n.services.start n.serviceName : NodeStep Unit)
      (fun _ => NodeState.On P (·.Serves quiet n.serviceName (Started quiet S startCommand)))
      (NodeState.On P (·.Serves quiet n.serviceName S)) := by
    refine (spec_ofHost (spec_start fun entry h => ⟨hS.state entry _ h.1, h.2⟩)).weaken
      (fun _ hs => hs) (fun _ => ?_) ?_
    · exact NodeState.On.control_mono fun _ hserves => hserves.mono fun _ h => ⟨h.1.1, h.1.2, h.2⟩
    · exact NodeState.On.control_mono fun _ hserves => hserves.mono fun _ h => h.1
  exact spec_bind hstart fun _ => spec_nodeLog _ _

/-! ## A service that is there -/

/-- A service that is there is found, unless the run fails, and stopped. -/
theorem spec_hold (hS : Stable S) :
    Spec (NodeState.On P (·.Serves quiet n.serviceName S)) (hold n)
      (fun exists? s => (quiet → exists? = true) ∧ s.On P (·.Serves quiet n.serviceName S))
      (NodeState.On P (·.Serves quiet n.serviceName S)) := by
  have hexists : Spec (NodeState.On P (·.Serves quiet n.serviceName S))
      (n.services.exists? n.serviceName : NodeStep Bool)
      (fun found s => (quiet → found = true) ∧ s.On P (·.Serves quiet n.serviceName S))
      (NodeState.On P (·.Serves quiet n.serviceName S)) :=
    spec_ofHost_ends fun s hs => spec_exists? s.host hs
  obtain ⟨-, hname⟩ | ⟨-, hname⟩ := n.requireName_cases
  case inr =>
    rw [hold, hname]
    exact spec_throw _ fun _ hs => hs
  rw [hold, hname]
  refine spec_bind hexists fun exists? => Spec.knowing fun hfound => ?_
  cases exists? with
  | false => exact spec_pure _ fun s hs => ⟨hfound, hs⟩
  | true =>
    refine spec_bind (spec_ofHost (spec_stop fun entry => hS.state entry _)) fun _ => ?_
    refine spec_pure _ fun s hs => ⟨fun _ => rfl, ?_⟩
    exact NodeState.On.control_mono (fun _ hserves => hserves.mono fun _ h => h.1) s hs

/-- A service that is there is given the start command and started; it is not made again. -/
theorem spec_register (hS : Stable S) (exists? : Bool) :
    Spec (NodeState.On P (·.Serves quiet n.serviceName S)) (register n exists? startCommand)
      (fun _ => NodeState.On P (·.Serves quiet n.serviceName (Started quiet S startCommand)))
      (NodeState.On P (·.Serves quiet n.serviceName S)) := by
  cases exists? with
  | false =>
    -- a query that was answered for the program has hidden the service: making it again fails
    refine spec_bind (Q := fun _ _ => False) ?_ fun _ _ => False.elim
    exact spec_ofHost_ends fun s hs => spec_create_serves rfl _ _ _ s.host hs
  | true =>
    have hset : Spec (NodeState.On P (·.Serves quiet n.serviceName S))
        (n.services.setStartCommand n.serviceName startCommand : NodeStep Unit)
        (fun _ => NodeState.On P (·.Serves quiet n.serviceName fun entry =>
          S entry ∧ entry.command = startCommand))
        (NodeState.On P (·.Serves quiet n.serviceName S)) := by
      refine (spec_ofHost (spec_setStartCommand startCommand)).ending fun _ => ?_
      refine NodeState.On.control_mono fun _ hserves => hserves.mono ?_
      rintro _ ⟨before, hbefore, rfl⟩
      exact ⟨hS.command before startCommand hbefore, rfl⟩
    exact spec_bind hset fun _ => spec_started hS _

/-! ## A service that is not there -/

/-- A service that is not there is not found, and nothing is stopped. -/
theorem spec_hold_vacant :
    Spec (NodeState.On P (·.Vacant quiet described n.serviceName)) (hold n)
      (fun exists? s => exists? = false ∧ s.On P (·.Vacant quiet described n.serviceName))
      (NodeState.On P (·.Vacant quiet described n.serviceName)) := by
  have hexists : Spec (NodeState.On P (·.Vacant quiet described n.serviceName))
      (n.services.exists? n.serviceName : NodeStep Bool)
      (fun found s => found = false ∧ s.On P (·.Vacant quiet described n.serviceName))
      (NodeState.On P (·.Vacant quiet described n.serviceName)) :=
    spec_ofHost_ends fun s hs => spec_exists?_vacant rfl s.host hs
  obtain ⟨-, hname⟩ | ⟨-, hname⟩ := n.requireName_cases
  case inr =>
    rw [hold, hname]
    exact spec_throw _ fun _ hs => hs
  rw [hold, hname]
  refine spec_bind hexists fun exists? => Spec.knowing ?_
  rintro rfl
  exact spec_pure _ fun s hs => ⟨rfl, hs⟩

/-- A service that is not there is made and started. Where that fails, it may be there already. -/
theorem spec_register_vacant :
    Spec (NodeState.On P (·.Vacant quiet described n.serviceName))
      (register n false startCommand)
      (fun _ => NodeState.On P (·.Serves quiet n.serviceName
        (Started quiet (Made True) startCommand)))
      (NodeState.On P fun control =>
        control.Misses n.serviceName ∨ control.Holds n.serviceName (Made described)) := by
  have hcreate : Spec (NodeState.On P (·.Vacant quiet described n.serviceName))
      (n.services.create n.serviceName startCommand (some displayName) (some description) :
        NodeStep Unit)
      (fun _ => NodeState.On P (·.Serves quiet n.serviceName fun entry =>
        Made True entry ∧ entry.command = startCommand))
      (NodeState.On P fun control =>
        control.Misses n.serviceName ∨ control.Holds n.serviceName (Made described)) := by
    refine (spec_ofHost (spec_create rfl startCommand (by decide) (by decide)
      (by decide))).weaken
      (fun _ hs => hs) (fun _ => ?_) ?_
    · refine NodeState.On.control_mono fun _ hserves => hserves.mono ?_
      rintro _ rfl
      exact ⟨⟨rfl, .inl rfl⟩, rfl⟩
    · refine NodeState.On.control_mono ?_
      rintro control (hlacks | ⟨hnot, hserves⟩)
      · exact .inl hlacks.misses
      · refine .inr (hserves.mono ?_).holds
        rintro _ rfl
        exact ⟨rfl, .inr ⟨hnot, rfl⟩⟩
  refine spec_bind hcreate fun _ => (spec_started (stable_made True) _).failing ?_
  refine NodeState.On.control_mono fun _ hserves => .inr (hserves.mono fun _ h => ?_).holds
  exact ⟨h.displayName, .inl (h.description.resolve_right fun hnot => hnot.1 trivial)⟩

end NodeBootstrap.Kubelet
