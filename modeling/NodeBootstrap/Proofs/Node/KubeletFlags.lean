import NodeBootstrap.Proofs.Ignition.CollectedFlags
import NodeBootstrap.Proofs.Node.CniPrecedence
import NodeBootstrap.Proofs.Node.KubeletOrder

/-!
# The flags that a node collects

Five operations add to the flags of the kubelet, from the payload, for a cloud config and for the
network plugins, and each may fail half-way. Whatever is done with a node, in any order and on hosts
that change in between, the flags stay within eight names, and of these all but the two that are
carried over from the Linux kubelet have the one value that the node determines (`Collected`).

What an operation adds is said by `Collectable`. That nothing else is added goes through each
operation by its parts, since steps on the host leave the flags alone (`Gathers.after`).
-/

set_option autoImplicit false

namespace NodeBootstrap

open OrderedMap Ignition

/-! ## Operations -/

/-- What is done with a node. -/
inductive Operation
  | walk (contents : Bytes) (rules : Rules)
  | translate (source : Json) (transform : Option Transform)
  | updateFlags (command : Text)
  | install
  | configure

/-- An operation on a node; what it gives back is of no interest here. -/
def Operation.run (n : Node) : Operation → NodeStep Unit
  | .walk contents rules => Ignition.walk n contents rules
  | .translate source transform => do let _ ← materialize n source transform
  | .updateFlags command => do let _ ← Cni.updateFlags n command
  | .install => Kubelet.install n
  | .configure => Cni.configure n

/-- The state of a node after operations one behind the other, each on a host of its own. An
operation that fails leaves what it had changed. -/
def Node.after (n : Node) (s : NodeState) : List (Host × Operation) → NodeState
  | [] => s
  | (host, operation) :: rest => n.after ((operation.run n).run.run { s with host }).2 rest

/-! ## What is added -/

/-- A flag that an operation may add: one that the node determines, or one that is carried over. -/
def Collectable (n : Node) (flag : Text × Value) : Prop :=
  flag = (CloudConfig.flagName, .text (n.layout.file CloudConfig.fileName)) ∨
    flag ∈ (Cni.flags n.layout).map (fun f => (f.1, Value.text f.2)) ∨
      flag.1 ∈ carriedOver ∧ ∃ value, flag.2 = .text value

/-- Flags that are those a node begins with and collectable ones. -/
structure Gathers (n : Node) (first flags : Flags) : Prop where
  distinct : flags.keys.Nodup
  nodeIp : flags.get? Node.nodeIpFlag = first.get? Node.nodeIpFlag
  known : ∀ flag ∈ flags, flag ∈ first ∨ Collectable n flag

variable {n : Node} {test : Text → Except Failure Bool} {first flags : Flags}
  {nodeIp : Option Text}

theorem Collectable.ne_nodeIp {flag : Text × Value} (h : Collectable n flag) :
    flag.1 ≠ Node.nodeIpFlag := by
  rcases h with rfl | h | h
  · show CloudConfig.flagName ≠ Node.nodeIpFlag
    decide
  · obtain ⟨f, hf, rfl⟩ := List.mem_map.mp h
    have hname : f.1 ∈ Cni.flagNames := List.mem_map_of_mem hf
    have hnames : ∀ name ∈ Cni.flagNames, name ≠ Node.nodeIpFlag := by decide
    exact hnames f.1 hname
  · have hnames : ∀ name ∈ carriedOver, name ≠ Node.nodeIpFlag := by decide
    exact hnames flag.1 h.1

theorem Gathers.set (h : Gathers n first flags) {flag : Text × Value}
    (hflag : Collectable n flag) : Gathers n first (OrderedMap.set flags flag.1 flag.2) where
  distinct := nodup_keys_set h.distinct _ _
  nodeIp := (get?_set_ne flags flag.2 hflag.ne_nodeIp).trans h.nodeIp
  known := fun e he => (mem_set he).elim (fun heq => .inr (heq ▸ hflag)) (h.known e)

theorem Gathers.merge (h : Gathers n first flags) {entries : List (Text × Value)}
    (hentries : ∀ e ∈ entries, Collectable n e) :
    Gathers n first (OrderedMap.merge flags entries) := by
  induction entries generalizing flags with
  | nil => exact h
  | cons e entries ih =>
    obtain ⟨he, hentries⟩ := List.forall_mem_cons.mp hentries
    exact ih (h.set he) hentries

/-- The flags that a walk carries over are. -/
theorem collectable_carriedFlags (n : Node) (declared : OrderedMap Text Text) :
    ∀ e ∈ carriedFlags declared, Collectable n e := by
  intro e he
  obtain ⟨name, hname, hvalue⟩ := List.mem_filterMap.mp he
  obtain ⟨value, -, rfl⟩ := Option.map_eq_some_iff.mp hvalue
  exact .inr (.inr ⟨hname, value, rfl⟩)

theorem collectable_ownFlags {name value : Text} (h : (name, value) ∈ ownFlags n) :
    Collectable n (name, .text value) := by
  rcases List.mem_cons.mp h with heq | h
  · cases heq
    exact .inr (.inr ⟨List.mem_cons_of_mem _ List.mem_cons_self, _, rfl⟩)
  · cases List.mem_singleton.mp h
    exact .inl rfl

/-! ## What the operations keep -/

/-- A step on the host leaves the flags alone. -/
theorem keeps_flags_ofHost {α : Type} {P : Flags → Prop} (step : HostStep α) :
    Keeps (fun s => P s.kubeletFlags) (NodeStep.ofHost step) (fun _ => True) fun _ => True :=
  keeps_ofHost fun _ _ hs => ⟨hs, yields_trivial _⟩

theorem manages_flags (m : ServiceManager) (P : Flags → Prop) (s : NodeState) :
    Manages m (fun _ => True) (fun _ => P s.kubeletFlags) fun _ => True :=
  manages_any (fun _ _ _ h => h) (fun _ _ h => h) fun _ _ h => h

/-- A walk adds collectable flags at most. -/
theorem bears_gathers (n : Node) (first : Flags) :
    Bears n (fun _ => True) (fun _ => True) (fun _ => True)
      (fun s => Gathers n first s.kubeletFlags) fun _ => True where
  files := endures_of_forall_files fun _ _ h => h
  logs _ _ _ h := h
  flag _ _ _ hflag h := h.set (collectable_ownFlags hflag)
  declared _ declared _ h := h.merge (collectable_carriedFlags n declared)

theorem keeps_walk_gathers (n : Node) (first : Flags) (contents : Bytes) (rules : Rules) :
    Keeps (fun s => Gathers n first s.kubeletFlags) (walk n contents rules) (fun _ => True)
      fun _ => True :=
  keeps_walk (bears_gathers n first) (covers_any _) (fun _ => trivial) (readable_any contents rules)
    (fun _ _ _ _ => trivial) fun _ _ _ _ _ _ _ _ _ _ _ => ⟨trivial, yields_trivial _⟩

theorem keeps_updateFlags_gathers (n : Node) (first : Flags) (command : Text) :
    Keeps (fun s => Gathers n first s.kubeletFlags) (Cni.updateFlags n command) (fun _ => True)
      fun _ => True :=
  keeps_then (keeps_modify fun _ h => h.merge fun _ he => .inr (.inl he)) fun _ =>
    keeps_pure _ trivial

/-- An installation adds what the walk through its payload adds. -/
theorem keeps_install_gathers (n : Node) (first : Flags) :
    Keeps (fun s => Gathers n first s.kubeletFlags) (Kubelet.install n) (fun _ => True)
      fun _ => True := by
  have hchecks : Keeps (fun s => Gathers n first s.kubeletFlags) (Kubelet.checkInputs n)
      (fun _ => True) fun _ => True := by
    refine keeps_then keeps_get fun s => ?_
    dsimp only
    split
    next => exact keeps_throw _ trivial
    next =>
      split
      next => exact keeps_throw _ trivial
      next => exact keeps_pure _ trivial
  have hbears := bears_gathers n first
  rw [Kubelet.install_eq]
  refine keeps_then hchecks fun inputs => ?_
  have hmanages := manages_flags n.services (Gathers n first)
  refine keeps_then (Kubelet.keeps_hold hmanages trivial fun _ => trivial) fun exists? => ?_
  refine keeps_then (Kubelet.keeps_ready (Kubelet.keeps_installFiles hbears.files
    (Kubelet.coversFiles_any _) (Kubelet.located_any n _ _)
      fun contents _ => keeps_walk_gathers n first contents defaultRules)
        fun _ _ => yields_trivial _) fun startCommand => ?_
  exact Kubelet.keeps_register hmanages trivial trivial trivial exists? trivial

/-- Configuring the network plugins adds their flags. -/
theorem keeps_configure_gathers (n : Node) (first : Flags) :
    Keeps (fun s => Gathers n first s.kubeletFlags) (Cni.configure n) (fun _ => True)
      fun _ => True := by
  have hbears := bears_gathers n first
  have hcheck := Cni.keeps_checkInputs (n := n) hbears.files
  have hmake := (Cni.keeps_ensureDirectories (n := n) hbears.files hbears.logs).failing
    fun _ _ => trivial
  have hcopy := (Cni.keeps_copyFiles (n := n) hbears.files hbears.logs).failing fun _ _ => trivial
  have hprepare : Keeps (fun s => Gathers n first s.kubeletFlags) (Cni.prepare n) (fun _ => True)
      fun _ => True := by
    refine keeps_then (keeps_flags_ofHost _) fun found => ?_
    cases found with
    | none => exact keeps_throw _ trivial
    | some command =>
      exact keeps_then hcheck fun _ => keeps_then hmake fun _ => keeps_then hcopy fun _ =>
        keeps_pure _ trivial
  rw [Cni.configure_eq]
  obtain ⟨-, hrequire⟩ | ⟨-, hrequire⟩ := n.requireName_cases
  case inr =>
    rw [hrequire]
    exact keeps_throw _ trivial
  rw [hrequire]
  refine keeps_then hprepare fun command => ?_
  refine keeps_then (keeps_updateFlags_gathers n first command) fun newCommand => ?_
  exact keeps_then (keeps_flags_ofHost _) fun _ => keeps_then (keeps_flags_ofHost _) fun _ =>
    keeps_then (keeps_flags_ofHost _) fun _ => keeps_flags_ofHost _

/-- Every operation adds collectable flags at most, however it ends. -/
theorem keeps_operation_gathers (n : Node) (first : Flags) (operation : Operation) :
    Keeps (fun s => Gathers n first s.kubeletFlags) (operation.run n) (fun _ => True)
      fun _ => True := by
  cases operation with
  | walk contents rules => exact keeps_walk_gathers n first contents rules
  | translate source transform =>
    exact keeps_then (keeps_materialize (bears_gathers n first) (covers_any _) (yields_trivial _) _)
      fun _ => keeps_pure _ trivial
  | updateFlags command =>
    exact keeps_then (keeps_updateFlags_gathers n first command) fun _ => keeps_pure _ trivial
  | install => exact keeps_install_gathers n first
  | configure => exact keeps_configure_gathers n first

theorem Gathers.after {s : NodeState} (h : Gathers n first s.kubeletFlags)
    (operations : List (Host × Operation)) :
    Gathers n first (n.after s operations).kubeletFlags := by
  induction operations generalizing s with
  | nil => exact h
  | cons e rest ih => exact ih (keeps_operation_gathers n first e.2 { s with host := e.1 } h).1

/-! ## The flags of a node -/

/-- The names that flags of a node may have. -/
def collectableNames : List Text :=
  Node.nodeIpFlag :: CloudConfig.flagName :: (carriedOver ++ Cni.flagNames)

/-- What the flags of a node are like, whatever was done with it. -/
structure Collected (n : Node) (test : Text → Except Failure Bool) (nodeIp : Option Text)
    (flags : Flags) : Prop where
  names : ∀ name ∈ flags.keys, name ∈ collectableNames
  distinct : flags.keys.Nodup
  /-- The address is the one that the node was made with, if one was given, and it passed the
  test. -/
  address : flags.get? Node.nodeIpFlag = (nodeIp.filter (!·.isEmpty)).map .text
  valid : ∀ address, nodeIp.filter (!·.isEmpty) = some address → test address = .ok true
  cloudConfig : ∀ value, flags.get? CloudConfig.flagName = some value →
    value = .text (n.layout.file CloudConfig.fileName)
  cni : ∀ f ∈ Cni.flags n.layout, ∀ value, flags.get? f.1 = some value → value = .text f.2

theorem test_of_firstFlags (h : Node.firstFlagsBy test nodeIp = .ok first) {address : Text}
    (haddress : nodeIp.filter (!·.isEmpty) = some address) : test address = .ok true := by
  obtain ⟨rfl, hne⟩ := Option.filter_eq_some_iff.mp haddress
  unfold Node.firstFlagsBy at h
  split at h
  next heq => cases heq
  next heq =>
    cases heq
    cases hne
  next heq =>
    cases heq
    obtain ⟨valid, hvalid, h⟩ := bind_eq_ok.mp h
    cases valid with
    | false => cases h
    | true => exact hvalid

/-- A node begins with collectable flags. -/
theorem gathers_first (n : Node) (h : Node.firstFlagsBy test nodeIp = .ok first) :
    Gathers n first first where
  distinct := by
    rw [firstFlags_eq_ok h]
    cases nodeIp.filter (!·.isEmpty) with
    | none => exact List.nodup_nil
    | some address => exact List.pairwise_singleton _ _
  nodeIp := rfl
  known := fun _ he => .inl he

/-- A node begins with its address at most. -/
theorem eq_nodeIpFlag_of_firstFlags (hfirst : Node.firstFlagsBy test nodeIp = .ok first)
    {e : Text × Value} (he : e ∈ first) : e.1 = Node.nodeIpFlag := by
  rw [firstFlags_eq_ok hfirst] at he
  exact eq_of_mem_keys_ofOption (List.mem_map_of_mem he)

theorem Gathers.mem_collectableNames (h : Gathers n first flags)
    (hfirst : Node.firstFlagsBy test nodeIp = .ok first) {name : Text} (hname : name ∈ flags.keys) :
    name ∈ collectableNames := by
  obtain ⟨e, he, rfl⟩ := List.mem_map.mp hname
  rcases h.known e he with hold | rfl | hplugin | hcarried
  · rw [eq_nodeIpFlag_of_firstFlags hfirst hold]
    exact List.mem_cons_self
  · exact List.mem_cons_of_mem _ List.mem_cons_self
  · obtain ⟨f, hf, rfl⟩ := List.mem_map.mp hplugin
    have hcni : f.1 ∈ Cni.flagNames := List.mem_map_of_mem hf
    exact List.mem_cons_of_mem _ (List.mem_cons_of_mem _ (List.mem_append_right _ hcni))
  · exact List.mem_cons_of_mem _ (List.mem_cons_of_mem _ (List.mem_append_left _ hcarried.1))

/-- A flag that is neither the address nor carried over is the one that points at the cloud config
or one of the network plugins. -/
theorem Gathers.determined (h : Gathers n first flags)
    (hfirst : Node.firstFlagsBy test nodeIp = .ok first)
    {name : Text} {value : Value} (hget : flags.get? name = some value)
    (hne : name ≠ Node.nodeIpFlag) (hnot : name ∉ carriedOver) :
    (name, value) = (CloudConfig.flagName, .text (n.layout.file CloudConfig.fileName)) ∨
      ∃ f ∈ Cni.flags n.layout, (f.1, Value.text f.2) = (name, value) := by
  rcases h.known (name, value) ((mem_iff_get? h.distinct (name, value)).mpr hget)
    with hold | hcloud | hplugin | hcarried
  · exact absurd (eq_nodeIpFlag_of_firstFlags hfirst hold) hne
  · exact .inl hcloud
  · exact .inr (List.mem_map.mp hplugin)
  · exact absurd hcarried.1 hnot

theorem Gathers.cloudConfig (h : Gathers n first flags)
    (hfirst : Node.firstFlagsBy test nodeIp = .ok first) {value : Value}
    (hget : flags.get? CloudConfig.flagName = some value) :
    value = .text (n.layout.file CloudConfig.fileName) := by
  rcases h.determined hfirst hget (by decide) (by decide) with heq | ⟨f, hf, heq⟩
  · exact congrArg Prod.snd heq
  · have hnot : CloudConfig.flagName ∉ Cni.flagNames := by decide
    have hname : f.1 = CloudConfig.flagName := congrArg Prod.fst heq
    exact absurd (hname ▸ List.mem_map_of_mem hf) hnot

theorem Gathers.cni (h : Gathers n first flags)
    (hfirst : Node.firstFlagsBy test nodeIp = .ok first)
    {f : Text × Text} (hf : f ∈ Cni.flags n.layout) {value : Value}
    (hget : flags.get? f.1 = some value) : value = .text f.2 := by
  have hnames : ∀ name ∈ Cni.flagNames, name ≠ Node.nodeIpFlag ∧ name ∉ carriedOver ∧
      name ≠ CloudConfig.flagName := by decide
  obtain ⟨hne, hnot, hcloud⟩ := hnames f.1 (List.mem_map_of_mem hf)
  rcases h.determined hfirst hget hne hnot with heq | ⟨f', hf', heq⟩
  · exact absurd (congrArg Prod.fst heq) hcloud
  · -- the names of the flags are distinct, so the two are one flag
    have hdistinct : (keys (Cni.flags n.layout)).Nodup := Cni.nodup_flagNames
    have hsame := (mem_iff_get? hdistinct f).mp hf
    obtain ⟨hname, hvalue⟩ := Prod.mk.inj heq
    rw [← hname, (mem_iff_get? hdistinct f').mp hf'] at hsame
    rw [← hvalue, Option.some.inj hsame]

/-- The flags of a node are those it begins with and collectable ones. -/
theorem Gathers.collected (h : Gathers n first flags)
    (hfirst : Node.firstFlagsBy test nodeIp = .ok first) : Collected n test nodeIp flags where
  names _ := h.mem_collectableNames hfirst
  distinct := h.distinct
  address := by
    rw [h.nodeIp, firstFlags_eq_ok hfirst]
    cases nodeIp.filter (!·.isEmpty) with
    | none => rfl
    | some address => exact if_pos rfl
  valid _ := test_of_firstFlags hfirst
  cloudConfig _ := h.cloudConfig hfirst
  cni _ hf _ := h.cni hfirst hf

end NodeBootstrap
