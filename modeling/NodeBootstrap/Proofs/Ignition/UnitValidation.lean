import NodeBootstrap.Proofs.Ignition.Keeping
import NodeBootstrap.Proofs.Ignition.Materialized

/-!
# When a walk is refused for the unit

The flags of the unit are checked one after the other before the first of them is taken, and nothing
behind them is refused as an argument. So a walk fails with an argument that is invalid exactly if
the start command cannot be split or one of its flags for the cloud config names no file, whether a
later one overrides it or not, and such a walk has changed nothing (`walk_argument_iff`).
-/

set_option autoImplicit false

namespace NodeBootstrap.Ignition

open CloudConfig

/-! ## The check -/

/-- A path whose last name is that of no file. -/
def NamesNoFile (path : Text) : Prop := Path.baseName path ∈ [[], text ".", text ".."]

instance (path : Text) : Decidable (NamesNoFile path) := inferInstanceAs (Decidable (_ ∈ _))

/-- A start command that cannot be split, or in which the flag for the cloud config names no file,
be it at its last occurrence or at an earlier one. -/
def Invalid (command : Text) : Prop :=
  (∃ cause, ShellWords.split command = .error cause) ∨
    ∃ flags path, Command.flagsOf command = .ok flags ∧ (flagName, path) ∈ flags ∧ NamesNoFile path

theorem fileNameOf?_isNone (path : Text) :
    (UnitFile.fileNameOf? path).isNone = true ↔ NamesNoFile path := by
  rw [UnitFile.fileNameOf?, NamesNoFile]
  split
  next h => exact iff_of_true rfl (by simpa using h)
  next h => exact iff_of_false nofun (by simpa using h)

/-- What one flag is refused for. -/
theorem checkFlag_cases (flag : Text × Text) :
    (checkFlag flag = .ok () ∧ ¬ (flag.1 = flagName ∧ NamesNoFile flag.2)) ∨
      (checkFlag flag = .error (.argument (.noCloudConfigName flag.2)) ∧
        flag.1 = flagName ∧ NamesNoFile flag.2) := by
  rw [checkFlag]
  split
  next h => exact .inr ⟨rfl, h.1, (fileNameOf?_isNone flag.2).mp h.2⟩
  next h => exact .inl ⟨rfl, fun hbad => h ⟨hbad.1, (fileNameOf?_isNone flag.2).mpr hbad.2⟩⟩

/-- Flags are refused for the first of them that is. -/
theorem forM_checkFlag_cases (flags : List (Text × Text)) :
    (flags.forM checkFlag = .ok () ∧ ∀ path, (flagName, path) ∈ flags → ¬ NamesNoFile path) ∨
      ∃ path, flags.forM checkFlag = .error (.argument (.noCloudConfigName path)) ∧
        (flagName, path) ∈ flags ∧ NamesNoFile path := by
  induction flags with
  | nil => exact .inl ⟨rfl, nofun⟩
  | cons flag flags ih =>
    obtain ⟨name, value⟩ := flag
    have hstep : ((name, value) :: flags).forM checkFlag =
        checkFlag (name, value) >>= fun _ => flags.forM checkFlag := rfl
    rw [hstep]
    obtain ⟨hcheck, hgood⟩ | ⟨hcheck, rfl, hbad⟩ := checkFlag_cases (name, value)
    · rw [hcheck, ok_bind]
      obtain ⟨hrest, hall⟩ | ⟨path, hrest, hmem, hbad⟩ := ih
      · refine .inl ⟨hrest, fun path hmem hbad => ?_⟩
        obtain heq | hmem := List.mem_cons.mp hmem
        · cases heq
          exact hgood ⟨rfl, hbad⟩
        · exact hall path hmem hbad
      · exact .inr ⟨path, hrest, List.mem_cons_of_mem _ hmem, hbad⟩
    · rw [hcheck]
      exact .inr ⟨value, rfl, List.mem_cons_self, hbad⟩

/-- The flags of a command are refused as an argument, and exactly if it is invalid. -/
theorem declaredFlags_cases (command : Text) :
    ((∃ declared, declaredFlags command = .ok declared) ∧ ¬ Invalid command) ∨
      (∃ fault, declaredFlags command = .error (.argument fault)) ∧ Invalid command := by
  unfold declaredFlags Invalid
  cases hsplit : ShellWords.split command with
  | error cause =>
    have hflags : Command.flagsOf command = .error cause := by
      rw [Command.flagsOf, hsplit]
      rfl
    rw [hflags]
    exact .inr ⟨⟨_, rfl⟩, .inl ⟨cause, rfl⟩⟩
  | ok words =>
    have hflags : Command.flagsOf command = .ok (words.filterMap Command.flagOf?) := by
      rw [Command.flagsOf, hsplit]
      rfl
    rw [hflags]
    obtain ⟨hcheck, hall⟩ | ⟨path, hcheck, hmem, hbad⟩ :=
      forM_checkFlag_cases (words.filterMap Command.flagOf?)
    · refine .inl ⟨?_, ?_⟩
      · rw [mapError_ok, ok_bind, hcheck]
        exact ⟨_, rfl⟩
      · rintro (⟨cause, h⟩ | ⟨flags, path, h, hmem, hbad⟩)
        · cases h
        · cases h
          exact hall path hmem hbad
    · refine .inr ⟨?_, .inr ⟨_, path, rfl, hmem, hbad⟩⟩
      rw [mapError_ok, ok_bind, hcheck]
      exact ⟨_, rfl⟩

/-! ## Everything else -/

/-- A failure that is not that of an invalid argument. -/
def NoArgument (failure : Failure) : Prop := ∀ fault, failure ≠ .argument fault

theorem noArgument_kind (fault : KindFault) : NoArgument (.kind fault) := nofun

theorem noArgument_document (fault : DocumentFault) : NoArgument (.document fault) := nofun

theorem noArgument_source (fault : DataUri.Fault) : NoArgument (Failure.ofSourceFault fault) := by
  cases fault <;> exact nofun

/-- Of the files and flags of a node nothing is kept, and files fail in any way. -/
theorem bears_nothing (n : Node) :
    Bears n (fun _ => True) (fun _ => True) (fun _ => True) (fun _ => True) fun _ => True where
  files := endures_of_forall_files fun _ _ h => h
  logs _ _ _ h := h
  flag _ _ _ _ h := h
  declared _ _ _ h := h

theorem covers_noArgument : Covers NoArgument fun _ => True where
  transform _ := nofun
  write _ fault _ := by cases fault <;> exact nofun

theorem yields_files (document : Json) :
    Yields (fun _ => True) NoArgument (files document) := by
  refine yields_bind (p := fun _ => True) (yields_mapError ?_) fun items _ => ?_
  · exact (yields_trivial _).mono (fun _ h => h) fun fault _ => noArgument_kind fault
  · split
    next => exact trivial
    next =>
      split
      next => exact trivial
      next => exact noArgument_document _

theorem keeps_walkFiles_noArgument (n : Node) (document : Json) (rules : Rules) :
    Keeps (fun _ => True) (walkFiles n document rules) (fun _ => True) NoArgument :=
  keeps_walkFiles (bears_nothing n) covers_noArgument (yields_files document)
    (fun _ entry _ _ =>
      entryReadable_of noArgument_kind noArgument_document noArgument_source rules entry)
    fun _ _ _ _ _ _ _ => ⟨trivial, yields_trivial _⟩

/-! ## The whole walk -/

section Walk

variable {n : Node} {contents : Bytes} {rules : Rules} {s : NodeState} {document unit : Json}
  {t : Text}

theorem unitContents_of_member (h : unit.member? (text "contents") = some (.string t)) :
    unitContents unit = .ok t := by
  rw [unitContents, h]
  rfl

/-- Behind a payload with a unit the walk is that of the unit and that of the files. -/
theorem run_walk_of_unit (hload : load contents = .ok document)
    (hunit : unit? document kubeletUnitName = .ok (some unit)) :
    (walk n contents rules).run.run s =
      (readUnit n unit rules >>= walkFiles n document).run.run s := by
  rw [walk_eq, hload, run_bind, run_ofExcept]
  dsimp only
  rw [hunit, run_bind, run_ofExcept]

/-- Reading a unit begins with its start command. -/
theorem run_readUnit_of_command {command : Text} (hcontents : unitContents unit = .ok t)
    (hcommand : UnitFile.execStart? t = some command) {fault : ArgumentFault}
    (hflags : declaredFlags command = .error (.argument fault)) :
    (readUnit n unit rules).run.run s = (.error (.argument fault), s) := by
  rw [readUnit, hcontents, mapError_ok, run_bind, run_ofExcept]
  dsimp only
  rw [hcommand]
  dsimp only
  rw [hflags, run_bind, run_ofExcept]

/-- A unit whose flags are taken is not refused. -/
theorem keeps_readUnit_noArgument (hcontents : unitContents unit = .ok t)
    (hvalid : ∀ command, UnitFile.execStart? t = some command →
      ∃ declared, declaredFlags command = .ok declared) :
    Keeps (fun _ => True) (readUnit n unit rules) (fun _ => True) NoArgument := by
  have hlog : ∀ level message,
      Keeps (fun _ => True) (NodeStep.log level message) (fun _ => True) NoArgument :=
    fun level message => keeps_nodeLog (fun _ _ _ h => h) level message
  rw [readUnit, hcontents, mapError_ok]
  refine keeps_bind (p := fun found => found = t) (keeps_pure t rfl) fun found hfound => ?_
  rw [hfound]
  cases hcommand : UnitFile.execStart? t with
  | none => exact keeps_then (hlog _ _) fun _ => keeps_pure _ trivial
  | some command =>
    obtain ⟨declared, hdeclared⟩ := hvalid command hcommand
    dsimp only
    rw [hdeclared]
    refine keeps_then (p := fun _ => True) (keeps_pure declared trivial) fun declared => ?_
    refine keeps_then (keeps_modify fun _ h => h) fun _ => ?_
    split
    next => exact keeps_then (hlog _ _) fun _ => keeps_pure _ trivial
    next => exact keeps_pure _ trivial

/-- A walk through a payload with a unit is refused as an argument exactly if the start command of
the unit is invalid, and then it leaves the flags, the files and all else as they were. -/
theorem walk_argument_iff (hload : load contents = .ok document)
    (hunit : unit? document kubeletUnitName = .ok (some unit))
    (hcontents : unit.member? (text "contents") = some (.string t)) :
    ((∃ fault, ((walk n contents rules).run.run s).1 = .error (.argument fault)) ↔
      ∃ command, UnitFile.execStart? t = some command ∧ Invalid command) ∧
    ((∃ fault, ((walk n contents rules).run.run s).1 = .error (.argument fault)) →
      ((walk n contents rules).run.run s).2 = s) := by
  have hread := unitContents_of_member hcontents
  rw [run_walk_of_unit hload hunit]
  by_cases hinvalid : ∃ command, UnitFile.execStart? t = some command ∧ Invalid command
  · obtain ⟨command, hcommand, hbad⟩ := hinvalid
    obtain ⟨-, hgood⟩ | ⟨⟨fault, hflags⟩, -⟩ := declaredFlags_cases command
    · exact absurd hbad hgood
    · rw [run_bind, run_readUnit_of_command hread hcommand hflags]
      exact ⟨iff_of_true ⟨fault, rfl⟩ ⟨command, hcommand, hbad⟩, fun _ => rfl⟩
  · have hvalid : ∀ command, UnitFile.execStart? t = some command →
        ∃ declared, declaredFlags command = .ok declared := by
      intro command hcommand
      obtain ⟨hok, -⟩ | ⟨-, hbad⟩ := declaredFlags_cases command
      · exact hok
      · exact absurd ⟨command, hcommand, hbad⟩ hinvalid
    have hkeeps : Keeps (fun _ => True) (readUnit n unit rules >>= walkFiles n document)
        (fun _ => True) NoArgument :=
      keeps_then (keeps_readUnit_noArgument hread hvalid) (keeps_walkFiles_noArgument n document)
    have hnone : ¬ ∃ fault, ((readUnit n unit rules >>= walkFiles n document).run.run s).1 =
        .error (.argument fault) := by
      rintro ⟨fault, hfault⟩
      have hyields := (hkeeps s trivial).2
      rw [hfault] at hyields
      exact hyields fault rfl
    exact ⟨iff_of_false hnone hinvalid, fun h => absurd h hnone⟩

end Walk

/-! ## A unit with a flag that is overridden -/

/-- The contents of the unit of the kubelet, if they are a text. -/
def unitText? (contents : Bytes) : Option Text :=
  match load contents with
  | .error _ => none
  | .ok document =>
    match unit? document kubeletUnitName with
    | .ok (some unit) =>
      match unit.member? (text "contents") with
      | some (.string t) => some t
      | _ => none
    | _ => none

theorem exists_of_unitText? {contents : Bytes} {t : Text} (h : unitText? contents = some t) :
    ∃ document unit, load contents = .ok document ∧
      unit? document kubeletUnitName = .ok (some unit) ∧
        unit.member? (text "contents") = some (.string t) := by
  unfold unitText? at h
  split at h
  next => cases h
  next document hload =>
    split at h
    next unit hunit =>
      split at h
      next hcontents =>
        cases h
        exact ⟨document, unit, hload, hunit, hcontents⟩
      next => cases h
    next => cases h

/-- A payload with a unit that points at a directory first and at a file then. -/
def overriddenPayload : String :=
  "\x7b\"systemd\":\x7b\"units\":[\x7b\"name\":\"kubelet.service\"," ++
  "\"contents\":\"ExecStart=k --cloud-config=/ --cloud-config=/c\"\x7d]\x7d\x7d"

/-- The later flag does not save the earlier one. -/
theorem walk_argument_overridden :
    ∃ fault, (walk briefNode (Utf8.ofLiteral overriddenPayload) defaultRules).run.run briefState =
      (.error (.argument fault), briefState) := by
  have hbytes : Utf8.ofLiteral overriddenPayload = _ :=
    Utf8.ofLiteral_append (Utf8.ofLiteral_ofList _) (Utf8.ofLiteral_ofList _)
  have htext : unitText? (Utf8.ofLiteral overriddenPayload) =
      some (text "ExecStart=k --cloud-config=/ --cloud-config=/c") := by
    rw [hbytes]
    decide +kernel
  obtain ⟨document, unit, hload, hunit, hcontents⟩ := exists_of_unitText? htext
  have hcommand : UnitFile.execStart? (text "ExecStart=k --cloud-config=/ --cloud-config=/c") =
      some (text "k --cloud-config=/ --cloud-config=/c") := by decide +kernel
  have hflags : Command.flagsOf (text "k --cloud-config=/ --cloud-config=/c") =
      .ok [(flagName, text "/"), (flagName, text "/c")] :=
    eq_ok_of_toOption (by decide +kernel)
  have hnone : NamesNoFile (text "/") := by decide
  obtain ⟨hiff, hkept⟩ :=
    @walk_argument_iff briefNode _ defaultRules briefState _ _ _ hload hunit hcontents
  obtain ⟨fault, hfault⟩ := hiff.mpr
    ⟨_, hcommand, .inr ⟨_, text "/", hflags, List.mem_cons_self, hnone⟩⟩
  exact ⟨fault, Prod.ext hfault (hkept ⟨fault, hfault⟩)⟩

end NodeBootstrap.Ignition
