import NodeBootstrap.Proofs.Path
import NodeBootstrap.Proofs.Service.Output
import NodeBootstrap.Proofs.Service.Runs

/-!
# Reading a start command back from any printed config

The start command of a service is read from what the service control program prints, whose other
lines are not known beforehand. `ServiceManager.startCommand?_exact` says that the command is read
back without the blanks at its ends, whatever it is as long as it is one line, and whatever the
other lines are as long as none in front of it begins with the label of the command.

Two things stand in between. What is printed loses the blanks at its ends before it is read, and
these may be some of the command; so stripping an output changes nothing that is read from it
(`ServiceOutput.startCommand?_stripped`). And the blanks in front of the label may reach over line
ends, so that the command can be read from an empty line in front of its own; it is the same command
then (`ServiceOutput.firstAtLineStart_blanks`).
-/

set_option autoImplicit false

namespace NodeBootstrap.ServiceOutput

variable {label line : Text}

/-! ## The lines of a config -/

/-- A line that begins with a label, blanks aside. -/
def Begins (label line : Text) : Prop :=
  Text.afterStart? (line.dropWhile CodePoint.isBlank) label ≠ none

instance (label line : Text) : Decidable (Begins label line) :=
  inferInstanceAs (Decidable (_ ≠ none))

/-- The line of a printed config that shows the start command. -/
def commandLine (command : Text) : Text := text "        BINARY_PATH_NAME   : " ++ command

/-- A printed config: the line of the command between other lines. -/
def printed (before : List Text) (command : Text) (after : List Text) : Text :=
  Text.join [newline] (before ++ commandLine command :: after)

/-- A line that does not begin with the label is passed over. -/
theorem firstAtLineStart_next (hlabel : newline ∉ label) (hline : newline ∉ line)
    (hnot : ¬ Begins label line) (rest : Text) :
    firstAtLineStart (labelled? label) true (line ++ newline :: rest) =
      firstAtLineStart (labelled? label) true rest := by
  by_cases hblank : (line.dropWhile CodePoint.isBlank).isEmpty = true
  · have hblanks : Text.AllBlank (line ++ [newline]) := by
      intro c hc
      rcases List.mem_append.mp hc with hc | hc
      · exact Text.of_dropWhile_eq_nil (List.isEmpty_iff.mp hblank) c hc
      · rw [List.mem_singleton.mp hc]
        decide
    rw [List.append_cons]
    exact firstAtLineStart_blanks hblanks rest
  · have hnone : labelled? label (line ++ newline :: rest) = none := by
      rw [labelled?, List.dropWhile_append, if_neg hblank, afterStart?_line hlabel,
        Decidable.not_not.mp hnot]
      rfl
    cases line with
    | nil => exact absurd rfl hblank
    | cons c line =>
      obtain ⟨hc, hinside⟩ := not_or.mp (mt List.mem_cons.mpr hline)
      rw [List.cons_append] at hnone ⊢
      rw [firstAtLineStart_skip (Ne.symm hc) hnone, firstAtLineStart_inside hinside,
        firstAtLineStart_end]

/-- The command stands first in the config from its line on. -/
theorem firstAtLineStart_commandLine (command rest : Text) :
    firstAtLineStart (labelled? commandLabel) true (commandLine command ++ rest) =
      some (.char ' ' :: (command ++ rest)) :=
  firstAtLineStart_of_some rfl

/-- The start command is read from a printed config without the blanks at its ends. -/
theorem startCommand?_printed {before after : List Text} {command : Text}
    (hlines : ∀ line ∈ before, newline ∉ line)
    (hbefore : ∀ line ∈ before, ¬ Begins commandLabel line) (hcommand : newline ∉ command) :
    startCommand? (printed before command after) = some (Text.stripped command) := by
  have hread : firstAtLineStart (labelled? commandLabel) true (printed before command after) =
      some (.char ' ' :: (command ++ after.flatMap (newline :: ·))) := by
    induction before with
    | nil =>
      rw [printed, List.nil_append, Text.join_cons]
      exact firstAtLineStart_commandLine command _
    | cons line before ih =>
      obtain ⟨hline, hlines⟩ := List.forall_mem_cons.mp hlines
      obtain ⟨hnot, hbefore⟩ := List.forall_mem_cons.mp hbefore
      have hnext : printed (line :: before) command after =
          line ++ newline :: printed before command after := by
        cases before <;> exact Text.join_cons_cons ..
      rw [hnext, firstAtLineStart_next (by decide) hline hnot]
      exact ih hlines hbefore
  rw [startCommand?, ← commandLabel, hread, Option.map_some, restOfLine_line hcommand]
  intro c hc
  cases after with
  | nil => cases hc
  | cons line after =>
    cases hc
    rfl

end NodeBootstrap.ServiceOutput

namespace NodeBootstrap.ServiceManager

open ServiceOutput

variable {m : ServiceManager} {name command output : Text} {h : Host}

/-- A look-up that prints a config with a command gives that. -/
theorem run_startCommand? (hm : m.connected = true)
    (hreply : (h.control.run (lookUpWords name)).1 = .finished 0 output)
    (hread : ServiceOutput.startCommand? output = some command) :
    (m.startCommand? name).run.run h = (.ok (some command), h.ran program (lookUpWords name)) := by
  unfold ServiceManager.startCommand?
  rw [run_bind, show [text "qc", name, configRoom] = lookUpWords name from rfl,
    run_accepted hm hreply (.inl rfl)]
  dsimp only
  rw [if_neg (by decide), startCommand?_stripped, hread]
  rfl

theorem run_setStartCommand (hm : m.connected = true)
    (hreply : (h.control.run (changeWords name command)).1 = .finished 0 output) :
    ∃ changed, (m.setStartCommand name command).run.run h = (.ok (), changed) ∧
      h.Spent [changeWords name command] [] changed := by
  obtain ⟨-, hcontrol, -⟩ := h.logged_kept .debug
    (text "Setting start command of service " ++ name ++ text " to: " ++ command)
  unfold setStartCommand
  rw [run_bind, Host.run_log]
  dsimp only
  rw [run_bind, show [text "config", name, text "binPath=", command] = changeWords name command
    from rfl, run_accepted hm (hcontrol.symm ▸ hreply) (.inl rfl)]
  exact ⟨_, rfl, (h.spent_logged _ _).trans (Host.spent_ran _ _)⟩

/-- A start command is read back from what is printed of it, without the blanks at its ends: one
that has none there is the same behind a change. -/
theorem startCommand?_exact (hm : m.connected = true) {before : List Text}
    (hlines : ∀ line ∈ before, newline ∉ line)
    (hbefore : ∀ line ∈ before, ¬ Begins commandLabel line) (hcommand : newline ∉ command)
    (after : List Text) (h : Host) (name : Text) :
    ((h.control.run (lookUpWords name)).1 = .finished 0 (printed before command after) →
      (m.startCommand? name).run.run h =
        (.ok (some (Text.stripped command)), h.ran program (lookUpWords name))) ∧
    ∀ said, (h.control.run (changeWords name command)).1 = .finished 0 said →
      ((h.control.run (changeWords name command)).2.run (lookUpWords name)).1 =
          .finished 0 (printed before command after) →
        let found := ((do
          m.setStartCommand name command
          m.startCommand? name).run.run h).1
        found = .ok (some (Text.stripped command)) ∧
          (Text.Trimmed command → found = .ok (some command)) := by
  have hread : ServiceOutput.startCommand? (printed before command after) =
      some (Text.stripped command) := startCommand?_printed hlines hbefore hcommand
  refine ⟨fun hreply => run_startCommand? hm hreply hread, ?_⟩
  intro said hsaid hreply found
  have hfound : found = .ok (some (Text.stripped command)) := by
    obtain ⟨changed, hrun, hspent⟩ := run_setStartCommand hm hsaid
    have hlookUp : (changed.control.run (lookUpWords name)).1 =
        .finished 0 (printed before command after) := by
      rw [hspent.control]
      exact hreply
    show ((m.setStartCommand name command >>= fun _ => m.startCommand? name).run.run h).1 = _
    rw [run_bind, hrun]
    dsimp only
    rw [run_startCommand? hm hlookUp hread]
  refine ⟨hfound, ?_⟩
  intro htrimmed
  rw [hfound, Text.stripped_of_trimmed htrimmed]

/-- A command that looks like a line of a config. -/
def labelledCommand : Text := text "\"C:\\k\\a b.exe\" BINARY_PATH_NAME   : c"

/-- A host with a service that has another command. -/
def otherHost : Host :=
  { Host.empty with
    control := .table { ServiceTable.empty with
      services := [(text "k", ⟨text "old.exe", ServiceState.stopped, text "k", []⟩)] } }

/-- There the command is set and read back. -/
theorem startCommand?_exact_labelled :
    (∀ line ∈ [text "[SC] QueryServiceConfig SUCCESS", [], text "SERVICE_NAME: k"],
      newline ∉ line ∧ ¬ Begins commandLabel line) ∧
    newline ∉ labelledCommand ∧ Text.Trimmed labelledCommand ∧
    ((do
      setStartCommand ⟨.int 30, .int 10, .int 2, true⟩ (text "k") labelledCommand
      startCommand? ⟨.int 30, .int 10, .int 2, true⟩ (text "k")).run.run otherHost).1 =
        .ok (some labelledCommand) := by
  have hlines : ∀ line ∈ [text "[SC] QueryServiceConfig SUCCESS", [], text "SERVICE_NAME: k"],
      newline ∉ line ∧ ¬ Begins commandLabel line := by decide
  have hcommand : newline ∉ labelledCommand := by decide
  have htrimmed : Text.Trimmed labelledCommand :=
    @Text.trimmed_append (text "\"") _ _ _ rfl rfl (by decide) (by decide)
  have hexact := startCommand?_exact (m := ⟨.int 30, .int 10, .int 2, true⟩) rfl
    (fun line hline => (hlines line hline).1) (fun line hline => (hlines line hline).2) hcommand
    [text "        LOAD_ORDER_GROUP   :", []] otherHost (text "k")
  exact ⟨hlines, hcommand, htrimmed, (hexact.2 _ rfl rfl).2 htrimmed⟩

end NodeBootstrap.ServiceManager
