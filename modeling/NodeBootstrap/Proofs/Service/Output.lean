import NodeBootstrap.Proofs.Text.Blank
import NodeBootstrap.Service.Control
import NodeBootstrap.Service.Output

/-!
# Reading a start command back

The printed config of a service shows the start command on a line of its own, between other lines.
Whatever the command is, as long as it is one line, reading the config gives it back without the
blanks at its ends. The name of the service stands in front of it, so a line of the name that reads
like a command would be taken for it (`ServiceOutput.Unlabelled`); a name on one line has none.
-/

set_option autoImplicit false

namespace NodeBootstrap.ServiceOutput

/-- What ends a line in the output. -/
def newline : CodePoint := .char '\n'

/-- The label of the start command. -/
def commandLabel : Text := text "BINARY_PATH_NAME"

/-- No start command is read on the lines that a name goes on with. -/
def Unlabelled (name : Text) : Prop :=
  firstAtLineStart (labelled? commandLabel) false name = none

instance (name : Text) : Decidable (Unlabelled name) := inferInstanceAs (Decidable (_ = none))

variable {α : Type} {read : Text → Option α} {label line name rest s t : Text}

/-! ## Lines -/

/-- Inside a line nothing is read. -/
theorem firstAtLineStart_inside (h : newline ∉ line) (rest : Text) :
    firstAtLineStart read false (line ++ rest) = firstAtLineStart read false rest := by
  induction line with
  | nil => rfl
  | cons c line ih =>
    obtain ⟨hc, hline⟩ := not_or.mp (mt List.mem_cons.mpr h)
    have hinside : decide (c = .char '\n') = false := decide_eq_false (Ne.symm hc)
    rw [List.cons_append, firstAtLineStart, if_neg Bool.false_ne_true, hinside]
    exact ih hline

/-- Where nothing can be read at the start of a line, it is gone on inside. -/
theorem firstAtLineStart_skip {c : CodePoint} (hc : c ≠ newline) (h : read (c :: rest) = none) :
    firstAtLineStart read true (c :: rest) = firstAtLineStart read false rest := by
  have hinside : decide (c = .char '\n') = false := decide_eq_false hc
  rw [firstAtLineStart, if_pos rfl, h, hinside]

theorem firstAtLineStart_end (rest : Text) :
    firstAtLineStart read false (newline :: rest) = firstAtLineStart read true rest := rfl

/-- An empty line is passed over. -/
theorem firstAtLineStart_newline (h : read (newline :: rest) = none) :
    firstAtLineStart read true (newline :: rest) = firstAtLineStart read true rest := by
  rw [firstAtLineStart, if_pos rfl, h]
  rfl

/-- A name on one line is in nobody's way. -/
theorem unlabelled_of_line (h : newline ∉ name) : Unlabelled name := by
  have hinside := @firstAtLineStart_inside _ (labelled? commandLabel) name h []
  rw [List.append_nil] at hinside
  exact hinside

/-! ## Labels -/

/-- A beginning without line ends is on the first line. -/
theorem afterStart?_line {start : Text} (hstart : newline ∉ start) (rest : Text) :
    Text.afterStart? (line ++ newline :: rest) start =
      (Text.afterStart? line start).map (· ++ newline :: rest) := by
  induction line generalizing start with
  | nil =>
    cases start with
    | nil => rfl
    | cons d start =>
      refine if_neg fun heq => hstart ?_
      rw [heq]
      exact List.mem_cons_self ..
  | cons c line ih =>
    cases start with
    | nil => rfl
    | cons d start =>
      rw [List.cons_append, Text.afterStart?, Text.afterStart?]
      split
      next => exact ih fun hmem => hstart (List.mem_cons_of_mem d hmem)
      next => rfl

/-- What begins with no colon is no value. -/
theorem eq_none_of_head? {t : Text} (h : t.head? ≠ some (.char ':')) :
    (match t with
      | .char ':' :: value => some value
      | _ => none) = none := by
  split
  next => exact absurd rfl h
  next => rfl

/-- A line that is not blank and has no label has none in front of another line either. -/
theorem labelled?_line (hlabel : newline ∉ label) (hline : line.dropWhile CodePoint.isBlank ≠ [])
    (hrest : (rest.dropWhile CodePoint.isBlank).head? ≠ some (.char ':'))
    (h : labelled? label line = none) : labelled? label (line ++ newline :: rest) = none := by
  have hnot : ¬ (line.dropWhile CodePoint.isBlank).isEmpty = true := fun hempty =>
    hline (List.isEmpty_iff.mp hempty)
  rw [labelled?] at h
  rw [labelled?, List.dropWhile_append, if_neg hnot, afterStart?_line hlabel]
  cases hstart : Text.afterStart? (line.dropWhile CodePoint.isBlank) label with
  | none => rfl
  | some behind =>
    rw [hstart] at h
    refine eq_none_of_head? ?_
    rw [List.dropWhile_append]
    split
    next => exact hrest
    next hbehind =>
      dsimp only at h
      cases hdrop : behind.dropWhile CodePoint.isBlank with
      | nil => exact absurd (List.isEmpty_iff.mpr hdrop) hbehind
      | cons c value =>
        rintro ⟨⟩
        rw [hdrop] at h
        exact nomatch h

/-! ## Stripping what is printed -/

/-- What can be read at the start of a text is what is read first. -/
theorem firstAtLineStart_of_some {a : α} (h : read t = some a) :
    firstAtLineStart read true t = some a := by
  cases t with
  | nil => rw [firstAtLineStart, if_pos rfl, h]
  | cons c t => rw [firstAtLineStart, if_pos rfl, h]

/-- Where nothing can be read at the start of a text, it does not matter whether a line starts
there. -/
theorem firstAtLineStart_of_none (h : read t = none) (atStart : Bool) :
    firstAtLineStart read atStart t = firstAtLineStart read true t := by
  cases atStart with
  | true => rfl
  | false =>
    cases t with
    | nil => rw [firstAtLineStart, firstAtLineStart, if_pos rfl, h, if_neg Bool.false_ne_true]
    | cons c t => rw [firstAtLineStart, firstAtLineStart, if_pos rfl, h, if_neg Bool.false_ne_true]

theorem labelled?_blanks (hs : Text.AllBlank s) : labelled? label (s ++ t) = labelled? label t := by
  rw [labelled?, labelled?, List.dropWhile_append_of_pos hs]

/-- Blanks in front of a text change nothing that is read from it, also where they hold line ends. -/
theorem firstAtLineStart_blanks (hs : Text.AllBlank s) (t : Text) :
    firstAtLineStart (labelled? label) true (s ++ t) =
      firstAtLineStart (labelled? label) true t := by
  cases hread : labelled? label t with
  | some value =>
    rw [firstAtLineStart_of_some hread, firstAtLineStart_of_some]
    rw [labelled?_blanks hs, hread]
  | none =>
    suffices h : ∀ atStart, firstAtLineStart (labelled? label) atStart (s ++ t) =
        firstAtLineStart (labelled? label) true t from h true
    induction s with
    | nil => exact firstAtLineStart_of_none hread
    | cons c s ih =>
      intro atStart
      have hnone : labelled? label (c :: s ++ t) = none := (labelled?_blanks hs).trans hread
      rw [firstAtLineStart_of_none hnone, List.cons_append, firstAtLineStart, if_pos rfl,
        ← List.cons_append, hnone]
      exact ih (fun d hd => hs d (List.mem_cons_of_mem _ hd)) _

/-- A label without blanks does not reach into the blanks behind a text. -/
theorem afterStart?_append_blanks (hs : Text.AllBlank s) (hlabel : ∀ c ∈ label, c.isBlank = false)
    (t : Text) :
    Text.afterStart? (t ++ s) label = (Text.afterStart? t label).map (· ++ s) := by
  induction t generalizing label with
  | nil =>
    cases label with
    | nil => cases s <;> rfl
    | cons d label =>
      cases s with
      | nil => rfl
      | cons c s =>
        refine if_neg fun heq => ?_
        have hblank := hs c List.mem_cons_self
        rw [heq, hlabel d List.mem_cons_self] at hblank
        exact Bool.false_ne_true hblank
  | cons c t ih =>
    cases label with
    | nil => rfl
    | cons d label =>
      rw [List.cons_append, Text.afterStart?, Text.afterStart?]
      split
      next => exact ih fun e he => hlabel e (List.mem_cons_of_mem _ he)
      next => rfl

theorem labelled?_nil (hne : label ≠ []) : labelled? label [] = none := by
  cases label with
  | nil => exact absurd rfl hne
  | cons d label => rfl

/-- What is behind a label goes on in the blanks behind a text. -/
theorem labelled?_append_blanks (hs : Text.AllBlank s) (hlabel : ∀ c ∈ label, c.isBlank = false)
    (hne : label ≠ []) (t : Text) :
    labelled? label (t ++ s) = (labelled? label t).map (· ++ s) := by
  by_cases hblank : (t.dropWhile CodePoint.isBlank).isEmpty = true
  · have ht : Text.AllBlank t := Text.of_dropWhile_eq_nil (List.isEmpty_iff.mp hblank)
    have hnone : ∀ u, Text.AllBlank u → labelled? label u = none := by
      intro u hu
      rw [← List.append_nil u, labelled?_blanks hu, labelled?_nil hne]
    rw [labelled?_blanks ht, hnone s hs, hnone t ht, Option.map_none]
  · rw [labelled?, labelled?, List.dropWhile_append, if_neg hblank,
      afterStart?_append_blanks hs hlabel]
    cases Text.afterStart? (t.dropWhile CodePoint.isBlank) label with
    | none => rfl
    | some behind =>
      rw [Option.map_some]
      dsimp only
      rw [List.dropWhile_append, Text.dropWhile_of_allBlank hs]
      cases behind.dropWhile CodePoint.isBlank with
      | nil => rfl
      | cons c value =>
        rw [if_neg (by simp), List.cons_append]
        split
        next heq => cases heq; rfl
        next hnot =>
          split
          next heq => cases heq; exact absurd rfl (hnot _)
          next => rfl

/-- What is read from a text goes on in the blanks behind it. -/
theorem firstAtLineStart_append_blanks (hs : Text.AllBlank s)
    (hlabel : ∀ c ∈ label, c.isBlank = false) (hne : label ≠ []) (t : Text) (atStart : Bool) :
    firstAtLineStart (labelled? label) atStart (t ++ s) =
      (firstAtLineStart (labelled? label) atStart t).map (· ++ s) := by
  induction t generalizing atStart with
  | nil =>
    have hnil := labelled?_nil hne
    have hblanks : labelled? label s = none := by
      rw [← List.append_nil s, labelled?_blanks hs, hnil]
    have hread : firstAtLineStart (labelled? label) true s = none := by
      rw [← List.append_nil s, firstAtLineStart_blanks hs, firstAtLineStart, if_pos rfl, hnil]
    rw [List.nil_append, firstAtLineStart_of_none hblanks, hread,
      firstAtLineStart_of_none hnil atStart, firstAtLineStart, if_pos rfl, hnil, Option.map_none]
  | cons c t ih =>
    rw [List.cons_append, firstAtLineStart, firstAtLineStart]
    cases atStart with
    | false => exact ih _
    | true =>
      rw [if_pos rfl, if_pos rfl, ← List.cons_append, labelled?_append_blanks hs hlabel hne]
      cases labelled? label (c :: t) with
      | none => exact ih _
      | some value => rfl

/-- Blanks behind a value do not show in the stripped rest of its line. -/
theorem stripped_restOfLine_append (hs : Text.AllBlank s) (value : Text) :
    Text.stripped (restOfLine (value ++ s)) = Text.stripped (restOfLine value) := by
  have htake : ∀ u : Text, Text.stripped ((u ++ s).takeWhile (· ≠ .char '\n')) =
      Text.stripped (u.takeWhile (· ≠ .char '\n')) := by
    intro u
    have hrest : Text.AllBlank (s.takeWhile (· ≠ .char '\n')) := fun c hc =>
      hs c ((List.takeWhile_sublist _).subset hc)
    rw [List.takeWhile_append]
    split
    next hall =>
      rw [Text.stripped_append_blanks hrest, (List.takeWhile_prefix _).eq_of_length hall]
    next => rfl
  unfold restOfLine
  cases value with
  | nil =>
    cases s with
    | nil => rfl
    | cons c s =>
      dsimp only [List.nil_append]
      rw [if_pos (hs c List.mem_cons_self)]
      exact Text.stripped_of_allBlank fun d hd =>
        hs d (List.mem_cons_of_mem _ ((List.takeWhile_sublist _).subset hd))
  | cons c value =>
    rw [List.cons_append]
    dsimp only
    split
    next => exact htake value
    next => exact htake (c :: value)

/-- Nothing that is read from an output depends on the blanks at its ends. -/
theorem startCommand?_stripped (output : Text) :
    startCommand? (Text.stripped output) = startCommand? output := by
  obtain ⟨lead, trail, hlead, htrail, houtput⟩ := Text.exists_stripped output
  have hread : firstAtLineStart (labelled? commandLabel) true output =
      (firstAtLineStart (labelled? commandLabel) true (Text.stripped output)).map (· ++ trail) := by
    conv => lhs; rw [houtput]
    rw [firstAtLineStart_blanks hlead]
    exact firstAtLineStart_append_blanks htrail (by decide) (by decide) _ _
  rw [startCommand?, startCommand?, ← commandLabel, hread, Option.map_map]
  congr 1
  funext value
  exact (stripped_restOfLine_append htrail value).symm

/-! ## The config of a service -/

/-- What is printed of a service from its name on, inside a line or at the start of one. -/
theorem firstAtLineStart_name (value : Text) {atStart : Bool}
    (h : firstAtLineStart (labelled? commandLabel) atStart name = none) :
    firstAtLineStart (labelled? commandLabel) atStart
      (name ++ newline :: (text "        BINARY_PATH_NAME   :" ++ value)) = some value := by
  induction name generalizing atStart with
  | nil => cases atStart <;> rfl
  | cons c name ih =>
    rw [firstAtLineStart] at h
    cases atStart with
    | false =>
      rw [List.cons_append, firstAtLineStart]
      exact ih h
    | true =>
      rw [if_pos rfl] at h
      rw [List.cons_append, firstAtLineStart, if_pos rfl, ← List.cons_append]
      cases hread : labelled? commandLabel (c :: name) with
      | some found => rw [hread] at h; exact nomatch h
      | none =>
        rw [hread] at h
        by_cases hblank : (c :: name).dropWhile CodePoint.isBlank = []
        · rw [labelled?, List.dropWhile_append, hblank]
          rfl
        · have hlabel : ((text "        BINARY_PATH_NAME   :" ++ value).dropWhile
              CodePoint.isBlank).head? = some (.char 'B') := rfl
          rw [labelled?_line (by decide) hblank (hlabel ▸ by decide) hread]
          exact ih h

/-- The lines of a printed config in front of the command, and what is on the line with it. -/
theorem firstAtLineStart_config (value : Text) (hname : Unlabelled name) :
    firstAtLineStart (labelled? commandLabel) true
      (text "[SC] QueryServiceConfig SUCCESS" ++ newline :: newline ::
        (text "SERVICE_NAME: " ++ name ++ newline ::
          (text "        BINARY_PATH_NAME   :" ++ value))) = some value := by
  refine (firstAtLineStart_skip (by decide) rfl).trans ?_
  refine (firstAtLineStart_inside (by decide) _).trans ?_
  refine (firstAtLineStart_end _).trans ?_
  refine (firstAtLineStart_newline rfl).trans ?_
  rw [List.append_assoc]
  refine (firstAtLineStart_skip (by decide) rfl).trans ?_
  refine (firstAtLineStart_inside (by decide) _).trans ?_
  exact firstAtLineStart_name value hname

/-- A printed config by its lines. -/
theorem configText_eq (name command : Text) :
    ServiceTable.configText name command =
      text "[SC] QueryServiceConfig SUCCESS" ++ newline :: newline ::
        (text "SERVICE_NAME: " ++ name ++ newline ::
          (text "        BINARY_PATH_NAME   :" ++
            .char ' ' :: (command ++ newline :: text "        LOAD_ORDER_GROUP   :\n"))) := by
  have hfirst : text "[SC] QueryServiceConfig SUCCESS\n\nSERVICE_NAME: " =
      text "[SC] QueryServiceConfig SUCCESS" ++ newline :: newline :: text "SERVICE_NAME: " := rfl
  have hlabel : text "\n        BINARY_PATH_NAME   : " =
      newline :: (text "        BINARY_PATH_NAME   :" ++ [.char ' ']) := rfl
  have hlast : text "\n        LOAD_ORDER_GROUP   :\n" =
      newline :: text "        LOAD_ORDER_GROUP   :\n" := rfl
  rw [ServiceTable.configText, hfirst, hlabel, hlast]
  simp only [List.append_assoc, List.cons_append, List.nil_append]

/-- The rest of a line behind one blank, up to the next line if there is one. -/
theorem restOfLine_line {command : Text} (hcommand : newline ∉ command)
    (hrest : ∀ c ∈ rest.head?, c = newline) :
    restOfLine (.char ' ' :: (command ++ rest)) = command := by
  have hline : ∀ c ∈ command, decide (c ≠ .char '\n') = true := fun c hc =>
    decide_eq_true fun heq => hcommand ((show c = newline from heq) ▸ hc)
  rw [restOfLine, if_pos (by decide), List.takeWhile_append_of_pos hline]
  cases rest with
  | nil => exact List.append_nil _
  | cons c rest =>
    rw [hrest c rfl]
    exact List.append_nil _

/-- The start command of a printed config is the one it was printed from, without the blanks at its
ends. -/
theorem startCommand?_configText {name command : Text} (hname : Unlabelled name)
    (hcommand : newline ∉ command) :
    startCommand? (Text.stripped (ServiceTable.configText name command)) =
      some (Text.stripped command) := by
  rw [startCommand?_stripped, configText_eq, startCommand?, ← commandLabel,
    firstAtLineStart_config _ hname, Option.map_some, restOfLine_line hcommand]
  rintro _ ⟨⟩
  rfl

end NodeBootstrap.ServiceOutput
