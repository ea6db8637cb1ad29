import NodeBootstrap.Proofs.Flag.Command
import NodeBootstrap.UnitFile

/-!
# The start command of a unit, however it is laid out

A start command stands behind its mark in pieces, each on a line of its own that goes on with the
next. `UnitFile.Layout` holds all that units with the same pieces may differ in: the lines before
the mark, the blanks around the pieces and around the backslashes, lines with a backslash alone, the
ends of the lines and what follows the last piece. None of it shows in the start command, which is
the pieces with a blank between each two; and a unit has no start command exactly if none of its
lines begins with the mark (`UnitFile.execStart?_layout`).

Lines are the delicate part. A carriage return and a line feed that end two lines read as the end of
one if nothing stands between them. Only empty lines can be lost so, and they hold neither the mark
nor a piece.
-/

set_option autoImplicit false

namespace NodeBootstrap

namespace Text

/-! ## Lines -/

/-- Whether a text ends a line: one boundary, or a carriage return with a line feed. -/
def isLineEnd : Text → Bool
  | [c] => c.endsLine
  | [c, d] => c = .char '\r' && d = .char '\n'
  | _ => false

/-- A text that lies on one line. -/
def OneLine (t : Text) : Prop := ∀ c ∈ t, c.endsLine = false

/-- Blanks on one line. -/
def Spacing (t : Text) : Prop := ∀ c ∈ t, c.isBlank = true ∧ c.endsLine = false

instance (t : Text) : Decidable (OneLine t) := inferInstanceAs (Decidable (∀ c ∈ t, _ = false))

instance (t : Text) : Decidable (Spacing t) := inferInstanceAs (Decidable (∀ c ∈ t, _ ∧ _))

variable {s t front ending rest : Text}

theorem oneLine_nil : OneLine [] := List.forall_mem_nil _

theorem OneLine.append (hs : OneLine s) (ht : OneLine t) : OneLine (s ++ t) :=
  List.forall_mem_append.mpr ⟨hs, ht⟩

theorem Spacing.oneLine (h : Spacing t) : OneLine t := fun c hc => (h c hc).2

theorem Spacing.allBlank (h : Spacing t) : AllBlank t := fun c hc => (h c hc).1

/-- A boundary ends a line, if it is not the first half of one. -/
theorem lines_boundary {c : CodePoint} (hc : c.endsLine = true)
    (hrest : c = .char '\r' → rest.head? ≠ some (.char '\n')) :
    lines (c :: rest) = [] :: lines rest := by
  rw [lines, if_pos hc]
  rintro behind hreturn rfl
  exact hrest hreturn rfl

/-- Code points on one line are in front of what their line goes on with. -/
theorem lines_append {line : Text} {others : List Text} (hfront : OneLine front)
    (hrest : lines rest = line :: others) : lines (front ++ rest) = (front ++ line) :: others := by
  induction front with
  | nil => exact hrest
  | cons c front ih =>
    obtain ⟨hc, hfront⟩ := List.forall_mem_cons.mp hfront
    rw [List.cons_append, lines]
    · rw [ih hfront, if_neg (hc ▸ Bool.false_ne_true)]
      rfl
    · rintro behind rfl -
      cases hc

theorem lines_of_oneLine (h : OneLine t) (hne : t ≠ []) : lines t = [t] := by
  obtain ⟨c, rest, rfl⟩ := List.exists_cons_of_ne_nil hne
  induction rest generalizing c with
  | nil =>
    have hc : c.endsLine = false := h c List.mem_cons_self
    rw [lines, if_neg (hc ▸ Bool.false_ne_true)]
    · rfl
    · rintro behind - heq
      cases heq
  | cons d rest ih =>
    obtain ⟨hc, hrest⟩ := List.forall_mem_cons.mp h
    have hline : OneLine [c] := List.forall_mem_singleton.mpr hc
    exact lines_append hline (ih d hrest (List.cons_ne_nil d rest))

/-- What ends a line leaves an empty one in front of the lines behind it, of which the first is lost
if it is empty and its line feed joins a carriage return. -/
theorem lines_lineEnd (hending : isLineEnd ending = true) (rest : Text) :
    lines (ending ++ rest) = [] :: lines rest ∨
      ∃ behind, rest = .char '\n' :: behind ∧ lines (ending ++ rest) = [] :: lines behind := by
  unfold isLineEnd at hending
  split at hending
  next c =>
    by_cases hjoined : c = .char '\r' ∧ rest.head? = some (.char '\n')
    · obtain ⟨rfl, hhead⟩ := hjoined
      obtain ⟨behind, rfl⟩ := List.head?_eq_some_iff.mp hhead
      exact .inr ⟨behind, rfl, rfl⟩
    · exact .inl (lines_boundary hending fun hc hhead => hjoined ⟨hc, hhead⟩)
  next c d =>
    rw [Bool.and_eq_true, decide_eq_true_eq, decide_eq_true_eq] at hending
    obtain ⟨rfl, rfl⟩ := hending
    exact .inl rfl
  next => cases hending

/-- A line in front of others. -/
theorem lines_line (hfront : OneLine front) (hending : isLineEnd ending = true)
    (hrest : rest.head? ≠ some (.char '\n')) :
    lines (front ++ (ending ++ rest)) = front :: lines rest := by
  rcases lines_lineEnd hending rest with h | ⟨behind, rfl, -⟩
  · rw [lines_append hfront h, List.append_nil]
  · exact absurd rfl hrest

/-- A line in front of anything that does not go on with it. -/
theorem exists_lines (hfront : OneLine front) (hne : front ≠ [])
    (hrest : ∀ c ∈ rest.head?, c.endsLine = true) :
    ∃ others, lines (front ++ rest) = front :: others := by
  cases rest with
  | nil => exact ⟨[], by rw [List.append_nil, lines_of_oneLine hfront hne]⟩
  | cons c rest =>
    have hend : isLineEnd [c] = true := hrest c rfl
    rcases lines_lineEnd hend rest with h | ⟨behind, -, h⟩
    · exact ⟨lines rest, (lines_append hfront h).trans (by rw [List.append_nil])⟩
    · exact ⟨lines behind, (lines_append hfront h).trans (by rw [List.append_nil])⟩

end Text

namespace UnitFile

open Text

/-! ## Pieces -/

variable {t piece : Text}

theorem stripped_between {lead trail : Text} (hlead : AllBlank lead) (htrail : AllBlank trail) :
    stripped (lead ++ (t ++ trail)) = stripped t := by
  rw [stripped_blanks_append hlead, stripped_append_blanks htrail]

theorem continues_backslash (t : Text) : continues (t ++ [.char '\\']) = true := by
  rw [continues, List.getLast?_concat]
  rfl

/-- A piece in front of a backslash is followed by those of the next lines. -/
theorem pieces_backslash (t line : Text) (rest : List Text) :
    pieces (t ++ [.char '\\']) (line :: rest) = stripped t :: pieces (stripped line) rest := by
  rw [pieces, continues_backslash, if_pos rfl, List.dropLast_concat]

theorem pieces_complete (h : continues piece = false) (rest : List Text) :
    pieces piece rest = [piece] := by
  cases rest with
  | nil => rw [pieces, h, if_neg Bool.false_ne_true]
  | cons line rest => rw [pieces, h, if_neg Bool.false_ne_true]

/-- A backslash at the end of a line keeps the blanks in front of it. -/
theorem stripped_backslash (t : Text) :
    stripped (t ++ [.char '\\']) = t.dropWhile CodePoint.isBlank ++ [.char '\\'] := by
  have hdrop : (t ++ [CodePoint.char '\\']).dropWhile CodePoint.isBlank =
      t.dropWhile CodePoint.isBlank ++ [.char '\\'] := by
    rw [List.dropWhile_append]
    split
    next hnil =>
      rw [List.isEmpty_iff.mp hnil]
      rfl
    next => rfl
  rw [stripped, hdrop]
  refine dropRightWhile_eq_self fun c hc => ?_
  rw [List.getLast?_concat] at hc
  cases hc
  rfl

theorem stripped_dropWhile (t : Text) :
    stripped (t.dropWhile CodePoint.isBlank) = stripped t := by
  have hagain : (t.dropWhile CodePoint.isBlank).dropWhile CodePoint.isBlank =
      t.dropWhile CodePoint.isBlank := by
    refine dropWhile_eq_self fun c hc => ?_
    have hnot := List.head?_dropWhile_not CodePoint.isBlank t
    rw [hc] at hnot
    exact hnot
  rw [stripped, hagain, stripped]

/-! ## Layouts -/

/-- A line in front of the start command. -/
structure HeaderLine where
  content : Text
  ending : Text
  oneLine : OneLine content
  unmarked : ¬ execStartMark <+: stripped content
  ends : isLineEnd ending = true

/-- A line of the start command that goes on with the next: a piece, or none if the backslash stands
alone, and the blanks around both. -/
structure ContinuedLine where
  indentation : Text
  piece : Text
  gap : Text
  trailing : Text
  ending : Text
  indentation_spacing : Spacing indentation
  piece_oneLine : OneLine piece
  piece_trimmed : Trimmed piece
  gap_spacing : Spacing gap
  trailing_spacing : Spacing trailing
  ends : isLineEnd ending = true

/-- The last line of the start command. -/
structure LastLine where
  indentation : Text
  piece : Text
  trailing : Text
  indentation_spacing : Spacing indentation
  piece_nonempty : piece ≠ []
  piece_oneLine : OneLine piece
  piece_trimmed : Trimmed piece
  piece_complete : continues piece = false
  trailing_spacing : Spacing trailing

/-- What stands on a continued line, with a mark in front of the piece. -/
def ContinuedLine.content (mark : Text) (l : ContinuedLine) : Text :=
  l.indentation ++ (mark ++ (l.piece ++ l.gap ++ [.char '\\']) ++ l.trailing)

/-- What stands on the last line, with a mark in front of the piece. -/
def LastLine.content (mark : Text) (l : LastLine) : Text :=
  l.indentation ++ (mark ++ l.piece ++ l.trailing)

/-- The lines of a start command; the mark stands on the first of them. -/
def block (mark : Text) (last : LastLine) : List ContinuedLine → Text
  | [] => last.content mark
  | l :: ls => l.content mark ++ (l.ending ++ block [] last ls)

/-- A unit with a start command. -/
structure Layout where
  header : List HeaderLine
  continued : List ContinuedLine
  last : LastLine
  behind : Text
  apart : ∀ c ∈ behind.head?, c.endsLine = true

namespace Layout

/-- The text of a unit. -/
def written (l : Layout) : Text :=
  l.header.flatMap (fun h => h.content ++ h.ending) ++
    (block execStartMark l.last l.continued ++ l.behind)

/-- The pieces of the start command in order. -/
def pieces (l : Layout) : List Text :=
  (l.continued.map (·.piece)).filter (!·.isEmpty) ++ [l.last.piece]

end Layout

/-! ## The lines of a start command -/

theorem ContinuedLine.content_oneLine {mark : Text} (hmark : OneLine mark) (l : ContinuedLine) :
    OneLine (l.content mark) :=
  l.indentation_spacing.oneLine.append ((hmark.append ((l.piece_oneLine.append
    l.gap_spacing.oneLine).append (List.forall_mem_singleton.mpr rfl))).append
      l.trailing_spacing.oneLine)

theorem ContinuedLine.content_ne_nil (mark : Text) (l : ContinuedLine) : l.content mark ≠ [] := by
  simp [content]

theorem LastLine.content_oneLine {mark : Text} (hmark : OneLine mark) (l : LastLine) :
    OneLine (l.content mark) :=
  l.indentation_spacing.oneLine.append ((hmark.append l.piece_oneLine).append
    l.trailing_spacing.oneLine)

theorem LastLine.content_ne_nil (mark : Text) (l : LastLine) : l.content mark ≠ [] := by
  simp [content, l.piece_nonempty]

/-- A start command does not begin with a line feed, so no end of a line in front of it joins it. -/
theorem head?_block {mark : Text} (hmark : OneLine mark) (last : LastLine)
    (ls : List ContinuedLine) (rest : Text) :
    (block mark last ls ++ rest).head? ≠ some (.char '\n') := by
  have hcontent : ∀ content : Text, OneLine content → content ≠ [] → ∀ rest : Text,
      (content ++ rest).head? ≠ some (.char '\n') := by
    intro content honeLine hne rest
    obtain ⟨c, others, rfl⟩ := List.exists_cons_of_ne_nil hne
    rintro ⟨⟩
    cases honeLine _ List.mem_cons_self
  cases ls with
  | nil => exact hcontent _ (last.content_oneLine hmark) (last.content_ne_nil mark) rest
  | cons l ls =>
    rw [block, List.append_assoc]
    exact hcontent _ (l.content_oneLine hmark) (l.content_ne_nil mark) _

theorem trimmed_marked {front : Text} (hfront : front ≠ [])
    (hlast : ∀ c, front.getLast? = some c → c.isBlank = false) :
    Trimmed (execStartMark ++ front) := by
  obtain ⟨c, hc⟩ := Option.ne_none_iff_exists'.mp (mt List.getLast?_eq_none_iff.mp hfront)
  exact trimmed_append (c := .char 'E') rfl hc rfl (hlast c hc)

theorem oneLine_execStartMark : OneLine execStartMark := by decide

/-- The first line of a start command that goes on holds the mark, the piece and the backslash. -/
theorem ContinuedLine.stripped_marked (l : ContinuedLine) :
    stripped (l.content execStartMark) =
      execStartMark ++ (l.piece ++ l.gap ++ [.char '\\']) := by
  rw [content, stripped_between l.indentation_spacing.allBlank l.trailing_spacing.allBlank]
  refine stripped_of_trimmed (trimmed_marked (List.concat_ne_nil _ _) fun c hc => ?_)
  rw [List.getLast?_concat] at hc
  cases hc
  rfl

theorem ContinuedLine.stripped_piece (l : ContinuedLine) :
    stripped (l.piece ++ l.gap) = l.piece := by
  rw [stripped_append_blanks l.gap_spacing.allBlank, stripped_of_trimmed l.piece_trimmed]

/-- Any other line that goes on holds the piece and the backslash. -/
theorem ContinuedLine.stripped_content (l : ContinuedLine) :
    ∃ t, stripped (l.content []) = t ++ [.char '\\'] ∧ stripped t = l.piece := by
  refine ⟨(l.piece ++ l.gap).dropWhile CodePoint.isBlank, ?_, ?_⟩
  · rw [content, stripped_between l.indentation_spacing.allBlank l.trailing_spacing.allBlank]
    exact stripped_backslash (l.piece ++ l.gap)
  · rw [stripped_dropWhile, l.stripped_piece]

/-- The last line holds the last piece. -/
theorem LastLine.stripped_content (l : LastLine) : stripped (l.content []) = l.piece := by
  rw [content, stripped_between l.indentation_spacing.allBlank l.trailing_spacing.allBlank]
  exact stripped_of_trimmed l.piece_trimmed

theorem LastLine.stripped_marked (l : LastLine) :
    stripped (l.content execStartMark) = execStartMark ++ l.piece := by
  rw [content, stripped_between l.indentation_spacing.allBlank l.trailing_spacing.allBlank]
  exact stripped_of_trimmed (trimmed_marked l.piece_nonempty l.piece_trimmed.last)

/-- A piece in front of a backslash is followed by those of the lines behind it. -/
theorem pieces_block (last : LastLine) {behind : Text}
    (hbehind : ∀ c ∈ behind.head?, c.endsLine = true) (ls : List ContinuedLine) (t : Text) :
    pieces (t ++ [.char '\\']) (lines (block [] last ls ++ behind)) =
      stripped t :: (ls.map (·.piece) ++ [last.piece]) := by
  induction ls generalizing t with
  | nil =>
    obtain ⟨others, hlines⟩ := exists_lines (last.content_oneLine oneLine_nil)
      (last.content_ne_nil []) hbehind
    rw [block, hlines, pieces_backslash, last.stripped_content, pieces_complete last.piece_complete]
    rfl
  | cons l ls ih =>
    obtain ⟨t', hcontent, hpiece⟩ := l.stripped_content
    rw [block, List.append_assoc, List.append_assoc,
      lines_line (l.content_oneLine oneLine_nil) l.ends (head?_block oneLine_nil last ls behind),
      pieces_backslash, hcontent, ih, hpiece]
    rfl

/-! ## The start command -/

theorem execStartIn_unmarked {line : Text} (h : ¬ execStartMark <+: stripped line)
    (others : List Text) : execStartIn (line :: others) = execStartIn others := by
  rw [execStartIn, Command.afterStart?_eq_none.mpr h]

theorem execStartIn_marked {line : Text} (h : stripped line = execStartMark ++ piece)
    (others : List Text) :
    execStartIn (line :: others) =
      some (Text.join (text " ") ((pieces piece others).filter (!·.isEmpty))) := by
  rw [execStartIn, h, Command.afterStart?_append]

/-- A line in front of the start command does not matter. -/
theorem execStart?_header (h : HeaderLine) (rest : Text) :
    execStart? (h.content ++ (h.ending ++ rest)) = execStart? rest := by
  rw [execStart?, execStart?]
  rcases lines_lineEnd h.ends rest with hlines | ⟨behind, rfl, hlines⟩
  · rw [lines_append h.oneLine hlines, List.append_nil, execStartIn_unmarked h.unmarked]
  · -- the line feed that is lost with the carriage return would have ended an empty line
    rw [lines_append h.oneLine hlines, List.append_nil, execStartIn_unmarked h.unmarked]
    have hempty : ¬ execStartMark <+: stripped [] := by decide
    exact (execStartIn_unmarked hempty _).symm

/-- The pieces of a start command are joined by blanks. -/
theorem execStart?_block (last : LastLine) {behind : Text}
    (hbehind : ∀ c ∈ behind.head?, c.endsLine = true) (ls : List ContinuedLine) :
    execStart? (block execStartMark last ls ++ behind) =
      some (Text.join (text " ") ((ls.map (·.piece)).filter (!·.isEmpty) ++ [last.piece])) := by
  have hlast : [last.piece].filter (!·.isEmpty) = [last.piece] :=
    List.filter_cons_of_pos (congrArg not (List.isEmpty_eq_false_iff.mpr last.piece_nonempty))
  rw [execStart?]
  cases ls with
  | nil =>
    obtain ⟨others, hlines⟩ := exists_lines (last.content_oneLine oneLine_execStartMark)
      (last.content_ne_nil execStartMark) hbehind
    rw [block, hlines, execStartIn_marked last.stripped_marked, pieces_complete last.piece_complete,
      hlast]
    rfl
  | cons l ls =>
    rw [block, List.append_assoc, List.append_assoc,
      lines_line (l.content_oneLine oneLine_execStartMark) l.ends
        (head?_block oneLine_nil last ls behind),
      execStartIn_marked l.stripped_marked, pieces_block last hbehind, l.stripped_piece,
      ← List.cons_append, List.filter_append, hlast]
    rfl

/-- A unit has no start command exactly if none of its lines begins with the mark. -/
theorem execStart?_eq_none (contents : Text) :
    execStart? contents = none ↔
      ∀ line ∈ lines contents, ¬ execStartMark <+: stripped line := by
  rw [execStart?]
  induction lines contents with
  | nil => exact iff_of_true rfl nofun
  | cons line others ih =>
    rw [List.forall_mem_cons]
    by_cases h : execStartMark <+: stripped line
    · obtain ⟨piece, hpiece⟩ := h
      rw [execStartIn_marked hpiece.symm]
      exact iff_of_false nofun fun hnone => hnone.1 ⟨piece, hpiece⟩
    · rw [execStartIn_unmarked h, ih, and_iff_right h]

/-- **The layout of a unit does not show in its start command**, which is the pieces with a blank
between each two. Every unit has a start command or none, and none exactly if no line of it begins
with the mark, blanks aside. -/
theorem execStart?_layout :
    (∀ l : Layout, execStart? l.written = some (Text.join (text " ") l.pieces)) ∧
      ∀ contents, execStart? contents = none ↔
        ∀ line ∈ lines contents, ¬ execStartMark <+: stripped line := by
  refine ⟨fun l => ?_, execStart?_eq_none⟩
  obtain ⟨header, continued, last, behind, hbehind⟩ := l
  rw [Layout.written]
  induction header with
  | nil => exact execStart?_block last hbehind continued
  | cons h header ih =>
    rw [List.flatMap_cons, List.append_assoc, List.append_assoc, execStart?_header]
    exact ih

/-- A unit with blanks of all kinds, a line with a backslash alone and a piece that ends in one. -/
def Layout.brief : Layout where
  header := [⟨text "[Service]", text "\r\n", by decide, by decide, rfl⟩]
  continued := [
    ⟨text "  ", text "k", text " ", text "\t", text "\r\n", by decide, by decide,
      ⟨by decide, by decide⟩, by decide, by decide, rfl⟩,
    ⟨[], [], [], text " ", text "\u2028", by decide, by decide, ⟨by decide, by decide⟩, by decide,
      by decide, rfl⟩,
    ⟨text "\t", text "--v=3\\", [], [], text "\r", by decide, by decide, ⟨by decide, by decide⟩,
      by decide, by decide, rfl⟩]
  last := ⟨[], text "--x", text " ", by decide, by decide, by decide, ⟨by decide, by decide⟩, rfl,
    by decide⟩
  behind := text "\nType=simple"
  apart := by decide

theorem execStart?_layout_brief :
    Layout.brief.written =
        text "[Service]\r\n  ExecStart=k \\\t\r\n\\ \u2028\t--v=3\\\\\r--x \nType=simple" ∧
      execStart? Layout.brief.written = some (text "k --v=3\\ --x") :=
  ⟨by decide, (execStart?_layout.1 Layout.brief).trans (by decide)⟩

end UnitFile

end NodeBootstrap
