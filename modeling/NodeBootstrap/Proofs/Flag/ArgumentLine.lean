import Mathlib.Data.List.TakeWhile
import NodeBootstrap.Proofs.Path

/-!
# The arguments of a command line

A service is started with a command line, a single text, and the program that is started splits it
itself. Blanks and tabs outside of quotes separate arguments. A quote opens or closes, and is no
part of the argument; what stands between two of them is in the argument, separators too.
Backslashes count for themselves but in front of a quote: there two of them make one, and one that
is left over makes the quote a part of the argument. On a quote directly behind a closing one
programs differ (`Doubling`).

So an argument can be written as it is, or with its end in quotes, as long as it has no quotes of
its own and what is in front of the quote that closes is no backslash. Nothing else will do if
programs of all kinds are to read the argument that is meant: `split_line_iff` says so of any number
of arguments on one line.
-/

set_option autoImplicit false

namespace NodeBootstrap.ArgumentLine

/-! ## Splitting a command line -/

/-- What separates arguments. -/
def isSeparator (c : CodePoint) : Bool := c = .char ' ' || c = .char '\t'

/-- What a program makes of a quote directly behind a closing one. -/
inductive Doubling
  /-- The quotes are open again. -/
  | reopens
  /-- It is a part of the argument. The quotes are open again, or they are not. -/
  | literal (opens : Bool)
  deriving DecidableEq, Repr

theorem Doubling.forall_iff {P : Doubling → Prop} :
    (∀ doubling, P doubling) ↔ P .reopens ∧ P (.literal true) ∧ P (.literal false) := by
  refine ⟨fun h => ⟨h _, h _, h _⟩, fun ⟨hreopens, hopens, hcloses⟩ doubling => ?_⟩
  match doubling with
  | .reopens => exact hreopens
  | .literal true => exact hopens
  | .literal false => exact hcloses

instance {P : Doubling → Prop} [DecidablePred P] : Decidable (∀ doubling, P doubling) :=
  decidable_of_iff _ Doubling.forall_iff.symm

/-- Where the reader of a command line stands. -/
inductive Place
  /-- Outside of quotes. -/
  | bare
  /-- Inside of quotes. -/
  | quoted
  /-- Outside, directly behind a closing quote. -/
  | closed
  deriving DecidableEq, Repr

/-- Where a reader stands behind anything but a quote. -/
def Place.behind : Place → Place
  | .quoted => .quoted
  | .bare | .closed => .bare

/-- Where a reader stands behind a quote that is no part of the argument, or none if it is one. -/
def Place.behindQuote (doubling : Doubling) : Place → Option Place
  | .bare => some .quoted
  | .quoted => some .closed
  | .closed =>
    match doubling with
    | .reopens => some .quoted
    | .literal _ => none

/-- Where a reader stands behind a quote that is a part of the argument for the one before it. -/
def Doubling.place : Doubling → Place
  | .literal true => .quoted
  | .literal false | .reopens => .bare

/-- An argument with the backslashes behind it. -/
def read (word : Option Text) (slashes : Nat) : Text :=
  word.getD [] ++ List.replicate slashes (.char '\\')

/-- The argument that ends, if one was begun. -/
def finished (word : Option Text) (slashes : Nat) : List Text :=
  if word.isNone && slashes = 0 then [] else [read word slashes]

/-- The arguments of the rest of a command line; `word` is what has been read of the current one but
for the last backslashes, which are counted. -/
def splitFrom (doubling : Doubling) : Place → Nat → Option Text → Text → List Text
  | _, slashes, word, [] => finished word slashes
  | place, slashes, word, c :: rest =>
    if c = .char '\\' then splitFrom doubling place.behind (slashes + 1) word rest
    else if c = .char '"' then
      let front := read word (slashes / 2)
      if slashes % 2 = 1 then splitFrom doubling place.behind 0 (some (front ++ [c])) rest
      else match place.behindQuote doubling with
        | some place => splitFrom doubling place 0 (some front) rest
        | none => splitFrom doubling doubling.place 0 (some (front ++ [c])) rest
    else if isSeparator c && place ≠ .quoted then
      finished word slashes ++ splitFrom doubling .bare 0 none rest
    else splitFrom doubling place.behind 0 (some (read word slashes ++ [c])) rest

/-- The arguments of a command line. -/
def split (doubling : Doubling) (line : Text) : List Text := splitFrom doubling .bare 0 none line

/-! ## Writing arguments -/

/-- An argument as it is written: a front and a body, which may stand in quotes. -/
structure Piece where
  front : Text
  quoted : Bool
  body : Text

namespace Piece

def written (p : Piece) : Text :=
  p.front ++ if p.quoted then .char '"' :: (p.body ++ [.char '"']) else p.body

/-- The argument that a piece is written for. -/
def meant (p : Piece) : Text := p.front ++ p.body

/-- A piece whose front stands for itself, and which is not made of separators only. -/
structure Regular (p : Piece) : Prop where
  front : ∀ c ∈ p.front, c ≠ .char '\\' ∧ c ≠ .char '"' ∧ isSeparator c = false
  some : p.quoted = false → ∃ c ∈ p.meant, isSeparator c = false

/-- A piece whose body does not leave it: it has no quotes, in quotes it does not end with a
backslash, and outside of them it has no separators. -/
structure Sealed (p : Piece) : Prop where
  quotes : .char '"' ∉ p.body
  last : p.quoted = true → p.body.getLast? ≠ some (.char '\\')
  separators : p.quoted = false → ∀ c ∈ p.body, isSeparator c = false

instance : DecidablePred Sealed := fun p =>
  decidable_of_iff (.char '"' ∉ p.body ∧
      (p.quoted = true → p.body.getLast? ≠ some (.char '\\')) ∧
      (p.quoted = false → ∀ c ∈ p.body, isSeparator c = false))
    ⟨fun ⟨h₁, h₂, h₃⟩ => ⟨h₁, h₂, h₃⟩, fun ⟨h₁, h₂, h₃⟩ => ⟨h₁, h₂, h₃⟩⟩

end Piece

/-- Pieces on one line. -/
def line (pieces : List Piece) : Text := Text.join (text " ") (pieces.map Piece.written)

variable {doubling : Doubling} {place : Place} {slashes : Nat} {word : Option Text}
  {s rest : Text} {p : Piece} {pieces : List Piece}

/-! ## Reading what stands for itself -/

theorem read_succ (word : Option Text) (slashes : Nat) :
    read word (slashes + 1) = read word slashes ++ [.char '\\'] := by
  rw [read, read, List.replicate_succ', List.append_assoc]

theorem read_some (t : Text) : read (some t) 0 = t := List.append_nil t

theorem finished_some (t : Text) (slashes : Nat) :
    finished (some t) slashes = [read (some t) slashes] := rfl

theorem splitFrom_backslash (doubling : Doubling) (place : Place) (slashes : Nat)
    (word : Option Text) (rest : Text) :
    splitFrom doubling place slashes word (.char '\\' :: rest) =
      splitFrom doubling place.behind (slashes + 1) word rest := by
  rw [splitFrom, if_pos rfl]

/-- A code point that means nothing is read into the argument. -/
theorem splitFrom_other {c : CodePoint} (hback : c ≠ .char '\\') (hquote : c ≠ .char '"')
    (h : isSeparator c = false ∨ place = .quoted) :
    splitFrom doubling place slashes word (c :: rest) =
      splitFrom doubling place.behind 0 (some (read word slashes ++ [c])) rest := by
  have hnot : (isSeparator c && decide (place ≠ .quoted)) = false := by
    rcases h with h | rfl
    · rw [h, Bool.false_and]
    · exact Bool.and_false _
  rw [splitFrom, if_neg hback, if_neg hquote, hnot, if_neg Bool.false_ne_true]

/-- A separator outside of quotes ends the argument. -/
theorem splitFrom_separator {c : CodePoint} (hc : isSeparator c = true) (hplace : place ≠ .quoted) :
    splitFrom doubling place slashes word (c :: rest) =
      finished word slashes ++ splitFrom doubling .bare 0 none rest := by
  have hback : c ≠ .char '\\' := by
    rintro rfl
    cases hc
  have hquote : c ≠ .char '"' := by
    rintro rfl
    cases hc
  rw [splitFrom, if_neg hback, if_neg hquote, hc, decide_eq_true hplace, Bool.and_self,
    if_pos rfl]

/-- Outside of quotes a text without quotes and separators is read into the argument. -/
theorem splitFrom_bare (hs : ∀ c ∈ s, c ≠ .char '"' ∧ isSeparator c = false)
    (hplace : place ≠ .quoted) (hne : s ≠ [] ∨ finished word slashes ≠ []) (rest : Text) :
    ∃ place' slashes' word', place' ≠ .quoted ∧
      finished word' slashes' = [read word slashes ++ s] ∧
        splitFrom doubling place slashes word (s ++ rest) =
          splitFrom doubling place' slashes' word' rest := by
  induction s generalizing place slashes word with
  | nil =>
    have hsome := hne.resolve_left fun h => h rfl
    refine ⟨place, slashes, word, hplace, ?_, rfl⟩
    unfold finished at hsome ⊢
    split at hsome
    next => exact absurd rfl hsome
    next hnot => rw [if_neg hnot, List.append_nil]
  | cons c s ih =>
    obtain ⟨⟨hquote, hseparator⟩, hmore⟩ := List.forall_mem_cons.mp hs
    have hbehind : place.behind ≠ .quoted := by
      cases place with
      | quoted => exact absurd rfl hplace
      | bare | closed => exact nofun
    by_cases hback : c = .char '\\'
    · subst hback
      have hsome : finished word (slashes + 1) ≠ [] := by simp [finished]
      have hnext := ih hmore hbehind (.inr hsome)
      rwa [read_succ, List.append_assoc, ← splitFrom_backslash] at hnext
    · have hnext := @ih place.behind 0 (some (read word slashes ++ [c])) hmore hbehind
        (.inr (List.cons_ne_nil _ _))
      rwa [read_some, List.append_assoc, ← splitFrom_other hback hquote (.inl hseparator)] at hnext

/-- Inside of quotes a text without quotes is read into the argument up to the closing quote, unless
a backslash is in front of that. -/
theorem splitFrom_inQuotes (hs : .char '"' ∉ s) (hlast : s.getLast? ≠ some (.char '\\'))
    (hne : s = [] → slashes = 0) (rest : Text) :
    splitFrom doubling .quoted slashes word (s ++ .char '"' :: rest) =
      splitFrom doubling .closed 0 (some (read word slashes ++ s)) rest := by
  induction s generalizing slashes word with
  | nil =>
    obtain rfl := hne rfl
    rw [List.append_nil]
    rfl
  | cons c s ih =>
    obtain ⟨hquote, hmore⟩ := not_or.mp (mt List.mem_cons.mpr hs)
    have hlater : s.getLast? ≠ some (.char '\\') := by
      cases s with
      | nil => exact nofun
      | cons d s => rwa [List.getLast?_cons_cons] at hlast
    rw [List.cons_append]
    by_cases hback : c = .char '\\'
    · subst hback
      have hne : s ≠ [] := by
        rintro rfl
        exact hlast rfl
      rw [splitFrom_backslash]
      refine (ih hmore hlater fun h => absurd h hne).trans ?_
      rw [read_succ, List.append_assoc, List.singleton_append]
    · rw [splitFrom_other hback (Ne.symm hquote) (.inr rfl)]
      refine (ih hmore hlater fun _ => rfl).trans ?_
      rw [read_some, List.append_assoc, List.singleton_append]

/-- A front is read into the argument up to the opening quote. -/
theorem splitFrom_front (hs : ∀ c ∈ s, c ≠ .char '\\' ∧ c ≠ .char '"' ∧ isSeparator c = false)
    (rest : Text) :
    splitFrom doubling .bare 0 word (s ++ .char '"' :: rest) =
      splitFrom doubling .quoted 0 (some (read word 0 ++ s)) rest := by
  induction s generalizing word with
  | nil =>
    rw [List.append_nil]
    rfl
  | cons c s ih =>
    obtain ⟨⟨hback, hquote, hseparator⟩, hs⟩ := List.forall_mem_cons.mp hs
    rw [List.cons_append, splitFrom_other hback hquote (.inl hseparator)]
    refine (ih hs).trans ?_
    rw [read_some, List.append_assoc, List.singleton_append]

/-! ## Sealed pieces are read back -/

/-- A reader that has read a piece and stands outside of quotes behind it. -/
theorem splitFrom_written (hp : p.Regular) (h : p.Sealed) (rest : Text) :
    ∃ place slashes word, place ≠ .quoted ∧ finished word slashes = [p.meant] ∧
      splitFrom doubling .bare 0 none (p.written ++ rest) =
        splitFrom doubling place slashes word rest := by
  obtain ⟨front, quoted, body⟩ := p
  cases quoted with
  | true =>
    have hwritten : (Piece.mk front true body).written ++ rest =
        front ++ .char '"' :: (body ++ .char '"' :: rest) := by
      simp only [Piece.written, if_true, List.append_assoc, List.cons_append, List.nil_append]
    rw [hwritten, splitFrom_front hp.front, splitFrom_inQuotes h.quotes (h.last rfl) fun _ => rfl]
    rw [read_some]
    exact ⟨.closed, 0, some (front ++ body), nofun, by rw [finished_some, read_some]; rfl, rfl⟩
  | false =>
    have hbody : ∀ c ∈ front ++ body, c ≠ .char '"' ∧ isSeparator c = false :=
      List.forall_mem_append.mpr ⟨fun c hc => (hp.front c hc).2, fun c hc =>
        ⟨fun heq => h.quotes (heq ▸ hc), h.separators rfl c hc⟩⟩
    have hne : front ++ body ≠ [] := by
      obtain ⟨c, hc, -⟩ := hp.some rfl
      exact List.ne_nil_of_mem hc
    exact @splitFrom_bare doubling .bare 0 none _ hbody nofun (.inl hne) rest

/-- Behind a separator or at the end of the line an argument has ended. -/
theorem splitFrom_line (pieces : List Piece) (hplace : place ≠ .quoted) :
    splitFrom doubling place slashes word (pieces.flatMap fun p => text " " ++ p.written) =
      finished word slashes ++ split doubling (line pieces) := by
  cases pieces with
  | nil =>
    rw [List.flatMap_nil, splitFrom]
    exact (List.append_nil _).symm
  | cons p pieces =>
    have hline : (p :: pieces).flatMap (fun p => text " " ++ p.written) =
        .char ' ' :: line (p :: pieces) := by
      rw [line, List.map_cons, Text.join_cons, List.flatMap_cons, List.flatMap_map]
      rfl
    rw [hline]
    exact splitFrom_separator rfl hplace

theorem line_cons (p : Piece) (pieces : List Piece) :
    line (p :: pieces) = p.written ++ pieces.flatMap fun p => text " " ++ p.written := by
  rw [line, List.map_cons, Text.join_cons, List.flatMap_map]

/-- The argument that a sealed piece is written for is the first that is read. -/
theorem split_line_cons (hp : p.Regular) (h : p.Sealed) (pieces : List Piece) :
    split doubling (line (p :: pieces)) = p.meant :: split doubling (line pieces) := by
  obtain ⟨place, slashes, word, hplace, hfinished, hrun⟩ := @splitFrom_written doubling p hp h
    (pieces.flatMap fun p => text " " ++ p.written)
  rw [line_cons, split, hrun, splitFrom_line pieces hplace, hfinished]
  rfl

/-- Where all pieces are sealed, the arguments that they are written for are read. -/
theorem split_line (hregular : ∀ p ∈ pieces, p.Regular) (h : ∀ p ∈ pieces, p.Sealed) :
    split doubling (line pieces) = pieces.map Piece.meant := by
  induction pieces with
  | nil => rfl
  | cons p pieces ih =>
    obtain ⟨hp, hpieces⟩ := List.forall_mem_cons.mp h
    obtain ⟨hregularp, hregular⟩ := List.forall_mem_cons.mp hregular
    rw [split_line_cons hregularp hp, ih hregular hpieces, List.map_cons]

/-! ## What is read back is sealed -/

/-- Quotes weigh one and backslashes two. -/
def weight (t : Text) : Nat := 2 * t.count (.char '\\') + t.count (.char '"')

/-- How many quotes stand directly behind a backslash, of which some are in front of the text. -/
def escaped : Nat → Text → Nat
  | _, [] => 0
  | slashes, c :: rest =>
    if c = .char '\\' then escaped (slashes + 1) rest
    else if c = .char '"' then (if slashes = 0 then 0 else 1) + escaped 0 rest
    else escaped 0 rest

theorem weight_append (s t : Text) : weight (s ++ t) = weight s + weight t := by
  simp only [weight, List.count_append]
  omega

theorem weight_read (word : Option Text) (slashes : Nat) :
    weight (read word slashes) = weight (word.getD []) + 2 * slashes := by
  rw [read, weight_append]
  simp [weight, List.count_replicate]

theorem weight_finished (word : Option Text) (slashes : Nat) :
    weight (finished word slashes).flatten ≤ weight (read word slashes) := by
  unfold finished
  split
  next => exact Nat.zero_le _
  next => exact Nat.le_of_eq (congrArg weight List.flatten_singleton)

/-- A quote that opens or closes comes to nothing, and one that is read costs a backslash. Behind
backslashes something is lost either way. -/
theorem weight_quote (place : Place) (slashes : Nat) (word : Option Text) (rest : Text) :
    ∃ place' t, splitFrom .reopens place slashes word (.char '"' :: rest) =
        splitFrom .reopens place' 0 (some t) rest ∧
      weight t + (if slashes = 0 then 0 else 1) ≤ weight (read word slashes) := by
  have hback : CodePoint.char '"' ≠ .char '\\' := by decide
  have hone : weight [.char '"'] = 1 := rfl
  rw [splitFrom, if_neg hback, if_pos rfl]
  dsimp only
  split
  next hodd =>
    refine ⟨_, _, rfl, ?_⟩
    rw [weight_append, weight_read, weight_read, hone]
    split <;> omega
  next heven =>
    obtain ⟨place', hplace⟩ : ∃ place', place.behindQuote .reopens = some place' := by
      cases place <;> exact ⟨_, rfl⟩
    rw [hplace]
    refine ⟨_, _, rfl, ?_⟩
    rw [weight_read, weight_read]
    split <;> omega

/-- What is read weighs no more than the backslashes of the line, and less by one for each quote
behind a backslash. -/
theorem weight_splitFrom (place : Place) (slashes : Nat) (word : Option Text) (t : Text) :
    weight (splitFrom .reopens place slashes word t).flatten + escaped slashes t ≤
      weight (read word slashes) + 2 * t.count (.char '\\') := by
  induction t generalizing place slashes word with
  | nil =>
    rw [splitFrom, escaped]
    exact weight_finished word slashes
  | cons c t ih =>
    by_cases hback : c = .char '\\'
    · subst hback
      have hrest := ih place.behind (slashes + 1) word
      rw [weight_read] at hrest
      rw [splitFrom_backslash, escaped, if_pos rfl, weight_read, List.count_cons_self]
      omega
    · have hcount : (c :: t).count (.char '\\') = t.count (.char '\\') :=
        List.count_cons_of_ne hback
      rw [hcount, escaped, if_neg hback]
      by_cases hquote : c = .char '"'
      · subst hquote
        obtain ⟨place', word', hstep, hweight⟩ := weight_quote place slashes word t
        have hrest := ih place' 0 (some word')
        rw [read_some] at hrest
        rw [hstep, if_pos rfl]
        omega
      · rw [if_neg hquote]
        by_cases hseparator : isSeparator c = true ∧ place ≠ .quoted
        · have hrest := ih .bare 0 none
          have hfinished := weight_finished word slashes
          have hnone : weight (read none 0) = 0 := rfl
          rw [splitFrom_separator hseparator.1 hseparator.2, List.flatten_append, weight_append]
          omega
        · have hother : isSeparator c = false ∨ place = .quoted := by
            rcases not_and_or.mp hseparator with h | h
            · exact .inl (Bool.eq_false_iff.mpr h)
            · exact .inr (Decidable.not_not.mp h)
          have hweight : weight [c] = 0 := by
            simp [weight, hback, hquote]
          have hrest := ih place.behind 0 (some (read word slashes ++ [c]))
          rw [read_some, weight_append, hweight] at hrest
          rw [splitFrom_other hback hquote hother]
          omega

/-- A quote behind a backslash is counted wherever it stands. -/
theorem escaped_pos (slashes : Nat) (s rest : Text) :
    0 < escaped slashes (s ++ .char '\\' :: .char '"' :: rest) := by
  induction s generalizing slashes with
  | nil =>
    show 0 < (if slashes + 1 = 0 then 0 else 1) + escaped 0 rest
    rw [if_neg (Nat.succ_ne_zero _)]
    omega
  | cons c s ih =>
    rw [List.cons_append, escaped]
    split
    next => exact ih _
    next =>
      split
      next => exact Nat.add_pos_right _ (ih 0)
      next => exact ih 0

theorem count_written (hp : p.Regular) :
    p.written.count (.char '\\') = p.body.count (.char '\\') := by
  have hfront : p.front.count (.char '\\') = 0 :=
    List.count_eq_zero.mpr fun hmem => (hp.front _ hmem).1 rfl
  rw [Piece.written, List.count_append, hfront, Nat.zero_add]
  split
  next => simp [List.count_append]
  next => rfl

theorem count_rest (pieces : List Piece) :
    (pieces.flatMap fun p => text " " ++ p.written).count (.char '\\') =
      (line pieces).count (.char '\\') := by
  cases pieces with
  | nil => rfl
  | cons p pieces =>
    rw [line_cons, List.flatMap_cons, List.append_assoc, List.count_append]
    exact Nat.zero_add _

/-- What the arguments weigh that pieces are written for. -/
theorem weight_meant (hregular : ∀ p ∈ pieces, p.Regular) :
    weight (pieces.map Piece.meant).flatten =
      2 * (line pieces).count (.char '\\') +
        (pieces.flatMap Piece.body).count (.char '"') := by
  induction pieces with
  | nil => rfl
  | cons p pieces ih =>
    obtain ⟨hp, hpieces⟩ := List.forall_mem_cons.mp hregular
    have hrest := ih hpieces
    have hfront : weight p.front = 0 := by
      rw [weight, List.count_eq_zero.mpr fun hmem => (hp.front _ hmem).1 rfl,
        List.count_eq_zero.mpr fun hmem => (hp.front _ hmem).2.1 rfl]
    have hbody : weight p.body = 2 * p.body.count (.char '\\') + p.body.count (.char '"') := rfl
    rw [List.map_cons, List.flatten_cons, weight_append, Piece.meant, weight_append, hfront, hrest,
      hbody, line_cons, List.count_append, count_rest, count_written hp, List.flatMap_cons,
      List.count_append]
    omega

/-- A piece is a part of its line. -/
theorem written_infix_line (hp : p ∈ pieces) : p.written <:+: line pieces := by
  cases pieces with
  | nil => cases hp
  | cons first pieces =>
    rw [line_cons]
    rcases List.mem_cons.mp hp with rfl | hp
    · exact (List.prefix_append _ _).isInfix
    · have hpart : text " " ++ p.written <:+: pieces.flatMap fun p => text " " ++ p.written :=
        List.infix_of_mem_flatten (List.mem_map_of_mem hp)
      exact ((List.suffix_append _ _).isInfix.trans hpart).trans (List.suffix_append _ _).isInfix

/-- Where the arguments that pieces are written for are read, none of the pieces has quotes of its
own, and none ends with a backslash in front of its closing quote. -/
theorem quotes_of_split (hregular : ∀ p ∈ pieces, p.Regular)
    (h : split .reopens (line pieces) = pieces.map Piece.meant) :
    ∀ p ∈ pieces, .char '"' ∉ p.body ∧
      (p.quoted = true → p.body.getLast? ≠ some (.char '\\')) := by
  have hweight := weight_splitFrom .bare 0 none (line pieces)
  have hnone : weight (read none 0) = 0 := rfl
  rw [show splitFrom .reopens .bare 0 none (line pieces) = _ from h, weight_meant hregular,
    hnone] at hweight
  intro p hp
  constructor
  · intro hquote
    have hcount : 0 < (pieces.flatMap Piece.body).count (.char '"') :=
      List.count_pos_iff.mpr (List.mem_flatMap.mpr ⟨p, hp, hquote⟩)
    omega
  · intro hquoted hlast
    obtain ⟨body, hbody⟩ := List.getLast?_eq_some_iff.mp hlast
    obtain ⟨before, behind, hline⟩ := written_infix_line hp
    have hwritten : before ++ p.written ++ behind =
        (before ++ p.front ++ .char '"' :: body) ++ .char '\\' :: .char '"' :: behind := by
      simp [Piece.written, hquoted, hbody]
    have hescaped := escaped_pos 0 (before ++ p.front ++ .char '"' :: body) behind
    rw [← hwritten, hline] at hescaped
    omega

/-- Where no quotes are, the first argument has no separators. -/
theorem exists_first (hs : .char '"' ∉ s) (hsome : ∃ c ∈ s, isSeparator c = false)
    (pieces : List Piece) :
    ∃ first more, (∀ c ∈ first, isSeparator c = false) ∧
      splitFrom doubling .bare 0 none (s ++ pieces.flatMap fun p => text " " ++ p.written) =
        first :: more := by
  induction s with
  | nil => exact absurd hsome (by simp)
  | cons c s ih =>
    obtain ⟨hquote, hmore⟩ := not_or.mp (mt List.mem_cons.mpr hs)
    cases hc : isSeparator c with
    | true =>
      obtain ⟨d, hd, hnot⟩ := hsome
      have hlater : ∃ d ∈ s, isSeparator d = false := by
        rcases List.mem_cons.mp hd with rfl | hd
        · exact absurd (hc.symm.trans hnot) Bool.noConfusion
        · exact ⟨d, hd, hnot⟩
      rw [List.cons_append, @splitFrom_separator doubling .bare 0 none _ c hc nofun]
      exact ih hmore hlater
    | false =>
      -- up to the next separator all is one argument
      have hword : ∀ d ∈ (c :: s).takeWhile (!isSeparator ·),
          d ≠ .char '"' ∧ isSeparator d = false := by
        intro d hd
        refine ⟨?_, by simpa using List.mem_takeWhile_imp hd⟩
        rintro rfl
        exact hs ((List.takeWhile_prefix _).subset hd)
      have hne : (c :: s).takeWhile (!isSeparator ·) ≠ [] := by simp [hc]
      obtain ⟨place, slashes, word, hplace, hfinished, hrun⟩ :=
        @splitFrom_bare doubling .bare 0 none _ hword nofun (.inl hne)
          ((c :: s).dropWhile (!isSeparator ·) ++ pieces.flatMap fun p => text " " ++ p.written)
      rw [← List.append_assoc, List.takeWhile_append_dropWhile] at hrun
      have hends : ∃ more, splitFrom doubling place slashes word
          ((c :: s).dropWhile (!isSeparator ·) ++
            pieces.flatMap fun p => text " " ++ p.written) = finished word slashes ++ more := by
        cases hrest : (c :: s).dropWhile (!isSeparator ·) with
        | nil => exact ⟨_, splitFrom_line pieces hplace⟩
        | cons d rest =>
          have hhead := List.head?_dropWhile_not (!isSeparator ·) (c :: s)
          rw [hrest] at hhead
          exact ⟨_, splitFrom_separator (by simpa using hhead) hplace⟩
      obtain ⟨more, hends⟩ := hends
      exact ⟨_, more, fun d hd => (hword d hd).2, by rw [hrun, hends, hfinished]; rfl⟩

/-- Where the arguments that pieces are written for are read, all pieces are sealed. -/
theorem sealed_of_split (hregular : ∀ p ∈ pieces, p.Regular)
    (hquotes : ∀ p ∈ pieces, .char '"' ∉ p.body ∧
      (p.quoted = true → p.body.getLast? ≠ some (.char '\\')))
    (h : split doubling (line pieces) = pieces.map Piece.meant) : ∀ p ∈ pieces, p.Sealed := by
  induction pieces with
  | nil => exact List.forall_mem_nil _
  | cons p pieces ih =>
    obtain ⟨hregularp, hregular⟩ := List.forall_mem_cons.mp hregular
    obtain ⟨⟨hquote, hlast⟩, hquotes⟩ := List.forall_mem_cons.mp hquotes
    have hp : p.Sealed := by
      refine ⟨hquote, hlast, fun hbare c hc => ?_⟩
      have hwritten : p.written = p.meant := by
        rw [Piece.written, hbare]
        rfl
      have hmeant : .char '"' ∉ p.meant := fun hmem =>
        (List.mem_append.mp hmem).elim (fun hfront => (hregularp.front _ hfront).2.1 rfl) hquote
      obtain ⟨first, more, hfirst, hrun⟩ :=
        @exists_first doubling _ hmeant (hregularp.some hbare) pieces
      rw [split, line_cons, hwritten, hrun, List.map_cons] at h
      exact hfirst c ((List.cons.inj h).1 ▸ List.mem_append_right _ hc)
    rw [split_line_cons hregularp hp, List.map_cons] at h
    exact List.forall_mem_cons.mpr ⟨hp, ih hregular hquotes (List.cons.inj h).2⟩

/-- Programs of all kinds read the arguments that pieces are written for exactly if all pieces are
sealed. -/
theorem split_line_iff (hregular : ∀ p ∈ pieces, p.Regular) :
    (∀ doubling, split doubling (line pieces) = pieces.map Piece.meant) ↔
      ∀ p ∈ pieces, p.Sealed := by
  constructor
  · intro h
    exact sealed_of_split hregular (quotes_of_split hregular (h .reopens)) (h .reopens)
  · intro h _
    exact split_line hregular h

/-- A value in quotes with a quote in it is read as more than one argument. -/
example : ∀ doubling, split doubling (text "k --v=\"3\" --w=\"4\"") =
    [text "k", text "--v=3", text "--w=4"] := by
  decide

end NodeBootstrap.ArgumentLine
