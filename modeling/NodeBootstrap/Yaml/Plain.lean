import NodeBootstrap.Yaml.Fault
import NodeBootstrap.Yaml.Place

/-!
# Plain scalars

A plain scalar is words with blanks between them. A colon or a number sign ends it only where a
blank stands on the proper side; in a flow collection the marks of the collection end it too. It
goes on over line breaks as long as the lines are indented, and stops at the mark of a document.
-/

set_option autoImplicit false

namespace NodeBootstrap.Yaml.Plain

/-- Whether a plain scalar can begin with the text from here on. The marks of the format cannot
begin one; a dash, a question mark and a colon can if a word follows at once. -/
def beginsWith (version : Version) (inFlow : Bool) : Text → Bool
  | [] => false
  | c :: rest =>
    let following := rest.head?
    !isOneOf " \t\n\x85\u2028\u2029-?:,[]\x7b\x7d#&*!|>'\"%@\x60" c ||
      (version ≠ .former && c = .char ':' && inFlow && !(following.any isSpaceOrTab)) ||
      (!endsWordHere following && (c = .char '-' || (!inFlow && isOneOf "?:" c)))

/-- How many characters the next word has. -/
def wordLength (version : Version) (inFlow : Bool) : Text → Nat
  | [] => 0
  | c :: rest =>
    let following := rest.head?
    if c = .char ':' ∧ !endsWordHere following then wordLength version inFlow rest + 1
    else if c = .char '?' ∧ version ≠ .former then wordLength version inFlow rest + 1
    else if endsWordHere (some c) then 0
    else if !inFlow ∧ c = .char ':' then 0
    else if inFlow ∧ isOneOf ",:?[]\x7b\x7d" c then 0
    else wordLength version inFlow rest + 1

/-- Line breaks and the spaces among them, up to a text or the mark of a document. The answer is
what the breaks read as, `none` before a mark. -/
def breaks : Nat → Place → Option Text × Place
  | 0, p => (some [], p)
  | fuel + 1, p =>
    let p := p.skipSpaces
    match p.break? with
    | none => (some [], p)
    | some (c, p) =>
      if p.atDocumentMark then (none, p)
      else
        let (others, p) := breaks fuel p
        (others.map (c :: ·), p)

/-- What stands between two words: spaces, or line breaks. The answer is what it reads as, nothing
where the scalar ends, and whether a line ended. -/
def between (p : Place) : Text × Bool × Place :=
  let (spaces, p) := p.run (· = .char ' ')
  match p.break? with
  | none => (spaces, false, p)
  | some (first, p) =>
    if p.atDocumentMark then ([], true, p)
    else
      match breaks (p.rest.length + 1) p with
      | (none, p) => ([], true, p)
      | (some others, p) => (Place.foldedBreaks first others, true, p)

/-- The words from a place on, each with what stands before it. The answer tells too whether a line
ended behind the last word. -/
def words (version : Version) (inFlow : Bool) (indent : Int) :
    Nat → Text → Bool → Place → Text × Bool × Place
  | 0, _, ended, p => ([], ended, p)
  | fuel + 1, before, ended, p =>
    let length := wordLength version inFlow p.rest
    if p.next = some (.char '#') ∨ length = 0 then ([], ended, p)
    else
      let word := before ++ p.rest.take length
      let (spaces, ended, p) := between (p.forward length)
      if spaces.isEmpty ∨ p.next = some (.char '#') ∨ (!inFlow ∧ p.column < indent) then
        (word, ended, p)
      else
        let (others, ended, p) := words version inFlow indent fuel spaces ended p
        (word ++ others, ended, p)

/-- A plain scalar, whether a line ended behind it, and the place behind it and the blanks that
follow. Lines have to be indented by `indent`. -/
def read (version : Version) (inFlow : Bool) (indent : Int) (p : Place) : Text × Bool × Place :=
  words version inFlow indent (p.rest.length + 1) [] false p

end NodeBootstrap.Yaml.Plain
