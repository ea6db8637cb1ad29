import NodeBootstrap.KubeletConfig.Fault

/-!
# The members of an object and their places

`membersAt` reads an object of a document member by member and says where each value stands. It goes
by the grammar of `Json.valueAt`, on which it rests for keys and values; only its faults between
those are its own.

`memberTable` is the object as a map. A key written twice stands at its last place, which is where
the member that counts is.
-/

set_option autoImplicit false

namespace NodeBootstrap.KubeletConfig

/-- A value and its place: it begins at `start` and ends before `stop`. -/
structure Member where
  value : Json
  start : Nat
  stop : Nat

/-- The cursor behind a code point that has to come next, blanks before it. -/
def expect (c : CodePoint) (place : Cursor) : Except Fault Cursor :=
  let next := place.skipBlanks
  match next.rest with
  | d :: rest => if d = c then .ok ⟨next.offset + 1, rest⟩ else .error (.expected c next.offset)
  | [] => .error (.expected c next.offset)

/-- A fault of the JSON grammar as one of the document. -/
def malformed {α : Type} (document : Text) (r : Except Json.Fault α) : Except Fault α :=
  r.mapError (.malformed document)

/-- The members of an object from the first key on, repeated keys too, and the offset behind the
closing brace. Each takes more than one code point, so the length of the text bounds their number.
-/
def membersFrom (document : Text) : Nat → Cursor → Except Fault (List (Text × Member) × Nat)
  | 0, place => .error (.expected (.char '"') place.skipBlanks.offset)
  | fuel + 1, place => do
    let inQuotes ← expect (.char '"') place
    let (key, behindKey) ←
      malformed document (Json.stringBody (inQuotes.offset - 1) inQuotes.offset inQuotes.rest)
    let behindColon ← expect (.char ':') behindKey
    let start := behindColon.skipBlanks
    let (value, stop) ← malformed document (Json.valueAt start)
    let member := (key, ⟨value, start.offset, stop.offset⟩)
    let next := stop.skipBlanks
    match next.rest with
    | .char '}' :: _ => return ([member], next.offset + 1)
    | _ =>
      let (members, last) ← membersFrom document fuel (← expect (.char ',') next)
      return (member :: members, last)

/-- The members of the object at a place, and the offset behind it. -/
def membersAt (document : Text) (offset : Nat) : Except Fault (List (Text × Member) × Nat) := do
  let inside := (← expect (.char '{') (Cursor.within document offset)).skipBlanks
  match inside.rest with
  | .char '}' :: _ => return ([], inside.offset + 1)
  | _ => membersFrom document (inside.rest.length + 1) inside

/-- Members as a map; of a key written twice the last counts, at its last place. -/
def memberTable (members : List (Text × Member)) : OrderedMap Text Member :=
  members.foldl (fun table m => OrderedMap.erase table m.1 ++ [m]) []

/-- The object at a place as a map, and the offset behind it. -/
def scanObject (document : Text) (offset : Nat) : Except Fault (OrderedMap Text Member × Nat) := do
  let (members, stop) ← membersAt document offset
  return (memberTable members, stop)

/-- The member that a path of keys leads to through nested objects. `path` is the whole path, for
the fault. -/
def memberOn (document : Text) (path : List Text) (table : OrderedMap Text Member) :
    List Text → Except Fault Member
  | [] => .error (.missingField path)
  | key :: keys =>
    match table.get? key with
    | none => .error (.missingField path)
    | some member =>
      if keys = [] then .ok member
      else
        match member.value with
        | .object _ => do
          let (inner, _) ← scanObject document member.start
          memberOn document path inner keys
        | _ => .error (.fieldNotAnObject key)

end NodeBootstrap.KubeletConfig
