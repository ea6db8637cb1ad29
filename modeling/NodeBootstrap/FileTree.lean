import NodeBootstrap.OrderedMap
import NodeBootstrap.Path.Slash
import NodeBootstrap.Text.Quoted
import NodeBootstrap.Text.Utf8

/-!
# The file tree

The directory that the program works in, as a value: each place below it, named by the names on the
way, holds a directory or a file. Paths are relative to it. Following one, every name but the last
has to name a directory, a dot stays and two dots go back; an absolute path leads out of the tree,
where nothing is found. Names are the same if they are the same texts; that two texts can spell the
same bytes, one of them by way of stray bytes, is left out.

`FileTree.at?` is the view of a tree; every operation says through it what it changes. Operations
that can fail are steps that keep what was done before the failure: making a directory with its
ancestors leaves the ancestors behind.

A `FileFault` is a refusal of the host with the path that it names, a path that no host takes at
all, or a file that was to be copied onto itself. The host may also break an operation off for
reasons of its own; the tree says of each of the next operations whether it does.
-/

set_option autoImplicit false

namespace NodeBootstrap

/-- What a place of the tree holds. -/
inductive FileNode
  | directory
  | file (contents : Bytes)
  deriving DecidableEq, Repr

/-- Why the host refuses a path. -/
inductive PathRefusal
  | noEntry
  | exists
  | notDirectory
  | isDirectory
  deriving DecidableEq, Repr

/-- The number and the words of a refusal. -/
def PathRefusal.message : PathRefusal → Text
  | .noEntry => text "[Errno 2] No such file or directory"
  | .exists => text "[Errno 17] File exists"
  | .notDirectory => text "[Errno 20] Not a directory"
  | .isDirectory => text "[Errno 21] Is a directory"

/-- A failed operation on files. -/
inductive FileFault
  /-- The host refuses the path. -/
  | refused (reason : PathRefusal) (path : Text)
  /-- A file was to be copied onto itself. -/
  | sameFile (source destination : Text)
  /-- The path holds a NUL. -/
  | nul
  /-- The path holds half of a surrogate pair that stands for no byte. -/
  | unencodable (fault : Encoding.EncodeFault)
  deriving DecidableEq, Repr

/-- The words for a failed operation. -/
def FileFault.message : FileFault → Text
  | .refused reason path => reason.message ++ text ": " ++ path.quoted
  | .sameFile source destination =>
    source.quoted ++ text " and " ++ destination.quoted ++ text " are the same file"
  | .nul => text "embedded null byte"
  | .unencodable fault => fault.message

/-- An operation that the host breaks off: what it is reported as and, if a file was being written,
what was left in it. -/
structure FileTrouble where
  fault : FileFault
  left : Option Bytes
  deriving DecidableEq, Repr

/-- The places below the working directory and what they hold. -/
structure FileTree where
  nodes : OrderedMap (List Text) FileNode
  /-- What happens to the next operations, one entry for each; those behind the last go through. -/
  troubles : List (Option FileTrouble) := []
  deriving DecidableEq, Repr

/-- Operations on the tree that may fail and keep what they changed before. -/
abbrev FileStep := ExceptT FileFault (StateM FileTree)

namespace FileTree

/-- The empty working directory. -/
def empty : FileTree := ⟨[], []⟩

/-- What is at a place; the working directory itself is always there. -/
def at? (t : FileTree) (place : List Text) : Option FileNode :=
  if place = [] then some .directory else t.nodes.get? place

/-- The tree with something else at a place. -/
def put (t : FileTree) (place : List Text) (node : FileNode) : FileTree :=
  { t with nodes := t.nodes.set place node }

theorem at?_put_self (t : FileTree) (place : List Text) (node : FileNode) (h : place ≠ []) :
    (t.put place node).at? place = some node := by
  simp [at?, put, h]

theorem at?_put_ne (t : FileTree) {place other : List Text} (node : FileNode) (h : place ≠ other) :
    (t.put place node).at? other = t.at? other := by
  unfold at? put
  split
  · rfl
  · exact OrderedMap.get?_set_ne _ _ h

/-- The names of what a directory holds. -/
def childNames (t : FileTree) (place : List Text) : List Text :=
  t.nodes.keys.filterMap fun other =>
    if other.length = place.length + 1 ∧ other.take place.length = place then other.getLast?
    else none

/-! ## Following a path -/

/-- The place that names lead to from a directory. The last of them need not be there, but what it
would be in is. -/
def follow (t : FileTree) (here : List Text) : List Text → Except PathRefusal (List Text)
  | [] => .ok here
  | name :: rest =>
    match t.at? here with
    | none => .error .noEntry
    | some (.file _) => .error .notDirectory
    | some .directory =>
      if name = text "." then follow t here rest
      else if name = text ".." then follow t here.dropLast rest
      else follow t (here ++ [name]) rest

/-- The place of a path. -/
def placeOf (t : FileTree) (path : Text) : Except PathRefusal (List Text) :=
  if path.isEmpty || Path.isAbsolute path then .error .noEntry else follow t [] (Path.names path)

/-- What a path names. A slash at its end asks for a directory. -/
def nodeOf (t : FileTree) (path : Text) : Except PathRefusal FileNode := do
  let place ← t.placeOf path
  match t.at? place with
  | none => .error .noEntry
  | some .directory => .ok .directory
  | some (.file contents) =>
    if Path.endsInSlash path then .error .notDirectory else .ok (.file contents)

/-- Refuses the paths that no host takes. -/
def usable (path : Text) : Except FileFault Unit :=
  match Utf8.unspellableFrom? 0 path with
  | some fault => .error (.unencodable fault)
  | none => if .char '\x00' ∈ path then .error .nul else .ok ()

/-- A refusal as a fault that names the path. -/
def refuse {α : Type} (path : Text) (r : Except PathRefusal α) : Except FileFault α :=
  r.mapError (.refused · path)

/-- What a path names, or why it names nothing. -/
def status (t : FileTree) (path : Text) : Except FileFault FileNode := do
  usable path
  refuse path (t.nodeOf path)

/-- Whether a path names anything. -/
def exists? (t : FileTree) (path : Text) : Bool := (t.status path).isOk

/-- Whether a path names a file. -/
def isFile (t : FileTree) (path : Text) : Bool :=
  match t.status path with
  | .ok (.file _) => true
  | _ => false

/-- Whether a path names a directory. -/
def isDirectory (t : FileTree) (path : Text) : Bool :=
  match t.status path with
  | .ok .directory => true
  | _ => false

/-! ## Trouble -/

/-- What happens to the operation that begins. -/
def nextTrouble : FileStep (Option FileTrouble) := do
  let t ← get
  match t.troubles with
  | [] => return none
  | trouble :: troubles =>
    set { t with troubles := troubles }
    return trouble

/-- An operation that changes nothing begins. -/
def begins : FileStep Unit := do
  match ← nextTrouble with
  | none => return
  | some trouble => throw trouble.fault

/-- A question about the tree. -/
def ask {α : Type} (question : FileTree → Except FileFault α) : FileStep α := do
  begins
  question (← get)

/-! ## Reading -/

/-- The contents of a file. -/
def read (t : FileTree) (path : Text) : Except FileFault Bytes := do
  match ← t.status path with
  | .directory => .error (.refused .isDirectory path)
  | .file contents => .ok contents

/-- The names in a directory, in the order by code points. -/
def list (t : FileTree) (path : Text) : Except FileFault (List Text) := do
  usable path
  let place ← refuse path (t.placeOf path)
  match ← refuse path (t.nodeOf path) with
  | .directory => .ok (Text.sort (t.childNames place))
  | .file _ => .error (.refused .notDirectory path)

/-! ## Writing -/

/-- The place that a file is opened for writing at. -/
def writable (t : FileTree) (path : Text) : Except FileFault (List Text) := do
  usable path
  let place ← refuse path (t.placeOf path)
  match t.at? place with
  | some .directory => .error (.refused .isDirectory path)
  | some (.file _) =>
    if Path.endsInSlash path then .error (.refused .notDirectory path) else .ok place
  | none => if Path.endsInSlash path then .error (.refused .isDirectory path) else .ok place

/-- A file with contents made from those before, made if it was not there. -/
def change (path : Text) (contents : Bytes → Bytes) : FileStep Unit := do
  let trouble ← nextTrouble
  let t ← get
  let place ← t.writable path
  let before :=
    match t.at? place with
    | some (.file before) => before
    | _ => []
  match trouble with
  | none => set (t.put place (.file (contents before)))
  | some trouble =>
    if let some left := trouble.left then set (t.put place (.file left))
    throw trouble.fault

/-- A file with new contents, made if it was not there. -/
def write (path : Text) (contents : Bytes) : FileStep Unit := change path fun _ => contents

/-- Contents behind those of a file, made if it was not there. -/
def append (path : Text) (contents : Bytes) : FileStep Unit := change path (· ++ contents)

/-- A new directory in one that is there. -/
def makeDirectory (path : Text) : FileStep Unit := do
  begins
  let t ← get
  usable path
  let place ← refuse path (t.placeOf path)
  if (t.at? place).isSome then throw (.refused .exists path)
  set (t.put place .directory)

/-- A path without its last name, and that name; one slash at the end is passed over. -/
def parentAndName (path : Text) : Text × Text :=
  match Path.split path with
  | (head, []) => Path.split head
  | parts => parts

/-- A new directory and those of its ancestors that are not there. An ancestor that another has made
meanwhile is no failure. With `keep`, a directory that is already there is none either. The fuel
bounds the number of ancestors. -/
def makeDirectoriesFrom (keep : Bool) : Nat → Text → FileStep Unit
  | 0, _ => return
  | fuel + 1, path => do
    let (parent, name) := parentAndName path
    let missing := !parent.isEmpty && !name.isEmpty && !(← get).exists? parent
    if missing then
      try makeDirectoriesFrom keep fuel parent
      catch
        | .refused .exists _ => pure ()
        | fault => throw fault
    if missing && name = text "." then return
    try makeDirectory path
    catch
      | .refused reason culprit =>
        if !keep || !(← get).isDirectory path then throw (.refused reason culprit)
      | fault => throw fault

/-- A new directory and those of its ancestors that are not there. -/
def makeDirectories (path : Text) (keep : Bool) : FileStep Unit :=
  makeDirectoriesFrom keep (path.length + 1) path

/-- Whether two paths name the same place. A path that names nothing is the same as none, but one
that no host takes is a fault. -/
def sameFile (t : FileTree) (source destination : Text) : Except FileFault Bool :=
  match t.status source with
  | .error (.refused _ _) => .ok false
  | .error fault => .error fault
  | .ok _ =>
    match t.status destination with
    | .error (.refused _ _) => .ok false
    | .error fault => .error fault
    | .ok _ =>
      match t.placeOf source, t.placeOf destination with
      | .ok a, .ok b => .ok (a = b)
      | _, _ => .ok false

/-- The contents of one file in another. The source is opened first. -/
def copy (source destination : Text) : FileStep Unit := do
  if ← (← get).sameFile source destination then throw (.sameFile source destination)
  let contents ← ask (·.read source)
  write destination contents

/-! ## The tree as a whole -/

/-- The tree without a place and all below it. -/
def remove (t : FileTree) (path : Text) : FileTree :=
  match t.placeOf path with
  | .error _ => t
  | .ok place => { t with nodes := t.nodes.filter fun e => !place.isPrefixOf e.1 }

/-- The tree with something at a path, and directories above it. -/
def plant (t : FileTree) (path : Text) (node : FileNode) : FileTree :=
  let names := Path.normalNames path
  let above := (List.range names.length).filterMap fun n =>
    if 0 < n then some (names.take n) else none
  let t := above.foldl (fun t place => if (t.at? place).isSome then t else t.put place .directory) t
  match node, t.at? names with
  | .directory, some .directory => t
  | node, _ => if names = [] then t else t.put names node

/-- Every place with its path, in the order of the paths. -/
def listing (t : FileTree) : List (Text × FileNode) :=
  (t.nodes.map fun (place, node) => (Text.join [Path.slash] place, node)).mergeSort
    fun a b => Text.le a.1 b.1

end FileTree

end NodeBootstrap
