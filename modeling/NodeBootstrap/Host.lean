import NodeBootstrap.Clock
import NodeBootstrap.Service.Control

/-!
# The host

What the program acts on, as one value: the files, the services, the answers that an HTTP endpoint
gives, the clock that pauses are made by, and a record of what was done — the programs run, the
pauses made, the requests sent and the lines logged. Programs, pauses and requests are recorded each
for themselves and once more together, in the order in which they were done.

A `HostStep` reads and changes the host and may fail; what it changed before it failed stays
changed.
-/

set_option autoImplicit false

namespace NodeBootstrap

/-- How much a log line matters. -/
inductive LogLevel
  | debug
  | info
  | warning
  | error
  deriving DecidableEq, Repr

namespace LogLevel

/-- The name of a level in a log. -/
def name : LogLevel → Text
  | .debug => text "DEBUG"
  | .info => text "INFO"
  | .warning => text "WARNING"
  | .error => text "ERROR"

/-- The order of the levels. -/
def rank : LogLevel → Nat
  | .debug => 0
  | .info => 1
  | .warning => 2
  | .error => 3

end LogLevel

/-- A line of a log. -/
structure LogLine where
  level : LogLevel
  message : Text
  deriving DecidableEq, Repr

/-- The text of a line. -/
def LogLine.shown (l : LogLine) : Text := text "[" ++ l.level.name ++ text "] " ++ l.message

/-- A log: the least level that is kept, the lines and the file that they are appended to. -/
structure Journal where
  threshold : LogLevel
  lines : List LogLine
  file : Option Text
  deriving DecidableEq, Repr

/-- What a request comes to. -/
inductive Response
  | status (code : Int)
  /-- The request failed in a way that is known to happen to requests. -/
  | unreachable (kind : Text)
  /-- The request broke off for a reason that nobody handles. -/
  | broken
  deriving DecidableEq, Repr

/-- Something that is done on the host. -/
inductive Deed
  | run (command : List Text)
  | pause (length : Value)
  | request (endpoint allowed : Value)

/-- The host and the record of what was done on it. -/
structure Host where
  files : FileTree
  control : ServiceControl
  responses : List Response
  clock : Clock
  /-- The commands given to be run, also those that the system did not take. -/
  calls : List (List Text)
  /-- The lengths of the pauses made. -/
  sleeps : List Value
  /-- The endpoints asked, each with the time allowed for the answer. -/
  requests : List (Value × Value)
  /-- All that was done, in order. -/
  deeds : List Deed
  journal : Journal

/-- Operations on the host that may fail and keep what they changed before. -/
abbrev HostStep := ExceptT Failure (StateM Host)

namespace Host

/-- A host without files and services that logs nothing to a file. -/
def empty : Host where
  files := FileTree.empty
  control := .table ServiceTable.empty
  responses := []
  clock := .standIn
  calls := []
  sleeps := []
  requests := []
  deeds := []
  journal := ⟨.warning, [], none⟩

/-- The services of the host; a script has none. -/
def services (h : Host) : OrderedMap Text ServiceEntry :=
  match h.control with
  | .script _ => []
  | .table t => t.services

/-- The files with a log line behind the contents of a log file. A line that cannot be written is
left out. -/
def appendLine (files : FileTree) (file : Text) (line : LogLine) : FileTree :=
  match Utf8.encode (line.shown ++ text "\n") with
  | .error _ => files
  | .ok bytes => ((FileTree.append file bytes).run.run files).2

/-- The host with a line logged, if it matters enough. -/
def logged (h : Host) (level : LogLevel) (message : Text) : Host :=
  if level.rank < h.journal.threshold.rank then h
  else
    let line : LogLine := ⟨level, message⟩
    { h with
      journal := { h.journal with lines := h.journal.lines ++ [line] }
      files :=
        match h.journal.file with
        | none => h.files
        | some file => appendLine h.files file line }

/-- Logs a line. -/
def log (level : LogLevel) (message : Text) : HostStep Unit := modify (·.logged level message)

/-- A step on the files; its faults become failures of the area at hand. -/
def onFiles {α : Type} (area : FileFault → Failure) (step : FileStep α) : HostStep α := do
  let h ← get
  let (result, files) := step.run.run h.files
  set { h with files := files }
  match result with
  | .ok a => return a
  | .error fault => throw (Failure.ofFileFault area fault)

/-- A question about the files; its faults become failures of the area at hand. -/
def askFiles {α : Type} (area : FileFault → Failure) (question : FileTree → Except FileFault α) :
    HostStep α := onFiles area (FileTree.ask question)

/-- The host behind a command for the service control program. -/
def ran (h : Host) (program : Text) (words : List Text) : Host :=
  { h with
    control := (h.control.run words).2
    calls := h.calls ++ [program :: words]
    deeds := h.deeds ++ [.run (program :: words)] }

/-- Runs the service control program with some words. A command with a word that the system does not
take comes to `ProcessResult.broken`. -/
def runControl (program : Text) (words : List Text) : HostStep ProcessResult := do
  let h ← get
  set (h.ran program words)
  return (h.control.run words).1

/-- The host behind a pause. -/
def paused (h : Host) (length : Value) : Host :=
  { h with sleeps := h.sleeps ++ [length], deeds := h.deeds ++ [.pause length] }

/-- Makes a pause, unless the clock refuses its length. -/
def sleep (length : Value) : HostStep Unit := do
  let h ← get
  match h.clock.refusal? length with
  | some failure => throw failure
  | none => set (h.paused length)

/-- The host behind a request. -/
def requested (h : Host) (endpoint allowed : Value) : Host :=
  { h with
    responses := h.responses.tail
    requests := h.requests ++ [(endpoint, allowed)]
    deeds := h.deeds ++ [.request endpoint allowed] }

/-- Asks an endpoint. When the answers are used up, it cannot be reached. -/
def request (endpoint allowed : Value) : HostStep Response := do
  let h ← get
  set (h.requested endpoint allowed)
  return h.responses.headD (.unreachable (text "ConnectionError"))

end Host

end NodeBootstrap
