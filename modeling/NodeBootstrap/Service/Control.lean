import NodeBootstrap.OrderedMap
import NodeBootstrap.Text.Basic

/-!
# The service control program

Services are controlled by running a program, `sc.exe`. What a run of it comes to is a
`ProcessResult`. Where the results come from is a `ServiceControl`: a script of results, one for
each run, or a table of services that the commands act on.

The table knows the seven verbs that are used. A fault set for a verb answers in its place and
changes nothing; a single run may also come to something else for reasons outside the table. After a
start or a stop the next queries, as many as `pending` says, report that the service is on its way.

Before a program runs, the system takes the words of its command, and some words it does not take:
`Launch.takes` says which. Such a command breaks off and no program runs.
-/

set_option autoImplicit false

namespace NodeBootstrap

/-- How the words of a command get to the program. -/
inductive Launch
  /-- A stand-in for the system takes all words. -/
  | standIn
  /-- Each word is written as bytes that end at a NUL. -/
  | bytes
  /-- The words are one line of UTF-16 that ends at a NUL. Halves of surrogate pairs go through. -/
  | wide
  deriving DecidableEq, Repr

/-- Whether a code point can stand in a word. -/
def Launch.passes : Launch → CodePoint → Bool
  | .standIn, _ => true
  | .bytes, c => c.isSpellable
  | .wide, c => c ≠ .char '\x00'

/-- Whether a word can be one of a command. -/
def Launch.takes (launch : Launch) (word : Text) : Bool := word.all launch.passes

/-- What a run of a program comes to. -/
inductive ProcessResult
  | finished (code : Int) (output : Text)
  | timedOut
  | noProgram
  /-- The run broke off, or was not begun, for a reason that nobody handles. -/
  | broken
  deriving DecidableEq, Repr

/-- A service of the table. -/
structure ServiceEntry where
  command : Text
  state : Text
  displayName : Text
  description : Text
  deriving DecidableEq, Repr

/-- The services of a host and what is still to come of the last start or stop. -/
structure ServiceTable where
  services : OrderedMap Text ServiceEntry
  /-- Verbs that answer with a code and an output of their own. -/
  faults : OrderedMap Text (Int × Text)
  /-- How many queries report a state that is still to be reached. -/
  pending : Nat
  /-- How many of them are left. -/
  pendingLeft : Nat
  /-- What the next commands come to instead, one entry for each; the table answers where there is
  none and behind the last. -/
  troubles : List (Option ProcessResult) := []
  /-- How the words of a command get to the table. -/
  launch : Launch := .standIn
  deriving DecidableEq, Repr

namespace ServiceState

def running : Text := text "RUNNING"

def stopped : Text := text "STOPPED"

/-- The state that a service reports on its way to another. -/
def onTheWay (state : Text) : Text :=
  if state = running then text "START_PENDING"
  else if state = stopped then text "STOP_PENDING"
  else state

end ServiceState

namespace ServiceTable

/-- No services. -/
def empty : ServiceTable := ⟨[], [], 0, 0, [], .standIn⟩

/-- The answer to a command that did what it was to do. -/
def success : ProcessResult := .finished 0 (text "[SC] SUCCESS\r\n")

/-- The table with a service changed. -/
def update (t : ServiceTable) (name : Text) (entry : ServiceEntry) : ServiceTable :=
  { t with services := t.services.set name entry }

/-- The config of a service as it is printed. -/
def configText (name command : Text) : Text :=
  text "[SC] QueryServiceConfig SUCCESS\n\nSERVICE_NAME: " ++ name ++
    text "\n        BINARY_PATH_NAME   : " ++ command ++ text "\n        LOAD_ORDER_GROUP   :\n"

/-- The state of a service as it is printed. -/
def stateText (name state : Text) : Text :=
  text "SERVICE_NAME: " ++ name ++ text "\n        STATE              : 4  " ++ state ++ text "\n"

/-- A service brought to a state, or the code for one that is there already. -/
def bring (t : ServiceTable) (name : Text) (entry : ServiceEntry) (state : Text) (already : Int) :
    ProcessResult × ServiceTable :=
  if entry.state = state then (.finished already (text "[SC] FAILED\r\n"), t)
  else (success, { t.update name { entry with state := state } with pendingLeft := t.pending })

/-- A verb on a service that exists. -/
def act (t : ServiceTable) (verb name : Text) (entry : ServiceEntry) (arguments : List Text) :
    ProcessResult × ServiceTable :=
  if verb = text "qc" then (.finished 0 (configText name entry.command), t)
  else if verb = text "query" then
    if 0 < t.pendingLeft then
      (.finished 0 (stateText name (ServiceState.onTheWay entry.state)),
        { t with pendingLeft := t.pendingLeft - 1 })
    else (.finished 0 (stateText name entry.state), t)
  else if verb = text "config" then
    (success, t.update name { entry with command := (arguments[1]?).getD [] })
  else if verb = text "description" then
    (success, t.update name { entry with description := arguments.headD [] })
  else if verb = text "start" then t.bring name entry ServiceState.running 1056
  else if verb = text "stop" then t.bring name entry ServiceState.stopped 1062
  else (success, t)

/-- A new service, from its command and its display name; the code for one that exists otherwise. -/
def create (t : ServiceTable) (name : Text) (arguments : List Text) :
    ProcessResult × ServiceTable :=
  if t.services.hasKey name then
    (.finished 1073 (text "[SC] CreateService FAILED 1073:\r\n"), t)
  else
    (.finished 0 (text "[SC] CreateService SUCCESS\r\n"),
      t.update name
        ⟨(arguments[1]?).getD [], ServiceState.stopped, (arguments[5]?).getD [], []⟩)

/-- The answer of the table to a command: a verb, the name of a service and what follows. -/
def answer (t : ServiceTable) (verb name : Text) (arguments : List Text) :
    ProcessResult × ServiceTable :=
  match t.faults.get? verb with
  | some (code, output) => (.finished code output, t)
  | none =>
    if verb = text "create" then t.create name arguments
    else
      match t.services.get? name with
      | none => (.finished 1060 (text "[SC] " ++ verb ++ text " FAILED 1060:\r\n"), t)
      | some entry => t.act verb name entry arguments

/-- Whether all words of a command are taken. -/
def takes (t : ServiceTable) (words : List Text) : Bool := words.all t.launch.takes

/-- A run of a command on the table. One that comes to something else changes nothing. -/
def perform (t : ServiceTable) (verb name : Text) (arguments : List Text) :
    ProcessResult × ServiceTable :=
  match t.troubles with
  | [] => t.answer verb name arguments
  | none :: troubles => { t with troubles := troubles }.answer verb name arguments
  | some result :: troubles => (result, { t with troubles := troubles })

/-- A command on the table, which is run if all its words are taken. -/
def run (t : ServiceTable) (verb name : Text) (arguments : List Text) :
    ProcessResult × ServiceTable :=
  if t.takes (verb :: name :: arguments) then t.perform verb name arguments
  else (.broken, { t with troubles := t.troubles.tail })

end ServiceTable

/-- Where the results of runs come from. -/
inductive ServiceControl
  /-- One result for each command, whatever its words are; when they are used up, commands succeed
  and print nothing. -/
  | script (results : List ProcessResult)
  /-- A table of services. -/
  | table (t : ServiceTable)
  deriving DecidableEq, Repr

namespace ServiceControl

/-- How the words of a command get to the program. A script asks for none. -/
def launch : ServiceControl → Launch
  | .script _ => .standIn
  | .table t => t.launch

/-- One run, from the words behind the name of the program. -/
def run (control : ServiceControl) (words : List Text) : ProcessResult × ServiceControl :=
  match control with
  | .script [] => (.finished 0 [], .script [])
  | .script (result :: results) => (result, .script results)
  | .table t =>
    match words with
    | verb :: name :: arguments =>
      let (result, t) := t.run verb name arguments
      (result, .table t)
    | _ => (.finished 0 [], .table t)

end ServiceControl

end NodeBootstrap
