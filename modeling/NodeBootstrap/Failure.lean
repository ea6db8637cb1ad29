import NodeBootstrap.DataUri
import NodeBootstrap.FileTree
import NodeBootstrap.Flag.ShellWords
import NodeBootstrap.Json.Document
import NodeBootstrap.KubeletConfig.Fault
import NodeBootstrap.Yaml.Fault

/-!
# Failures

Why an operation fails: one constructor for each area, with the cause in it. `Failure.message` gives
the words. The areas down to the settings are what an operation reports of its own accord, and every
operation that ends in one of them can be run again from the start once the cause is mended; the
others are misuses of values and texts that nothing has foreseen.
-/

set_option autoImplicit false

namespace NodeBootstrap

/-- A path that may not have been given, in messages. -/
def givenPath (path : Option Text) : Text := path.getD (text "None")

/-- A document that cannot be used. -/
inductive DocumentFault
  | unreadableIgnition (cause : Json.Unreadable)
  | ignitionNotAnObject
  | notAList (area key : Text)
  | invalidEntry (entry : Json)
  | noSource (path : Text)
  | unreadableCloudConfig (cause : Json.Unreadable)
  | cloudConfigNotAnObject (config : Json)

/-- An argument that cannot be used. -/
inductive ArgumentFault
  | invalidNodeIp (address : Text)
  | noIgnitionFile (path : Option Text)
  | noKubelet (path : Option Text)
  | unreadableIgnitionFile (path : Text) (cause : FileFault)
  | unsplittableCommand (cause : ShellWords.Fault)
  | noCloudConfigName (path : Text)

/-- A path to something that has to be there. -/
inductive PathFault
  /-- No path was given. -/
  | notGiven
  | inaccessible (path : Text) (cause : FileFault)
  /-- A file stands where a directory has to be, or the reverse. -/
  | wrongKind (path : Text)

/-- A copy that was not made. -/
inductive CopyFault
  | failed (source destination : Text) (cause : FileFault)
  | unreadablePlugins (path : Option Text) (cause : FileFault)
  | noPlugins (path : Option Text)
  | unwritable (path : Text) (cause : FileFault)

/-- Why a command was not executed. -/
inductive LaunchFault
  | timedOut (after : Value)
  | noProgram

/-- A service that cannot be controlled. -/
inductive ServiceFault
  | disconnected
  | notExecuted (command : List Text) (cause : LaunchFault)
  | failed (command : List Text) (code : Int) (output : Text)
  | noStartCommand (service : Text)
  | noState (service : Text)
  | stateNotReached (service state : Text)

/-- Settings that cannot be used. -/
inductive SettingsFault
  | unreadable (path : Text) (cause : FileFault)
  /-- The file is no document of settings; the grammar's complaint is not kept. -/
  | malformed (path : Text)
  | notAMapping (path : Text)
  | unknown (path : Text) (names : List Value)

/-- Why an operation fails. -/
inductive Failure
  | source (fault : DataUri.Fault)
  | transform (cause : Failure)
  | document (fault : DocumentFault)
  | kubeletConfig (fault : KubeletConfig.Fault)
  | argument (fault : ArgumentFault)
  | installDirectory (fault : PathFault)
  | cniPath (fault : PathFault)
  | cniConfig (fault : PathFault)
  | directoryCreation (path : Text) (forCni : Bool) (cause : FileFault)
  | copy (fault : CopyFault)
  | noService (service : Text)
  | service (fault : ServiceFault)
  | settings (fault : SettingsFault)
  /-- A settings file with a scalar that is no value of the kind it is written as. -/
  | settingsValue (fault : Yaml.Fault)
  /-- A value of a kind that was not foreseen. -/
  | kind (fault : KindFault)
  /-- A NUL in a path or an address. -/
  | nul
  /-- A failure of the environment that nothing handles. -/
  | environment
  /-- A text that cannot be written. -/
  | unencodable (fault : Encoding.EncodeFault)
  /-- A file that should be text and is none. -/
  | undecodable (fault : Encoding.DecodeFault)

/-- The name of a kind of JSON value in messages. -/
def Json.kindName : Json → Text
  | .null => text "NoneType"
  | .bool _ => text "bool"
  | .number l => if l.isWhole then text "int" else text "float"
  | .nan | .infinite _ => text "float"
  | .string _ => text "str"
  | .array _ => text "list"
  | .object _ => text "dict"

namespace DocumentFault

def message : DocumentFault → Text
  | .unreadableIgnition cause => text "could not parse ignition file: " ++ cause.message
  | .ignitionNotAnObject => text "ignition file must contain a JSON object"
  | .notAList area key => area ++ text "." ++ key ++ text " in ignition file must be a list"
  | .invalidEntry entry => text "invalid ignition file entry: " ++ (Value.ofJson entry).shown
  | .noSource path => text "ignition file entry " ++ path ++ text " has no contents source"
  | .unreadableCloudConfig cause => text "could not parse cloud config: " ++ cause.message
  | .cloudConfigNotAnObject config =>
    text "cloud config must be a JSON object, got " ++ config.kindName

end DocumentFault

namespace ArgumentFault

def message : ArgumentFault → Text
  | .invalidNodeIp address => text "invalid node IP address '" ++ address ++ text "'"
  | .noIgnitionFile path => text "ignition file " ++ givenPath path ++ text " is not a file"
  | .noKubelet path => text "kubelet binary " ++ givenPath path ++ text " is not a file"
  | .unreadableIgnitionFile path cause =>
    text "could not read ignition file " ++ path ++ text ": " ++ cause.message
  | .unsplittableCommand cause => text "could not split kubelet command line: " ++ cause.message
  | .noCloudConfigName path =>
    text "invalid cloud-config argument '--cloud-config=" ++ path ++
      text "', could not get cloud config filename"

end ArgumentFault

namespace PathFault

/-- The words for a path fault, from the name of the thing and the words for a wrong kind, which
stand before and behind the path. -/
def message (thing : Text) (wrongKind : Text × Text) : PathFault → Text
  | .notGiven =>
    text "error accessing " ++ thing ++
      text " None: stat: path should be string, bytes, os.PathLike or integer, not NoneType"
  | .inaccessible path cause =>
    text "error accessing " ++ thing ++ text " " ++ path ++ text ": " ++ cause.message
  | .wrongKind path => wrongKind.1 ++ path ++ wrongKind.2

end PathFault

namespace CopyFault

def message : CopyFault → Text
  | .failed source destination cause =>
    text "error copying " ++ source ++ text " to " ++ destination ++ text ": " ++ cause.message
  | .unreadablePlugins path cause =>
    text "error reading CNI path " ++ givenPath path ++ text ": " ++ cause.message
  | .noPlugins path => text "no files present in CNI path " ++ givenPath path
  | .unwritable path cause => text "could not write to " ++ path ++ text ": " ++ cause.message

end CopyFault

namespace ServiceFault

/-- A command as one text. -/
def commandText (command : List Text) : Text := Text.join (text " ") command

def message : ServiceFault → Text
  | .disconnected => text "service manager is disconnected"
  | .notExecuted command cause =>
    text "could not execute '" ++ commandText command ++ text "': " ++
      (match cause with
      | .timedOut after =>
        text "Command '" ++ (Value.list (command.map .text)).shown ++ text "' timed out after " ++
          after.display ++ text " seconds"
      | .noProgram =>
        PathRefusal.noEntry.message ++ text ": " ++ (command.headD []).quoted)
  | .failed command code output =>
    text "'" ++ commandText (command.take 3) ++ text "' failed with code " ++ Text.ofInt code ++
      text ": " ++ output
  | .noStartCommand service => text "could not find the start command of service " ++ service
  | .noState service => text "could not get the state of service " ++ service
  | .stateNotReached service state =>
    text "service " ++ service ++ text " did not reach state " ++ state

end ServiceFault

namespace SettingsFault

def message : SettingsFault → Text
  | .unreadable path cause =>
    text "could not load settings from " ++ path ++ text ": " ++ cause.message
  | .malformed path => text "could not load settings from " ++ path ++ text ": <yaml error>"
  | .notAMapping path => text "settings file " ++ path ++ text " must contain a mapping"
  | .unknown path names =>
    text "unknown settings in " ++ path ++ text ": " ++
      Text.join (text ", ") (names.map Value.display)

end SettingsFault

namespace Failure

/-- A fault of the writing or reading of files as a failure: what the host refuses is a failure of
the area at hand, what no host takes is none of it. -/
def ofFileFault (area : FileFault → Failure) : FileFault → Failure
  | .nul => .nul
  | .unencodable fault => .unencodable fault
  | fault => area fault

/-- A source that cannot be decoded. -/
def ofSourceFault : DataUri.Fault → Failure
  | .unencodable fault => .unencodable fault
  | fault => .source fault

/-- Whether a failure is one that an operation reports of its own accord. -/
def isReported : Failure → Bool
  | .source _ | .transform _ | .document _ | .kubeletConfig _ | .argument _ | .installDirectory _
  | .cniPath _ | .cniConfig _ | .directoryCreation .. | .copy _ | .noService _ | .service _
  | .settings _ => true
  | .settingsValue _ | .kind _ | .nul | .environment | .unencodable _ | .undecodable _ => false

def message : Failure → Text
  | .source fault => fault.message
  | .transform cause => text "could not translate file contents: " ++ cause.message
  | .document fault => fault.message
  | .kubeletConfig fault => fault.message
  | .argument fault => fault.message
  | .installDirectory fault =>
    fault.message (text "install directory") (text "install directory ", text " is not a directory")
  | .cniPath fault => fault.message (text "CNI path") (text "CNI path cannot be a file: ", [])
  | .cniConfig fault =>
    fault.message (text "CNI config") (text "CNI config cannot be a directory: ", [])
  | .directoryCreation path forCni cause =>
    text "error creating " ++ (if forCni then text "CNI " else []) ++ text "directory " ++ path ++
      text ": " ++ cause.message
  | .copy fault => fault.message
  | .noService name => name ++ text " service is not present"
  | .service fault => fault.message
  | .settings fault => fault.message
  | .settingsValue _ => text "a settings file holds a value that does not exist"
  | .kind .unusable => text "a value of this kind cannot be used here"
  | .kind .noSuchPart => text "a value of this kind has no such part"
  | .nul => text "embedded null byte"
  | .environment => text "the environment failed"
  | .unencodable fault => fault.message
  | .undecodable fault => fault.message

end Failure

end NodeBootstrap
