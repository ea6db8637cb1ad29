import NodeBootstrap.Program

/-!
# The command line program

Reads the working directory into a host, carries the command line out on it, and writes back what
the run changed there. The log lines go to the standard error stream.

The services of this host are a table that begins empty, and no endpoint answers: the program
prepares the files of a node and shows what a run does, and leaves the services of the machine
alone.
-/

set_option autoImplicit false

namespace NodeBootstrap.Main

/-- The files and directories among some entries and below them, each with the names on the way to
it. Nothing is read below a depth. -/
def readNodes : Nat → List String → List IO.FS.DirEntry → IO (List (List String × FileNode))
  | 0, _, _ => return []
  | depth + 1, above, entries => do
    let mut nodes := []
    for entry in entries do
      let place := above ++ [entry.fileName]
      if ← entry.path.isDir then
        let below ← readNodes depth place (← entry.path.readDir).toList
        nodes := nodes ++ (place, .directory) :: below
      else
        let contents ← IO.FS.readBinFile entry.path
        nodes := nodes ++ [(place, .file contents.toList)]
    return nodes

/-- How deep the working directory is read. -/
def depthLimit : Nat := 64

/-- The tree of the working directory. -/
def readTree : IO FileTree := do
  let nodes ← readNodes depthLimit [] (← (← IO.currentDir).readDir).toList
  return ⟨nodes.map fun (place, node) => (place.map text, node), []⟩

/-- Writes what differs between two trees of the working directory. -/
def writeChanges (before after : FileTree) : IO Unit := do
  for (path, node) in after.listing do
    if !before.listing.contains (path, node) then
      match Text.toString? path, node with
      | some name, .directory => IO.FS.createDirAll name
      | some name, .file contents => IO.FS.writeBinFile name ⟨contents.toArray⟩
      | none, _ => pure ()

/-- Writes log lines to the standard error stream. -/
def writeLines (lines : List LogLine) : IO Unit := do
  for line in lines do
    IO.eprintln ((Text.toString? line.shown).getD "")

/-- What is said about a command line that is not carried out. -/
def usage : String := "\n".intercalate [
  "usage: wmcb [-h] [--settings FILE] [--install-dir DIRECTORY] [--debug] COMMAND",
  "",
  "  initialize-kubelet --ignition-file FILE --kubelet-path FILE [--node-ip ADDRESS]",
  "                     [--wait-for-kubelet]",
  "  configure-cni --cni-path DIRECTORY --cni-config FILE [--wait-for-kubelet]"]

end NodeBootstrap.Main

open NodeBootstrap NodeBootstrap.Main

/-- One run in the working directory. -/
def main (arguments : List String) : IO UInt32 := do
  match CommandLine.parse (arguments.map text) with
  | .error refusal =>
    if refusal = .help then IO.println usage else IO.eprintln usage
    return refusal.status.toUInt32
  | .ok invocation =>
    let files ← readTree
    let (result, host) := (Program.run invocation).run.run { Host.empty with files := files }
    writeLines host.journal.lines
    writeChanges files host.files
    match result with
    | .ok status => return status.toUInt32
    | .error failure =>
      IO.eprintln ((Text.toString? failure.message).getD "")
      return 1
