import StyleGuide.CommandLine.Inputs
import StyleGuide.CommandLine.Run

/-!
# The program

Brings the part of the disk that a command looks at into a file tree, runs the command on it,
and writes the files that changed.
-/

namespace StyleGuide.Main

open CommandLine

def place (path : String) : Location := (Path.ofString path).normalize []

/-- Add what is at a place to a tree, and all below it. The bytes of files are left out. -/
partial def survey (tree : FileTree) (l : Location) : IO FileTree := do
  let path := (← IO.currentDir) / l.text
  if ← path.isDir then
    let mut tree := tree.makeParents l
    for entry in ← path.readDir do
      tree ← survey tree (l ++ [entry.fileName])
    return tree
  else if ← path.pathExists then return tree.write l []
  else return tree

def fill (ws : Workspace) (p : Path) : IO Workspace := do
  match ws.tree.find ws.cwd p.text with
  | .ok (l, .file _) =>
    let bytes ← IO.FS.readBinFile l.text
    return { ws with tree := ws.tree.put l (.file bytes.toList) }
  | _ => return ws

/-- Write the files that are new or differ. -/
def store (before after : FileTree) : IO Unit := do
  for (l, node) in after.entries do
    if before.lookup? l ≠ some node then
      match node with
      | .dir => IO.FS.createDirAll l.text
      | .file bytes => IO.FS.writeBinFile l.text ⟨bytes.toArray⟩

def workspace (cwd home : Location) (c : Command) : IO Workspace := do
  let tree ← (c.places cwd home).foldlM survey {}
  let ws : Workspace := { tree, cwd, home }
  (c.reads ws).foldlM fill ws

end StyleGuide.Main

open StyleGuide CommandLine in
def main (args : List String) : IO UInt32 := do
  match parse args with
  | none =>
    IO.eprintln "Usage: [--verbose] build|blocks [OPTIONS] [PATTERNS]..."
    return 2
  | some invocation =>
    let cwd := Main.place (← IO.currentDir).toString
    let home := Main.place ((← IO.getEnv "HOME").getD "/")
    let ws ← Main.workspace cwd home invocation.command
    let result := invocation.command.run ws
    IO.eprint (report invocation.verbose result.events)
    IO.print result.stdout
    Main.store ws.tree result.tree
    if let some fault := result.fault then
      IO.eprintln (fault.message?.getD "file operation failed")
    return result.exit.toUInt32
