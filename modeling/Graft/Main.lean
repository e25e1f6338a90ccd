import Graft.Command.Run
import Graft.Yaml.Simple

/-
The program.

What the paths of a command line name is read from the disk, the command is carried out on what was
read, and what it printed and changed is printed and written.  There is no transport, so a model
that is asked over HTTP is out of reach.  Settings are read from simple documents.
-/
namespace Graft.Program

open Command

/-- What stands at an entry of a directory, with everything below it. -/
partial def treeOf (e : IO.FS.DirEntry) : IO Tree := do
  if ← e.path.isDir then
    let entries ← (← e.path.readDir).toList.mapM fun e =>
      return (e.fileName.toList, ← treeOf e)
    return .directory entries
  else
    return .file (← IO.FS.readBinFile e.path)

/-- Adds to a tree what stands on the way to a path, and at it; `whole` tells whether a directory at
its end is read with everything below it. -/
def addPath (directory : Location) (whole : Bool) (t : Tree) (path : Text) : IO Tree := do
  let rooted := path.head? = some '/'
  let segments := Path.named path
  let mut t := t
  for n in List.range (segments.length + 1) do
    let step := (if rooted then ['/'] else "./".toList) ++ Path.join (segments.take n)
    let place := Path.locate directory step
    let e : IO.FS.DirEntry := { root := ".", fileName := String.ofList step }
    if ← e.path.isDir then
      if whole && n = segments.length then t := t.put place (← treeOf e)
      else if !t.exists? place then t := t.put place .empty
    else if ← e.path.pathExists then
      t := t.put place (← treeOf e)
  return t

/-- The tree that a command works on. -/
def treeFor (directory : Location) (c : Command) : IO Tree := do
  let ofTarget (target : Target) (files : List Text) := do
    let t ← addPath directory true (Tree.empty.put directory .empty) target.root
    (files ++ [target.settings]).foldlM (addPath directory false) t
  match c with
  | .help => return .empty
  | .generate _ _ _ target => ofTarget target []
  | .integrate response target => ofTarget target [response]
  | .parse response =>
    addPath directory false (Tree.empty.put directory .empty) response

/-- Writes the files that are new or changed. -/
def save (before after : Tree) : IO Unit := do
  let old := before.files
  for f in after.files do
    unless old.contains f do
      IO.FS.createDirAll (String.ofList (Location.parent f.1).text)
      IO.FS.writeBinFile (String.ofList (Location.text f.1)) f.2

/-- Carries out a command line and gives the exit code. -/
def run (arguments : List Text) : IO UInt32 := do
  let directory := Path.locate [] (← IO.currentDir).toString.toList
  let disk ← match Command.ofArguments arguments with
    | .ok c => treeFor directory c
    | .error _ => pure Tree.empty
  let key := (← IO.getEnv "GEMINI_API_KEY").map String.toList
  let e := Session.answer { disk, directory, yaml := Yaml.simple none, key }
    (fun _ => .unreachable "no transport".toList) arguments
  save disk e.disk
  IO.print (String.ofList e.output)
  if e.status = .misused then
    for line in helpLines do IO.eprintln (String.ofList line)
  if let some f := e.fault then IO.eprintln (String.ofList f.message)
  return UInt32.ofNat e.status.code

end Graft.Program

def main (arguments : List String) : IO UInt32 := Graft.Program.run (arguments.map String.toList)
