import MarkedEdits.CommandLine.Survey

/-!
# The program

The program takes note of what its command looks at, carries the command out on these notes, and
then writes the files that have changed and prints the output.
-/

namespace MarkedEdits

namespace CommandLine

/-- The resolved path that a text stands for. -/
def pathOfText (t : Text) : Path :=
  (Text.splitOn '/' t).filter (· ≠ [])

/-- Takes note of what is at the segments of a path, from a resolved path on. -/
partial def observe (fs : FileSystem) (here : Path) : List Text → IO FileSystem
  | [] => return fs
  | segment :: rest => do
      if segment = [] ∨ segment = ['.'] then observe fs here rest
      else if segment = ['.', '.'] then observe fs here.dropLast rest
      else
        let path := here ++ [segment]
        match ← (IO.FS.realPath (String.ofList path.render)).toBaseIO with
        | .error _ => return fs
        | .ok real =>
            let target := pathOfText real.toString.toList
            if target ≠ path then observe (fs.put path (.link target.render)) [] (target ++ rest)
            else if ← real.isDir then observe (fs.put path (.directory 0o755)) path rest
            else return fs.put path (.file (← IO.FS.readBinFile real) 0o644)

/-- Takes note of what is at a path, which is taken from the directory of the command. -/
def observePath (env : Environment) (fs : FileSystem) (path : Text) : IO FileSystem :=
  observe fs (if PathText.isAbsolute path then [] else env.here) (Text.splitOn '/' path)

/-- Takes note of something that the command looks at. -/
def observeSight (env : Environment) (fs : FileSystem) : Sight → IO FileSystem
  | .place path => observePath env fs path
  | .sets directory => do
      let fs ← observePath env fs directory
      match fs.locate env.here directory with
      | .error _ => return fs
      | .ok target =>
          if fs.isDirectory target then
            let real ← IO.FS.realPath (String.ofList target.render)
            let names := (← real.readDir).toList.map (·.fileName.toList)
            let named := names.filter (PathText.extension? · = some "toml".toList)
            named.foldlM (fun fs name ↦ observe fs target [name]) fs
          else return fs

/-- Takes note of all that the command looks at: the root, then the sets, then their files. -/
def observeAll (env : Environment) (request : Request) : IO FileSystem :=
  [(), (), ()].foldlM (fun fs _ ↦ (sights env fs request).foldlM (observeSight env) fs) {}

/-- Writes the files that are not as they were. -/
def writeChanged (before after : FileSystem) : IO Unit :=
  after.entries.forM fun (path, node) ↦
    match node with
    | .file content _ =>
        if before.lookup path = some node then pure ()
        else IO.FS.writeBinFile (String.ofList path.render) content
    | _ => pure ()

/-- Output is in colour if that is forced or if it goes to a terminal and is not ruled out. -/
def findPalette : IO Palette := do
  let isForced := (← IO.getEnv "CLICOLOR_FORCE").any (· ≠ "0")
  let isRuledOut := (← IO.getEnv "NO_COLOR").isSome || (← IO.getEnv "CLICOLOR") == some "0"
  return ⟨isForced || (!isRuledOut && (← (← IO.getStdout).isTty))⟩

end CommandLine

end MarkedEdits

open MarkedEdits CommandLine in
/-- Carries out the command that the arguments ask for and returns its code. -/
def main (arguments : List String) : IO UInt32 := do
  let here ← IO.FS.realPath (← IO.currentDir)
  let env : Environment :=
    { here := pathOfText here.toString.toList
      root := (← IO.getEnv rootVariable).map (·.toList)
      palette := ← findPalette }
  let arguments := arguments.map (·.toList)
  let fs ←
    match Request.ofArguments arguments with
    | .ok request => observeAll env request
    | .error _ => pure {}
  let ending := run env fs arguments
  writeChanged fs ending.fs
  IO.print (String.ofList ending.output.out)
  IO.eprint (String.ofList ending.output.err)
  return ending.code.toUInt32
