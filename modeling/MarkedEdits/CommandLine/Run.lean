import MarkedEdits.CommandLine.Arguments
import MarkedEdits.CommandLine.Report

/-!
# Commands

A command finds the root of the tree and the patch sets, carries the sets out one after the other
and reports on every file. It ends with the code one when it fails on some file or cannot be carried
out, with the code two when its arguments are refused, and otherwise with the code zero.
-/

namespace MarkedEdits

namespace CommandLine

/-- What a command finds around it: the directory in which it is run, the root that is set there,
and whether its output is in colour. -/
structure Environment where
  here : Path
  root : Option Text := none
  palette : Palette := ⟨false⟩

/-- How a command ends: its code, what it has printed, and the files that it leaves. -/
structure Ending where
  code : Nat
  output : Output
  fs : FileSystem

/-- The name of the variable that holds the root. -/
def rootVariable : String := "MARKER_PATCHER_ROOT"

/-- The name and version of the program. -/
def versionLine : String := "marker-patcher 0.1.0"

/-- How the program is called. -/
def usage : Text :=
  "\n".intercalate
    ["Usage: marker-patcher [OPTIONS] <COMMAND>",
      "",
      "Commands:",
      "  apply   Apply patch sets to the files under the root",
      "  revert  Remove every line a patch set's namespace added and reactivate the lines it disabled",
      "  check   Plan patch sets without writing and report matches per patch",
      "  list    List patch sets, their namespaces and target files",
      "",
      "Options:",
      "  -v, --verbose  Enable debug logging",
      "  -h, --help     Print help",
      "  -V, --version  Print version"] |>.toList

/-- The root of the tree: the one asked for, or else the one set in the environment if it exists, or
else the directory in which the command is run. -/
def findRoot (env : Environment) (fs : FileSystem) (asked : Option Text) :
    Except Failure (Path × Output) :=
  match asked with
  | some path =>
      ((fs.resolve env.here path).mapError .system).map (·, {})
  | none =>
      match env.root with
      | none => .ok (env.here, {})
      | some path =>
          match fs.locate env.here path with
          | .ok _ => ((fs.resolve env.here path).mapError .system).map (·, {})
          | .error _ =>
              let warning :=
                s!"Warning: {rootVariable} is set but path doesn't exist: ".toList ++ path
              .ok (env.here, .note (env.palette.ink .yellow warning))

/-- The path leads to a directory. -/
def leadsToDirectory (fs : FileSystem) (here : Path) (path : Text) : Bool :=
  match fs.locate here path with
  | .ok target => fs.isDirectory target
  | .error _ => false

/-- The patch sets in the first of the directories that has some. -/
def firstSets (fs : FileSystem) (here : Path) : List Text → Except Failure (List Text)
  | [] => .ok []
  | directory :: rest =>
      if leadsToDirectory fs here directory then
        match PatchSet.discover fs here directory with
        | .error error => .error (.load error)
        | .ok [] => firstSets fs here rest
        | .ok files => .ok files
      else firstSets fs here rest

/-- The path of the directory in another one that is for patch sets. -/
def beside (directory : Path) : Text :=
  PathText.join directory.render "patches".toList

/-- The paths of the patch sets: the one asked for, or those beside the tree, or those in the
directory in which the command is run. -/
def findSets (env : Environment) (fs : FileSystem) (root : Path) (asked : Option Text) :
    Except Failure (List Text) :=
  match asked with
  | some path => .ok [path]
  | none => do
      match ← firstSets fs env.here [beside root, beside env.here] with
      | [] => throw (.noSets root)
      | files => return files

/-- The patch sets at the paths. -/
def loadSets (env : Environment) (fs : FileSystem) (paths : List Text) :
    Except Failure (List LoadedSet) :=
  paths.mapM fun path ↦
    match PatchSet.ofFile fs env.here path with
    | .ok set => .ok ⟨path, set⟩
    | .error error => .error (.load error)

/-- The workspace at the root of the tree. -/
def openCheckout (fs : FileSystem) (root : Path) : Except Failure Checkout :=
  match Workspace.at? fs [] root.render with
  | .ok workspace => .ok ⟨fs, workspace⟩
  | .error cause => .error (.store cause)

/-- Applies the sets and reports on it. -/
def applyAndReport (palette : Palette) (checkout : Checkout) (sets : List LoadedSet)
    (request : Request) : Ending :=
  let version := request.get? .targetVersion
  let dryRun := request.has .dryRun
  let (results, final) := Batch.apply sets checkout version dryRun
  let target := (version.map fun version ↦
    Output.line ("Target version: ".toList ++ version)).getD {}
  let note :=
    if dryRun then
      Output.line (palette.ink .cyan "  [DRY RUN - showing what would be applied]".toList)
    else {}
  { code := Batch.code Batch.hasFailed results
    output := .line ("Root: ".toList ++ checkout.workspace.root.render) ++ target ++ .line [] ++
      .concat (results.map (setReport palette "Applying" note (request.has .diff))) ++
      (Tally.ofResults results).report palette (if dryRun then "would change" else "changed")
    fs := final.fs }

/-- Reverts the sets and reports on it. -/
def revertAndReport (palette : Palette) (checkout : Checkout) (sets : List LoadedSet)
    (request : Request) : Ending :=
  let dryRun := request.has .dryRun
  let (results, final) := Batch.revert sets checkout dryRun
  { code := Batch.code Batch.hasFailed results
    output := .line ("Root: ".toList ++ checkout.workspace.root.render) ++ .line [] ++
      .concat (results.map (setReport palette "Reverting" {} false)) ++
      (Tally.ofResults results).report palette (if dryRun then "would revert" else "reverted")
    fs := final.fs }

/-- Checks the sets and reports on it. -/
def checkAndReport (palette : Palette) (checkout : Checkout) (sets : List LoadedSet)
    (request : Request) : Ending :=
  let (results, final) := Batch.check sets checkout (request.get? .targetVersion)
  let output :=
    if request.has .json then Output.line ((Json.Value.array (results.map setJson)).render 0)
    else
      .line (palette.bold "Patch Check Report".toList) ++
        .line ("Root: ".toList ++ checkout.workspace.root.render) ++ .line [] ++
        .concat (results.map (checkedSet palette))
  { code := Batch.code Batch.wouldFail results, output, fs := final.fs }

/-- Carries out the command at a root. -/
def carryOutAt (env : Environment) (fs : FileSystem) (root : Path) (request : Request) :
    Except Failure Ending := do
  let sets ← loadSets env fs (← findSets env fs root (request.get? .patches))
  match request.verb with
  | .apply => return applyAndReport env.palette (← openCheckout fs root) sets request
  | .revert => return revertAndReport env.palette (← openCheckout fs root) sets request
  | .check => return checkAndReport env.palette (← openCheckout fs root) sets request
  | .list => return { code := 0, output := .concat (sets.map (listing env.palette)), fs }

/-- The ending of a command that cannot be carried out. -/
def failed (fs : FileSystem) (output : Output) (failure : Failure) : Ending :=
  ⟨1, output ++ .note failure.report.toList, fs⟩

/-- Carries out the command. -/
def carryOut (env : Environment) (fs : FileSystem) (request : Request) : Ending :=
  match findRoot env fs (request.get? .root) with
  | .error failure => failed fs {} failure
  | .ok (root, output) =>
      match carryOutAt env fs root request with
      | .error failure => failed fs output failure
      | .ok ending => { ending with output := output ++ ending.output }

/-- Carries out the command that the arguments ask for. -/
def run (env : Environment) (fs : FileSystem) (arguments : List Text) : Ending :=
  match Request.ofArguments arguments with
  | .ok request => carryOut env fs request
  | .error .version => ⟨0, .line versionLine.toList, fs⟩
  | .error .help => ⟨0, .line usage, fs⟩
  | .error (.refused .noCommand) => ⟨2, .note usage, fs⟩
  | .error (.refused reason) =>
      ⟨2, .note s!"error: {reason.message}".toList ++ .note [] ++ .note usage, fs⟩

end CommandLine

end MarkedEdits
