import MarkedEdits.CommandLine.Run

/-!
# What a command looks at

A command looks at few of the files around it: at the root, at the patch sets, and at the files that
the sets aim at. Which sets there are can be told once the root is known, and which files they aim
at once the sets are.
-/

namespace MarkedEdits

namespace CommandLine

/-- Something that a command looks at: the file or directory at a path, or all patch sets of a
directory. -/
inductive Sight where
  | place (path : Text)
  | sets (directory : Text)
  deriving DecidableEq, Repr

/-- The files that the sets aim at, for the sets that can be loaded from what is known. -/
def targets (env : Environment) (fs : FileSystem) (root : Path) (request : Request) : List Sight :=
  match findSets env fs root (request.get? .patches) >>= loadSets env fs with
  | .error _ => []
  | .ok sets => sets.flatMap fun loaded ↦
      loaded.set.files.map fun (file, _) ↦ .place (PathText.join root.render file)

/-- All that the command looks at, as far as it can be told from what is known of the files. -/
def sights (env : Environment) (fs : FileSystem) (request : Request) : List Sight :=
  let asked := (request.get? .root).toList ++ env.root.toList
  let places := Path.render env.here :: asked
  match findRoot env fs (request.get? .root) with
  | .error _ => places.map .place
  | .ok (root, _) =>
      let sets :=
        match request.get? .patches with
        | some path => [.place path]
        | none => [.sets (beside root), .sets (beside env.here)]
      places.map .place ++ sets ++ targets env fs root request

end CommandLine

end MarkedEdits
