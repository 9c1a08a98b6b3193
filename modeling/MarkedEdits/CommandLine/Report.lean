import MarkedEdits.CommandLine.Output
import MarkedEdits.Json
import MarkedEdits.LineDiff.Changes
import MarkedEdits.PatchSet.Batch

/-!
# Reports

The reports of the commands: what was done to each file with the changes to its lines, the tally at
the end of a run, and the state of each file with the matches of its patches, in words or as JSON.
-/

namespace MarkedEdits

namespace CommandLine

open Terminal

/-- Whether reports are in colour. -/
structure Palette where
  colored : Bool
  deriving DecidableEq, Repr

namespace Palette

/-- The text in a colour. -/
def ink (palette : Palette) (color : Color) (t : Text) : Text :=
  paint palette.colored { color := some color } t

/-- The text in bold and a colour. -/
def stamp (palette : Palette) (color : Color) (t : Text) : Text :=
  paint palette.colored { bold := true, color := some color } t

/-- The text in bold. -/
def bold (palette : Palette) (t : Text) : Text :=
  paint palette.colored { bold := true } t

/-- The text dimmed. -/
def dim (palette : Palette) (t : Text) : Text :=
  paint palette.colored { dim := true } t

end Palette

/-- A changed line after its sign. A line without an end is followed by two newlines, the first of
which belongs to the line. -/
def changeText (palette : Palette) (change : LineDiff.Change) : Text :=
  let isEnded := LineDiff.isEnded change.row
  let row := if isEnded then change.row else change.row ++ ['\n']
  let shown :=
    match change.kind with
    | .delete => palette.ink .red ('-' :: row)
    | .insert => palette.ink .green ('+' :: row)
    | .keep => ' ' :: row
  if isEnded then shown else shown ++ ['\n']

/-- The changed lines of a file with three lines of context. -/
def diff (palette : Palette) (file former updated : Text) : Output :=
  let shown := LineDiff.context 3 (LineDiff.changes former updated)
  Output.line [] ++
    .line (palette.dim ("--- ".toList ++ file ++ " (original)".toList)) ++
    .line (palette.dim ("+++ ".toList ++ file ++ " (patched)".toList)) ++
    ⟨shown.flatMap (changeText palette), []⟩

/-- Advice on the failures that are met most often. -/
def advice (palette : Palette) : EditError → Output
  | .noMatch _ _ =>
      .note ("  ".toList ++ palette.ink .red "CONFLICT: anchors matched no location".toList) ++
        .note "  Possible causes:".toList ++
        .note "    - The anchored code was changed or removed".toList ++
        .note "    - The patch set targets a different version".toList
  | .multipleMatches _ _ =>
      .note ("  ".toList ++ palette.ink .red "CONFLICT: anchors matched several locations".toList) ++
        .note "  Action: add anchors to narrow the match, or set allow_multiple".toList
  | .foreignMarkers _ _ =>
      .note ("  ".toList ++
          palette.ink .red "BLOCKED: another namespace has patched this file".toList) ++
        .note "  Action: revert the other patch set first".toList
  | _ => {}

/-- What a run did to a file. -/
def fileReport (palette : Palette) (showDiff : Bool) (file : Text) :
    Except TargetError FileResult → Output
  | .ok (.applied former updated) =>
      .line (palette.ink .green ['✓'] ++ " Updated ".toList ++ file) ++
        if showDiff then diff palette file former updated else {}
  | .ok (.wouldApply former updated) =>
      .line (palette.ink .green ['✓'] ++ " Would update ".toList ++ file) ++
        if showDiff then diff palette file former updated else {}
  | .ok .unchanged =>
      .line (palette.ink .yellow ['⊙'] ++ ' ' :: file ++ ": already up to date".toList)
  | .ok (.skipped reason) =>
      .line (palette.ink .cyan ['⊘'] ++ ' ' :: file ++ s!": Skipped ({reason})".toList)
  | .error error =>
      .note (palette.ink .red ['✗'] ++ ' ' :: file ++ s!": Error - {error.message}".toList) ++
        match error with
        | .edit _ _ cause => advice palette cause
        | _ => {}

/-- What a run did to the files of a set, below a heading and a note. -/
def setReport (palette : Palette) (doing : String) (note : Output) (showDiff : Bool)
    (results : SetResults FileResult) : Output :=
  .line (s!"{doing} ".toList ++ results.path ++ " (namespace ".toList ++
      palette.bold results.owner ++ ")...".toList) ++
    note ++
    .concat (results.files.map fun (file, result) ↦ fileReport palette showDiff file result) ++
    .line []

/-- How many files a run has changed, left as they were, skipped and failed on. -/
structure Tally where
  changed : Nat := 0
  unchanged : Nat := 0
  skipped : Nat := 0
  failed : Nat := 0
  deriving DecidableEq, Repr

namespace Tally

/-- The tally with one more file. -/
def count (tally : Tally) : Except TargetError FileResult → Tally
  | .ok (.applied _ _) | .ok (.wouldApply _ _) => { tally with changed := tally.changed + 1 }
  | .ok .unchanged => { tally with unchanged := tally.unchanged + 1 }
  | .ok (.skipped _) => { tally with skipped := tally.skipped + 1 }
  | .error _ => { tally with failed := tally.failed + 1 }

/-- The tally of all files of the sets. -/
def ofResults (results : List (SetResults FileResult)) : Tally :=
  (results.flatMap (·.files)).foldl (fun tally (_, result) ↦ tally.count result) {}

/-- A number of the tally. -/
def row (palette : Palette) (color : Color) (n : Nat) (label : String) : Output :=
  .line ("  ".toList ++ palette.ink color n.repr.toList ++ s!" {label}".toList)

/-- The tally below its heading. -/
def report (palette : Palette) (changedLabel : String) (tally : Tally) : Output :=
  .line (palette.bold "Summary:".toList) ++
    row palette .green tally.changed changedLabel ++
    row palette .yellow tally.unchanged "unchanged" ++
    row palette .cyan tally.skipped "skipped" ++
    row palette .red tally.failed "failed"

end Tally

/-- The line numbers with commas between them. -/
def lineNumbers (lines : List Nat) : Text :=
  (", ".intercalate (lines.map Nat.repr)).toList

/-- The name of the state in its colour. -/
def statusText (palette : Palette) : CheckStatus → Text
  | .applied => palette.stamp .green "APPLIED".toList
  | .pending => palette.stamp .yellow "PENDING".toList
  | .failing => palette.stamp .red "FAILING".toList
  | .skipped => palette.stamp .cyan "SKIPPED".toList

/-- What a patch matches, or what is wrong with it. -/
def patchText (palette : Palette) (patch : PatchReport) : Text :=
  let found :=
    match patch.error, patch.lines with
    | some error, _ => palette.ink .red error.shortMessage.toList
    | none, [] => palette.dim "no match".toList
    | none, lines => "line ".toList ++ lineNumbers lines
  "    - ".toList ++ patch.label ++ ": ".toList ++ found

/-- The state of a file and its patches. -/
def checkedFile (palette : Palette) (file : Text) : Except TargetError FileReport → Output
  | .error error =>
      .line ("  ".toList ++ palette.stamp .red "ERROR".toList ++ ' ' :: file ++
        s!": {error.message}".toList)
  | .ok report =>
      .line ("  ".toList ++ statusText palette report.status ++ ' ' :: file) ++
        .concat (report.patches.map fun patch ↦ .line (patchText palette patch)) ++
        (if report.foreignLines = [] then {}
          else
            .line ("    ".toList ++ palette.ink .yellow "foreign markers at line".toList ++
              ' ' :: lineNumbers report.foreignLines)) ++
        match report.error with
        | some error => .line ("    ".toList ++ palette.dim error.toList)
        | none => {}

/-- The states of the files of a set. -/
def checkedSet (palette : Palette) (results : SetResults FileReport) : Output :=
  .line (results.path ++ " (namespace ".toList ++ palette.bold results.owner ++ [')']) ++
    .concat (results.files.map fun (file, result) ↦ checkedFile palette file result) ++
    .line []

/-- The member for an error, if there is one. -/
def errorMember (error : Option String) : List (Text × Json.Value) :=
  (error.map fun error ↦ ("error".toList, Json.Value.string error.toList)).toList

/-- The report on a patch as JSON. -/
def patchJson (patch : PatchReport) : Json.Value :=
  .object ([("patch".toList, .string patch.label),
    ("lines".toList, .array (patch.lines.map .number))] ++
      errorMember (patch.error.map (·.shortMessage)))

/-- The report on a file as JSON. -/
def fileJson (file : Text) : Except TargetError FileReport → Json.Value
  | .ok report =>
      .object ([("file".toList, .string file),
        ("status".toList, .string report.status.name.toList),
        ("patches".toList, .array (report.patches.map patchJson)),
        ("foreign_lines".toList, .array (report.foreignLines.map .number))] ++
          errorMember report.error)
  | .error error => .object (("file".toList, .string file) :: errorMember (some error.message))

/-- The report on a set as JSON. -/
def setJson (results : SetResults FileReport) : Json.Value :=
  .object [("patch_set".toList, .string results.path),
    ("namespace".toList, .string results.owner),
    ("files".toList, .array (results.files.map fun (file, result) ↦ fileJson file result))]

/-- The set with its files and their patches. -/
def listing (palette : Palette) : LoadedSet → Output
  | ⟨path, set⟩ =>
      let described := (set.info.description.map fun description ↦
        Output.line ("  ".toList ++ description)).getD {}
      let ranged := (set.info.versionRange.map fun range ↦
        Output.line ("  version_range: ".toList ++ palette.ink .cyan range)).getD {}
      .line (palette.bold set.info.owner ++ ' ' :: palette.dim ('(' :: path ++ [')'])) ++
        described ++ ranged ++
        .concat (set.files.map fun (file, indices) ↦
          .line ("  ".toList ++ file ++ s!" ({indices.length} patches)".toList) ++
            .concat (indices.map fun index ↦
              .line ("    - ".toList ++ (set.labelAt index).getD [])))

end CommandLine

end MarkedEdits
