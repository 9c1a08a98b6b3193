import Mathlib.Algebra.GroupWithZero.Nat
import MarkedEdits.Proofs.Scope.Guarded
import MarkedEdits.Proofs.Session.Basic
import MarkedEdits.Text.Split

/-!
# How many lines are marked

In the file scope the text that edits are carried out on holds no marked line, so the marked lines
of the outcome are those that the edits insert and disable. Their numbers are read off the plan:
every span brings the lines that its edit inserts, and its own lines when the edit disables them.
Read `Editor.marked_lines_counted` first. No marked line is lost when the last newline is dropped,
and none is counted for both markers.
-/

namespace MarkedEdits

open Text Marker

/-! ## Lines of a text -/

/-- The number of lines: none in the empty text, and otherwise the number of pieces between the
newlines, not counting one newline at the end. -/
def Text.lineCount (t : Text) : Nat :=
  if t = [] then 0 else (splitOn '\n' (dropFinalNewline t)).length

/-- The bodies of a text that is not empty are the pieces between its newlines, once a newline at
its end is dropped. -/
theorem Text.bodies_eq_splitOn {t : Text} (hne : t ≠ []) :
    bodies t = splitOn '\n' (dropFinalNewline t) := by
  induction t using line_induction with
  | nil => exact absurd rfl hne
  | last body hbody hne =>
      rw [bodies_body hbody hne, dropFinalNewline, endsWithNewline_of_not_mem hbody]
      exact (splitOn_of_not_mem hbody).symm
  | cons body rest hbody ih =>
      rw [bodies_cons hbody]
      by_cases hrest : rest = []
      · subst hrest
        have hend : endsWithNewline (body ++ ['\n']) = true := endsWithNewline_iff.mpr ⟨body, rfl⟩
        simp [dropFinalNewline, hend, splitOn_of_not_mem hbody]
      · have hdrop : dropFinalNewline (body ++ '\n' :: rest) =
            body ++ '\n' :: dropFinalNewline rest := by
          simpa using dropFinalNewline_append (body ++ ['\n']) hrest
        rw [hdrop, splitOn_append_cons hbody, ih hrest]

/-- A text has as many lines as bodies. -/
theorem Text.lineCount_eq (t : Text) : t.lineCount = (bodies t).length := by
  unfold lineCount
  split
  · next hnil => simp [hnil]
  · next hne => rw [bodies_eq_splitOn hne]

/-! ## Rows -/

namespace Row

/-- The row has been inserted. -/
def isInserted : Row → Bool
  | inserted _ _ => true
  | bare _ | disabled _ _ => false

/-- The row has been disabled. -/
def isDisabled : Row → Bool
  | disabled _ _ => true
  | bare _ | inserted _ _ => false

variable {style : Style} (hstyle : style.fault? = none) {owner : Namespace} {row : Row}
  (howner : ∀ other, row.owner? = some other → other = owner)
  (hbare : ∀ line, row = bare line → style.StemFree line)

include hstyle howner hbare

/-- Among the rows of one owner the insert marker stands before the inserted ones, when no stem
stands in the rows that nobody has edited. -/
theorem insert_prefix_written_iff :
    (style.markers owner).insert <+: row.written style ↔ row.isInserted = true := by
  have hsound := Style.markers_sound hstyle owner
  cases row with
  | bare line =>
      have hnone := (hbare line rfl).not_marks owner
      simpa [isInserted, written] using fun h ↦ hnone (.inl h)
  | disabled other line =>
      obtain rfl := howner other rfl
      simpa [isInserted, written] using hsound.not_insert_prefix_delete line
  | inserted other line =>
      obtain rfl := howner other rfl
      simp [isInserted, written]

/-- The delete marker stands before the disabled ones. -/
theorem delete_prefix_written_iff :
    (style.markers owner).delete <+: row.written style ↔ row.isDisabled = true := by
  have hsound := Style.markers_sound hstyle owner
  cases row with
  | bare line =>
      have hnone := (hbare line rfl).not_marks owner
      simpa [isDisabled, written] using fun h ↦ hnone (.inr h)
  | disabled other line =>
      obtain rfl := howner other rfl
      simp [isDisabled, written]
  | inserted other line =>
      obtain rfl := howner other rfl
      simpa [isDisabled, written] using hsound.not_delete_prefix_insert line

end Row

/-- The marked lines of a sheet are its rows of the kind that the marker stands before. -/
theorem Sheet.countMarked_text {original marker : Text} {style : Style}
    (hstyle : style.fault? = none) (sheet : Sheet original) (hne : marker ≠ [])
    (hmarker : '\n' ∉ marker) {kind : Row → Bool}
    (hkind : ∀ row ∈ sheet.rows, marker <+: row.written style ↔ kind row = true) :
    countMarked marker (sheet.text style) = sheet.rows.countP kind := by
  rw [countMarked_eq hne hmarker, sheet.bodies_text hstyle, List.countP_map]
  exact List.countP_congr fun row hrow ↦ decide_eq_true_iff.trans (hkind row hrow)

/-! ## Rows of a plan -/

/-- The text that takes the place of the matched lines. -/
def Replacement.text : Replacement → Text
  | keep | disable => []
  | substitute text => text

/-- The number of lines that the edit inserts at each of its spans. -/
def Edit.insertedLines (edit : Edit) : Nat :=
  lineCount edit.before + lineCount edit.replacement.text + lineCount edit.trailing

/-- The number of lines that the edit disables of those that it matched. -/
def Edit.disabledLines (edit : Edit) (matched : Text) : Nat :=
  if edit.replacement.disables then matched.lineCount else 0

namespace Plan

/-- The number of lines that the edits insert at the spans of the plan. -/
def insertedLines (plan : Plan) (edits : List Edit) : Nat :=
  (plan.spans.map fun span ↦ (edits[span.owner]?.map Edit.insertedLines).getD 0).sum

/-- The number of lines that the edits disable at the spans of the plan. -/
def disabledLines (plan : Plan) (t : Text) (edits : List Edit) : Nat :=
  (plan.spans.map fun span ↦
    (edits[span.owner]?.map (·.disabledLines (t.slice span.start span.stop))).getD 0).sum

variable {owner : Namespace}

/-- The lines of a text are all counted when they make rows of the kind, and none is otherwise. -/
theorem countP_map_bodies {make : Text → Row} {kind : Row → Bool} {counted : Bool}
    (h : ∀ line, kind (make line) = counted) (t : Text) :
    ((bodies t).map make).countP kind = if counted then lineCount t else 0 := by
  rw [List.countP_map, show kind ∘ make = fun _ ↦ counted from funext h]
  cases counted <;> simp [lineCount_eq]

/-- An edit makes as many rows of a kind as the lines that it inserts or disables, whichever are of
that kind. -/
theorem countP_spanRows (kind : Row → Bool) (inserts disables : Bool)
    (hbare : ∀ line, kind (.bare line) = false)
    (hinserted : ∀ line, kind (.inserted owner line) = inserts)
    (hdisabled : ∀ line, kind (.disabled owner line) = disables) (edit : Edit) (matched : Text) :
    (spanRows owner edit matched).countP kind =
      (if inserts then edit.insertedLines else 0) +
        if disables then edit.disabledLines matched else 0 := by
  have hbody : (bodyRows owner edit matched).countP kind =
      (if inserts then lineCount edit.replacement.text else 0) +
        if disables then edit.disabledLines matched else 0 := by
    unfold bodyRows Edit.disabledLines
    cases edit.replacement with
    | keep =>
        show (bareRows matched).countP kind = _
        rw [bareRows, countP_map_bodies hbare]
        cases inserts <;> simp [Replacement.text, Replacement.disables, lineCount]
    | disable =>
        show (disabledRows owner matched).countP kind = _
        rw [disabledRows, countP_map_bodies hdisabled]
        cases inserts <;> simp [Replacement.text, Replacement.disables, lineCount]
    | substitute text =>
        show (disabledRows owner matched ++ insertedRows owner text).countP kind = _
        rw [disabledRows, insertedRows, List.countP_append, countP_map_bodies hdisabled,
          countP_map_bodies hinserted, Nat.add_comm]
        rfl
  rw [spanRows, List.countP_append, List.countP_append, hbody]
  simp only [insertedRows, countP_map_bodies hinserted, Edit.insertedLines]
  cases inserts
  · simp
  · simp only [if_true]
    omega

/-- Rows of a kind that no unedited row is of are counted span by span. -/
theorem countP_rowsFrom {kind : Row → Bool} (hkind : ∀ line, kind (.bare line) = false) (t : Text)
    (edits : List Edit) (owner : Namespace) (cursor : Nat) (spans : List PlannedSpan) :
    (rowsFrom t edits owner cursor spans).countP kind =
      (spans.map fun span ↦ (edits[span.owner]?.map fun edit ↦
        (spanRows owner edit (slice t span.start span.stop)).countP kind).getD 0).sum := by
  have hbare : ∀ text, (bareRows text).countP kind = 0 := countP_map_bodies hkind
  induction spans generalizing cursor with
  | nil => exact hbare _
  | cons span rest ih =>
      rw [rowsFrom, List.countP_append, List.countP_append, hbare, Nat.zero_add, ih, List.map_cons,
        List.sum_cons]
      congr 1
      cases edits[span.owner]? <;> simp

end Plan

namespace Editor

variable {editor : Editor} {t composed : Text} {edits : List Edit}

/-- In a text without stems the marked lines of what a plan is rendered to are those that its edits
insert and disable. -/
theorem countMarked_render {plan : Plan} (hfree : editor.style.StemFree t)
    (hplan : Plan.ofEdits t edits = .ok plan)
    (hrender : plan.render t edits editor.markers = .ok composed) :
    countMarked editor.markers.insert composed = plan.insertedLines edits ∧
      countMarked editor.markers.delete composed = plan.disabledLines t edits := by
  obtain ⟨sheet, hrows, rfl, hrelease⟩ := Plan.exists_sheet_of_render hplan hrender
  have hsound := editor.markers_sound
  have howned := Sheet.ownedBy_of_release_eq_plain hrelease
  have howner : ∀ row ∈ sheet.rows, ∀ other, row.owner? = some other → other = editor.owner :=
    fun row hrow other hother ↦ List.mem_singleton.mp (howned row hrow other hother)
  have hbare : ∀ row ∈ sheet.rows, ∀ line, row = .bare line → editor.style.StemFree line := by
    intro row hrow line hline
    rw [hline] at hrow
    exact hfree.of_mem_bodies (Sheet.mem_bodies_of_bare hrow)
  have hinsert := sheet.countMarked_text editor.usable hsound.insert_ne_nil
    hsound.newline_not_mem_insert fun row hrow ↦
      Row.insert_prefix_written_iff editor.usable (howner row hrow) (hbare row hrow)
  have hdelete := sheet.countMarked_text editor.usable hsound.delete_ne_nil
    hsound.newline_not_mem_delete fun row hrow ↦
      Row.delete_prefix_written_iff editor.usable (howner row hrow) (hbare row hrow)
  rw [hinsert, hdelete, hrows, Plan.countP_rowsFrom fun _ ↦ rfl, Plan.countP_rowsFrom fun _ ↦ rfl]
  constructor
  · simp [Plan.insertedLines, Plan.countP_spanRows Row.isInserted true false (fun _ ↦ rfl)
      (fun _ ↦ rfl) (fun _ ↦ rfl)]
  · simp [Plan.disabledLines, Plan.countP_spanRows Row.isDisabled false true (fun _ ↦ rfl)
      (fun _ ↦ rfl) (fun _ ↦ rfl)]

/-- In the file scope a patch that succeeds leads to a text with as many lines marked as inserted as
the edits insert at the spans of their plan on the reverted text, and with as many lines marked as
disabled as the spans of the edits that disable have. -/
theorem marked_lines_counted (editor : Editor) (hscope : editor.scope = .file) (t : Text)
    (edits : List Edit) {outcome : Outcome} (h : editor.patch t edits = .ok outcome) :
    let base := editor.revert t
    ∃ plan, Plan.ofEdits base edits = .ok plan ∧
      (∀ span ∈ plan.spans, ∃ edit, edits[span.owner]? = some edit) ∧
      countMarked editor.markers.insert (outcome.applied t) = plan.insertedLines edits ∧
      countMarked editor.markers.delete (outcome.applied t) = plan.disabledLines base edits := by
  intro base
  obtain ⟨composed, heval, rfl⟩ := patch_ok_iff.mp h
  obtain ⟨plan, hplan, hrender⟩ := exists_render_of_evaluate heval
  rw [Outcome.applied_between]
  exact ⟨plan, hplan, fun span ↦ Plan.exists_edit_of_span hplan,
    countMarked_render (stemFree_of_evaluate hscope heval) hplan hrender⟩

/-- One line gives way to three, one of which is empty, and the last line is disabled with a blank
behind it that is not ended. -/
theorem marked_lines_counted_blank :
    let editor : Editor :=
      { owner := ⟨['a'], by simp, List.forall_mem_singleton.mpr rfl⟩, style := .hash
        usable := by decide }
    let edit (anchor : Char) (replacement : Replacement) : Edit :=
      { anchors := [[anchor]], anchors_ne_nil := by simp, anchor_ne_nil := by simp, replacement }
    let edits := [edit 'x' (.substitute "z\n\nw".toList), edit 'y' .disable]
    let t := "x\ny".toList
    let patched := ("# - PL:a - # x\n# + PL:a + # z\n# + PL:a + # \n# + PL:a + # w\n" ++
      "# - PL:a - # y\n# + PL:a + #  ").toList
    editor.scope = .file ∧ editor.patch t edits = .ok (.patched patched) ∧
      countMarked editor.markers.insert patched = 4 ∧
      countMarked editor.markers.delete patched = 2 := by
  intro editor edit edits t patched
  have hpatch : editor.patch t edits = .ok (.patched patched) := by
    simp only [editor, edit, edits, t, patched]
    decide +kernel
  obtain ⟨plan, hplan, -, hinserted, hdisabled⟩ := marked_lines_counted editor rfl t edits hpatch
  have hspans : Plan.ofEdits (editor.revert t) edits = .ok ⟨[⟨0, 2, 0⟩, ⟨2, 3, 1⟩],
      [⟨[⟨0, 2, "x\n".toList⟩], none⟩, ⟨[⟨2, 3, ['y']⟩], none⟩]⟩ := by
    simp only [editor, edit, edits, t]
    decide +kernel
  obtain rfl := Except.ok.inj (hplan.symm.trans hspans)
  refine ⟨rfl, hpatch, hinserted.trans ?_, hdisabled.trans ?_⟩
  · simp only [edit, edits]
    decide +kernel
  · simp only [editor, edit, edits, t]
    decide +kernel

end Editor

end MarkedEdits
