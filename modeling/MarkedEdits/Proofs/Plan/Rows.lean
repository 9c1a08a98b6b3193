import MarkedEdits.Plan.Render
import MarkedEdits.Proofs.Plan.Claims
import MarkedEdits.Proofs.Sheet

/-!
# Rendering a plan writes rows

The rows of a plan are the lines of the text, bare or disabled, with the lines that the edits insert
between them. Rendering a plan whose spans are whole lines writes these rows with the markers of the
owner (`renderFrom_rows`), and it ends the text as it was. Without the owner's edits the rows are
the lines of the text (`release_rowsFrom`). The two facts together make the rendered text a sheet
over the text that was planned (`exists_sheet_of_render`).
-/

namespace MarkedEdits

open Text Marker

namespace Plan

/-- The lines of a text as rows that the owner inserts. -/
def insertedRows (owner : Namespace) (t : Text) : List Row :=
  (bodies t).map (.inserted owner)

/-- The lines of a text as rows that the owner disables. -/
def disabledRows (owner : Namespace) (t : Text) : List Row :=
  (bodies t).map (.disabled owner)

/-- The lines of a text as rows that nobody has edited. -/
def bareRows (t : Text) : List Row :=
  (bodies t).map .bare

/-- The rows of the matched lines as the edit leaves them. -/
def bodyRows (owner : Namespace) (edit : Edit) (matched : Text) : List Row :=
  match edit.replacement with
  | .keep => bareRows matched
  | .disable => disabledRows owner matched
  | .substitute text => disabledRows owner matched ++ insertedRows owner text

/-- The rows that the edit makes of the lines that it matched. -/
def spanRows (owner : Namespace) (edit : Edit) (matched : Text) : List Row :=
  insertedRows owner edit.before ++ bodyRows owner edit matched ++ insertedRows owner edit.trailing

/-- The rows of the text from `cursor` on, with the edits at the remaining spans. -/
def rowsFrom (t : Text) (edits : List Edit) (owner : Namespace) (cursor : Nat) :
    List PlannedSpan → List Row
  | [] => bareRows (dropBytes cursor t)
  | span :: rest =>
      bareRows (slice t cursor span.start) ++
        (edits[span.owner]?.toList.flatMap fun edit ↦
          spanRows owner edit (slice t span.start span.stop)) ++
        rowsFrom t edits owner span.stop rest

/-- Every span begins where the one before it has ended, and the first one at `cursor` or later. -/
def Fits (cursor : Nat) : List PlannedSpan → Prop
  | [] => True
  | span :: rest => cursor ≤ span.start ∧ Fits span.stop rest

/-! ## Written rows -/

section Written

variable (style : Style) (owner : Namespace)

/-- Inserted rows are written as a commented text. -/
theorem unlines_insertedRows (t : Text) :
    unlines ((insertedRows owner t).map (Row.written style)) =
      comment (style.markers owner).insert t := by
  rw [comment_eq, insertedRows, List.map_map]
  rfl

/-- Disabled rows are written as a commented text. -/
theorem unlines_disabledRows (t : Text) :
    unlines ((disabledRows owner t).map (Row.written style)) =
      comment (style.markers owner).delete t := by
  rw [comment_eq, disabledRows, List.map_map]
  rfl

/-- Bare rows are written as the text, with its last line ended. -/
theorem unlines_bareRows (t : Text) :
    unlines ((bareRows t).map (Row.written style)) = close t := by
  rw [← unlines_bodies, bareRows, List.map_map]
  exact congrArg unlines (List.map_id _)

/-- The matched lines are written as their rows, with the last line ended. -/
theorem close_body_eq (edit : Edit) (matched : Text) :
    close (body (style.markers owner) edit matched) =
      unlines ((bodyRows owner edit matched).map (Row.written style)) := by
  unfold body bodyRows
  cases edit.replacement with
  | keep => exact (unlines_bareRows style matched).symm
  | disable =>
      show close (comment (style.markers owner).delete matched) = _
      rw [unlines_disabledRows, close_of_atLineStart (atLineStart_comment _ _)]
  | substitute text =>
      show close (comment (style.markers owner).delete matched ++
        comment (style.markers owner).insert text) = _
      rw [List.map_append, unlines_append, unlines_disabledRows, unlines_insertedRows,
        close_append (atLineStart_comment _ _), close_of_atLineStart (atLineStart_comment _ _)]

/-- Lines to insert are written behind the output with its last line ended. -/
theorem close_openLine (out following marker : Text) :
    close (openLine out following ++ comment marker following) =
      close out ++ comment marker following := by
  by_cases hf : following = []
  · subst hf
    simp [openLine, comment, lines]
  · have hopen : openLine out following = close out := by
      unfold openLine close
      by_cases hnil : out = []
      · simp [hnil]
      · by_cases hend : endsWithNewline out = true <;> simp [hf, hnil, hend]
    rw [hopen, close_append (atLineStart_close out), close_of_atLineStart (atLineStart_comment _ _)]

/-- An edit writes its rows, with the last line ended. -/
theorem close_renderSpan {out : Text} (hout : AtLineStart out) (edit : Edit) (matched : Text) :
    close (renderSpan (style.markers owner) edit out matched) =
      out ++ unlines ((spanRows owner edit matched).map (Row.written style)) := by
  have hbefore := hout.append (atLineStart_comment (style.markers owner).insert edit.before)
  unfold renderSpan spanRows
  rw [close_openLine, close_append hbefore, close_body_eq]
  simp [unlines_insertedRows]

/-- No newline is written behind whole lines. -/
theorem openLine_of_atLineStart {out : Text} (h : AtLineStart out) (following : Text) :
    openLine out following = out := by
  rcases h with rfl | hend
  · simp [openLine]
  · simp [openLine, hend]

/-- After whole lines an edit ends at the start of a line. -/
theorem atLineStart_renderSpan {out matched : Text} (hout : AtLineStart out)
    (hmatched : AtLineStart matched) (edit : Edit) :
    AtLineStart (renderSpan (style.markers owner) edit out matched) := by
  have hbody : AtLineStart (body (style.markers owner) edit matched) := by
    unfold body
    split
    · exact hmatched
    · exact atLineStart_comment _ _
    · exact (atLineStart_comment _ _).append (atLineStart_comment _ _)
  have hbefore := atLineStart_comment (style.markers owner).insert edit.before
  have hedited := (hout.append hbefore).append hbody
  show AtLineStart (openLine _ edit.trailing ++ comment _ edit.trailing)
  rw [openLine_of_atLineStart hedited]
  exact hedited.append (atLineStart_comment _ _)

end Written

/-! ## Rendering -/

/-- What rendering does at a span: the span does not begin before the cursor, its edit is known, and
rendering goes on behind it. -/
theorem renderFrom_cons_ok {t : Text} {edits : List Edit} {markers : Markers} {out result : Text}
    {cursor : Nat} {previous : Option Nat} {span : PlannedSpan} {rest : List PlannedSpan}
    (h : renderFrom t edits markers out cursor previous (span :: rest) = .ok result) :
    cursor ≤ span.start ∧ ∃ edit, edits[span.owner]? = some edit ∧
      renderFrom t edits markers
        (renderSpan markers edit (out ++ slice t cursor span.start) (slice t span.start span.stop))
        span.stop (some span.owner) rest = .ok result := by
  simp only [renderFrom] at h
  split at h
  · cases h
  · next hge =>
      split at h
      · cases h
      · next edit hedit => exact ⟨Nat.le_of_not_lt hge, edit, hedit, h⟩

variable {t : Text} {edits : List Edit}

/-- What is rendered fits. -/
theorem fits_of_renderFrom {markers : Markers} {out result : Text} {cursor : Nat}
    {previous : Option Nat} {spans : List PlannedSpan}
    (h : renderFrom t edits markers out cursor previous spans = .ok result) :
    Fits cursor spans := by
  induction spans generalizing out cursor previous with
  | nil => trivial
  | cons span rest ih =>
      obtain ⟨hle, edit, -, hrest⟩ := renderFrom_cons_ok h
      exact ⟨hle, ih hrest⟩

/-- The spans of a plan that is rendered fit. -/
theorem fits_of_render {markers : Markers} {plan : Plan} {result : Text}
    (h : plan.render t edits markers = .ok result) : Fits 0 plan.spans := by
  cases hout : renderFrom t edits markers [] 0 none plan.spans with
  | error error => simp [render, hout, Except.map] at h
  | ok out => exact fits_of_renderFrom hout

variable {style : Style} {owner : Namespace}

/-- Rendering writes the rows behind the output, with the last line ended. It stays at the start of
a line when the text ends with a newline. -/
theorem renderFrom_rows {out result : Text} {cursor : Nat} {previous : Option Nat}
    {spans : List PlannedSpan}
    (h : renderFrom t edits (style.markers owner) out cursor previous spans = .ok result)
    (hspans : ∀ span ∈ spans, IsLineRun t span.start span.stop) (hcursor : IsBreak t cursor)
    (hout : dropBytes cursor t ≠ [] ∨ endsWithNewline t = true → AtLineStart out) :
    close result =
        close out ++ unlines ((rowsFrom t edits owner cursor spans).map (Row.written style)) ∧
      (endsWithNewline t = true → AtLineStart result) := by
  -- as long as the text goes on behind the cursor, the output is whole lines
  induction spans generalizing out cursor previous with
  | nil =>
      cases h
      constructor
      · rw [rowsFrom, unlines_bareRows]
        by_cases hnil : dropBytes cursor t = []
        · simp [hnil, close]
        · have hstart := hout (.inl hnil)
          rw [close_append hstart, close_of_atLineStart hstart]
      · intro hclosed
        refine (hout (.inr hclosed)).append (AtLineStart.of_append (a := takeBytes cursor t) ?_)
        rw [takeBytes_append_dropBytes]
        exact .inr hclosed
  | cons span rest ih =>
      obtain ⟨hle, edit, hedit, hrest⟩ := renderFrom_cons_ok h
      obtain ⟨hrun, hbehind⟩ := List.forall_mem_cons.mp hspans
      have hbound := hrun.isBreak_start.isBoundary
      have hstart := hout (.inl (hrun.dropBytes_ne_nil hcursor.isBoundary hle))
      -- the span is not at the end of the text, so the lines before it are whole
      have hgap : AtLineStart (slice t cursor span.start) :=
        (hrun.isBreak_start.atLineStart_slice hcursor.isBoundary hle).resolve_right
          (hrun.dropBytes_ne_nil hbound (Nat.le_refl _))
      have hcopied := hstart.append hgap
      have hnext : dropBytes span.stop t ≠ [] ∨ endsWithNewline t = true →
          AtLineStart (slice t span.start span.stop) := by
        have hspan := Nat.le_of_lt hrun.lt
        rintro (hmore | hclosed)
        · exact (hrun.isBreak_stop.atLineStart_slice hbound hspan).resolve_right hmore
        · exact hrun.isBreak_stop.atLineStart_slice_of_closed hclosed hbound hspan
      obtain ⟨hclose, hend⟩ := ih hrest hbehind hrun.isBreak_stop fun hmore ↦
        atLineStart_renderSpan style owner hcopied (hnext hmore) edit
      refine ⟨?_, hend⟩
      rw [hclose, close_renderSpan style owner hcopied, close_of_atLineStart hstart, rowsFrom,
        hedit]
      simp [unlines_bareRows, close_of_atLineStart hgap]

/-- A rendered plan is its rows, ended as the text is. -/
theorem render_rows {plan : Plan} {result : Text}
    (h : plan.render t edits (style.markers owner) = .ok result)
    (hspans : ∀ span ∈ plan.spans, IsLineRun t span.start span.stop) :
    result = assemble (endsWithNewline t)
      ((rowsFrom t edits owner 0 plan.spans).map (Row.written style)) := by
  cases hout : renderFrom t edits (style.markers owner) [] 0 none plan.spans with
  | error error => simp [render, hout, Except.map] at h
  | ok out =>
      simp only [render, hout, Except.map, Except.ok.injEq] at h
      obtain ⟨hclose, hend⟩ := renderFrom_rows hout hspans (isBreak_zero t) fun _ ↦ .inl rfl
      rw [show close [] = [] from rfl, List.nil_append] at hclose
      rw [← h, matchEnding, assemble, ← hclose]
      by_cases hclosed : endsWithNewline t = true
      · simp [hclosed, close_of_atLineStart (hend hclosed)]
      · by_cases hnil : t = []
        · -- the empty text has no span, so nothing is written
          have hnone : plan.spans = [] := by
            refine List.eq_nil_iff_forall_not_mem.mpr fun span hspan ↦ ?_
            have hle := (hspans span hspan).isBreak_stop.le_size
            have hlt := (hspans span hspan).lt
            rw [hnil, size_nil] at hle
            omega
          rw [hnone, renderFrom, hnil] at hout
          cases hout
          simp [hnil, dropBytes, close]
        · simp [hclosed, hnil, dropFinalNewline_eq]

/-! ## The rows without the owner's edits -/

/-- Nothing is left of inserted rows. -/
theorem release_insertedRows (owner : Namespace) (t : Text) :
    (insertedRows owner t).filterMap (Row.release owner) = [] := by
  simp [insertedRows, List.filterMap_map, Function.comp_def, Row.release]

/-- Bare rows are left of disabled rows. -/
theorem release_disabledRows (owner : Namespace) (t : Text) :
    (disabledRows owner t).filterMap (Row.release owner) = bareRows t := by
  simp [disabledRows, bareRows, List.filterMap_map, Function.comp_def, Row.release]

/-- Bare rows are left as they are. -/
theorem release_bareRows (owner : Namespace) (t : Text) :
    (bareRows t).filterMap (Row.release owner) = bareRows t := by
  simp [bareRows, List.filterMap_map, Function.comp_def, Row.release]

/-- The matched lines are left of what an edit makes of them. -/
theorem release_spanRows (owner : Namespace) (edit : Edit) (matched : Text) :
    (spanRows owner edit matched).filterMap (Row.release owner) = bareRows matched := by
  have hbody : (bodyRows owner edit matched).filterMap (Row.release owner) = bareRows matched := by
    unfold bodyRows
    split
    · exact release_bareRows owner matched
    · exact release_disabledRows owner matched
    · rw [List.filterMap_append, release_disabledRows, release_insertedRows, List.append_nil]
  rw [spanRows, List.filterMap_append, List.filterMap_append, release_insertedRows, hbody,
    release_insertedRows, List.nil_append, List.append_nil]

/-- The rows of two parts of a text that a break cuts are the rows of the text. -/
theorem bareRows_dropBytes {start stop : Nat} (hstart : IsBoundary t start) (hstop : IsBreak t stop)
    (hle : start ≤ stop) :
    bareRows (slice t start stop) ++ bareRows (dropBytes stop t) =
      bareRows (dropBytes start t) := by
  rw [bareRows, bareRows, bareRows, bodies_dropBytes hstart hstop hle, List.map_append]

/-- The lines of the text from the cursor on are left of spans that fit. -/
theorem release_rowsFrom (owner : Namespace) {cursor : Nat} {spans : List PlannedSpan}
    (hfits : Fits cursor spans) (hcursor : IsBoundary t cursor)
    (hspans : ∀ span ∈ spans, IsLineRun t span.start span.stop)
    (hedits : ∀ span ∈ spans, ∃ edit, edits[span.owner]? = some edit) :
    (rowsFrom t edits owner cursor spans).filterMap (Row.release owner) =
      bareRows (dropBytes cursor t) := by
  induction spans generalizing cursor with
  | nil => exact release_bareRows owner _
  | cons span rest ih =>
      obtain ⟨hle, hrest⟩ := hfits
      obtain ⟨⟨edit, hedit⟩, hedits'⟩ := List.forall_mem_cons.mp hedits
      obtain ⟨hrun, hspans'⟩ := List.forall_mem_cons.mp hspans
      have hbehind := ih hrest hrun.isBreak_stop.isBoundary hspans' hedits'
      rw [rowsFrom, hedit, List.filterMap_append, List.filterMap_append, hbehind, release_bareRows,
        Option.toList_some, List.flatMap_singleton, release_spanRows, List.append_assoc,
        bareRows_dropBytes hrun.isBreak_start.isBoundary hrun.isBreak_stop (Nat.le_of_lt hrun.lt),
        bareRows_dropBytes hcursor hrun.isBreak_start hle]

/-- The rows end with the lines behind the last span. -/
theorem exists_rowsFrom_eq_append (owner : Namespace) {cursor stop : Nat} {spans : List PlannedSpan}
    (hcursor : IsBoundary t cursor) (hstop : IsBreak t stop) (hle : cursor ≤ stop)
    (hspans : ∀ span ∈ spans, IsBoundary t span.stop ∧ span.stop ≤ stop) :
    ∃ front, rowsFrom t edits owner cursor spans = front ++ bareRows (dropBytes stop t) := by
  induction spans generalizing cursor with
  | nil => exact ⟨_, (bareRows_dropBytes hcursor hstop hle).symm⟩
  | cons span rest ih =>
      obtain ⟨⟨hbound, hbefore⟩, hspans'⟩ := List.forall_mem_cons.mp hspans
      obtain ⟨front, hfront⟩ := ih hbound hbefore hspans'
      rw [rowsFrom, hfront, ← List.append_assoc]
      exact ⟨_, rfl⟩

/-! ## Where the rows come from -/

/-- The lines of spans that fit begin at the cursor or later. -/
theorem Fits.le_start {cursor : Nat} {spans : List PlannedSpan} (h : Fits cursor spans)
    (hspans : ∀ span ∈ spans, span.start < span.stop) : ∀ span ∈ spans, cursor ≤ span.start := by
  induction spans generalizing cursor with
  | nil => simp
  | cons first rest ih =>
      obtain ⟨hfirst, hrest⟩ := List.forall_mem_cons.mp hspans
      refine List.forall_mem_cons.mpr ⟨h.1, ?_⟩
      intro span hspan
      have hle := h.1
      have hbehind := ih h.2 hrest span hspan
      omega

/-- What fits behind an offset fits behind an earlier one. -/
theorem Fits.mono {first cursor : Nat} {spans : List PlannedSpan} (h : Fits cursor spans)
    (hle : first ≤ cursor) : Fits first spans := by
  cases spans with
  | nil => trivial
  | cons span rest => exact ⟨Nat.le_trans hle h.1, h.2⟩

/-- Of spans that fit, only the span itself begins within a span. -/
theorem Fits.eq_of_start_within {cursor : Nat} {spans : List PlannedSpan} (h : Fits cursor spans)
    (hspans : ∀ span ∈ spans, span.start < span.stop) {a b : PlannedSpan} (ha : a ∈ spans)
    (hb : b ∈ spans) (hle : a.start ≤ b.start) (hlt : b.start < a.stop) : a = b := by
  -- spans that fit follow one another, so the later of two begins behind the earlier
  induction spans generalizing cursor with
  | nil => cases ha
  | cons first rest ih =>
      obtain ⟨-, hrest⟩ := List.forall_mem_cons.mp hspans
      have hbehind := h.2.le_start hrest
      rcases List.mem_cons.mp ha with rfl | ha' <;> rcases List.mem_cons.mp hb with rfl | hb'
      · rfl
      · have := hbehind b hb'
        omega
      · have := hbehind a ha'
        have := hspans b List.mem_cons_self
        omega
      · exact ih h.2 hrest ha' hb'

/-- A row of an edit is inserted, or it is a matched line, disabled only if the edit disables. -/
theorem mem_spanRows {owner : Namespace} {edit : Edit} {matched : Text} {row : Row}
    (h : row ∈ spanRows owner edit matched) :
    row ∈ bareRows matched ∨ (∃ text, row ∈ insertedRows owner text) ∨
      (edit.replacement.disables = true ∧ row ∈ disabledRows owner matched) := by
  simp only [spanRows, List.mem_append] at h
  rcases h with (h | h) | h
  · exact .inr (.inl ⟨edit.before, h⟩)
  · unfold bodyRows at h
    cases hreplacement : edit.replacement with
    | keep =>
        rw [hreplacement] at h
        exact .inl h
    | disable =>
        rw [hreplacement] at h
        exact .inr (.inr ⟨rfl, h⟩)
    | substitute text =>
        rw [hreplacement] at h
        rcases List.mem_append.mp h with h | h
        · exact .inr (.inr ⟨rfl, h⟩)
        · exact .inr (.inl ⟨text, h⟩)
  · exact .inr (.inl ⟨edit.trailing, h⟩)

/-- A row of the plan is a line of the text, or it is inserted, or it is disabled in a span of an
edit that disables. -/
theorem mem_rowsFrom {owner : Namespace} {cursor : Nat} {spans : List PlannedSpan} {row : Row}
    (h : row ∈ rowsFrom t edits owner cursor spans) :
    (∃ text, row ∈ bareRows text) ∨ (∃ text, row ∈ insertedRows owner text) ∨
      ∃ span ∈ spans, ∃ edit, edits[span.owner]? = some edit ∧ edit.replacement.disables = true ∧
        row ∈ disabledRows owner (slice t span.start span.stop) := by
  induction spans generalizing cursor with
  | nil => exact .inl ⟨_, h⟩
  | cons span rest ih =>
      simp only [rowsFrom, List.mem_append, List.mem_flatMap, Option.mem_toList] at h
      rcases h with (h | ⟨edit, hedit, h⟩) | h
      · exact .inl ⟨_, h⟩
      · rcases mem_spanRows h with h | h | ⟨hdisables, h⟩
        · exact .inl ⟨_, h⟩
        · exact .inr (.inl h)
        · exact .inr (.inr ⟨span, List.mem_cons_self, edit, hedit, hdisables, h⟩)
      · refine (ih h).imp_right fun h ↦ h.imp_right ?_
        rintro ⟨other, hother, hrest⟩
        exact ⟨other, List.mem_cons_of_mem _ hother, hrest⟩

/-- What is a part of a disabled line occurs in the text, on a line that starts within a span of an
edit that disables. -/
theorem exists_occursAt_of_disabled {plan : Plan} (hplan : ofEdits t edits = .ok plan)
    {owner other : Namespace} {line needle : Text}
    (hrow : Row.disabled other line ∈ rowsFrom t edits owner 0 plan.spans) (hne : needle ≠ [])
    (hpart : needle <:+: line) :
    ∃ span ∈ plan.spans, ∃ edit, edits[span.owner]? = some edit ∧
      edit.replacement.disables = true ∧
      ∃ j, OccursAt t needle j ∧ span.start ≤ lineStart t j ∧ lineStart t j < span.stop := by
  rcases mem_rowsFrom hrow with ⟨text, h⟩ | ⟨text, h⟩ | ⟨span, hspan, edit, hedit, hkind, h⟩
  · simp [bareRows] at h
  · simp [insertedRows] at h
  · obtain ⟨body, hbody, hline⟩ := List.mem_map.mp h
    cases hline
    exact ⟨span, hspan, edit, hedit, hkind,
      (isLineRun_span hplan hspan).exists_occursAt hbody hne hpart⟩

/-- Every row of the plan is one line. -/
theorem newline_not_mem_rowsFrom {owner : Namespace} {cursor : Nat} {spans : List PlannedSpan}
    {row : Row} (h : row ∈ rowsFrom t edits owner cursor spans) : '\n' ∉ row.line := by
  have hbodies : ∀ (make : Text → Row), (∀ line, (make line).line = line) → ∀ text : Text,
      row ∈ (bodies text).map make → '\n' ∉ row.line := by
    intro make hmake text hrow
    obtain ⟨line, hline, rfl⟩ := List.mem_map.mp hrow
    rw [hmake]
    exact newline_not_mem_of_mem_bodies hline
  rcases mem_rowsFrom h with ⟨text, h⟩ | ⟨text, h⟩ | ⟨span, -, edit, -, -, h⟩
  · exact hbodies .bare (fun _ ↦ rfl) text h
  · exact hbodies (.inserted owner) (fun _ ↦ rfl) text h
  · exact hbodies (.disabled owner) (fun _ ↦ rfl) _ h

/-- A rendered plan is a sheet over the planned text, whose rows are those of the plan, and it
comes apart into the text again. -/
theorem exists_sheet_of_render {plan : Plan} {result : Text} (hplan : ofEdits t edits = .ok plan)
    (h : plan.render t edits (style.markers owner) = .ok result) :
    ∃ sheet : Sheet t, sheet.rows = rowsFrom t edits owner 0 plan.spans ∧
      result = sheet.text style ∧ sheet.release owner = Sheet.plain t := by
  have hspans : ∀ span ∈ plan.spans, IsLineRun t span.start span.stop :=
    fun span hspan ↦ isLineRun_span hplan hspan
  have hedits : ∀ span ∈ plan.spans, ∃ edit, edits[span.owner]? = some edit :=
    fun span hspan ↦ exists_edit_of_span hplan hspan
  have hzero : IsBoundary t 0 := (isBreak_zero t).isBoundary
  have hrelease := release_rowsFrom owner (fits_of_render h) hzero hspans hedits
  have hwhole : dropBytes 0 t = t := dropBytes_size_append [] t
  rw [hwhole] at hrelease
  -- releasing does not change what rows stand for, so their originals are the lines of the text
  let sheet : Sheet t :=
    { rows := rowsFrom t edits owner 0 plan.spans
      originals := by
        have horiginal := congrArg (List.filterMap Row.original?) hrelease
        rw [List.filterMap_filterMap, funext (Row.original?_release owner)] at horiginal
        exact horiginal.trans (Sheet.plain t).originals
      oneLine := fun row hrow ↦ newline_not_mem_rowsFrom hrow }
  exact ⟨sheet, rfl, render_rows h hspans, Sheet.ext hrelease⟩

end Plan

end MarkedEdits
