import MarkedEdits.Proofs.Embedding
import MarkedEdits.Proofs.Plan.Acceptance
import MarkedEdits.Proofs.Text.Placement

/-!
# A newline at the end of the text

When a text is ended by a newline that it lacked, anchors within lines occur where they did before,
so edits have the same matches but for those that reach to the end of the text, which then reach
behind the newline (`matchesOf_newline`). The plan has the spans that it had, moved in the same way
(`spans_newline`), and they come to the same rows (`rowsFrom_newline`). Read `ending_kept` first:
the edits lead to the same text, ended by a newline as well.
-/

namespace MarkedEdits

open Text

/-- The offset at which a line ends when the text is ended by a newline: the end of the text moves
behind the newline. -/
def Text.endedStop (t : Text) (stop : Nat) : Nat :=
  if stop = size t then stop + 1 else stop

/-- The match in the text that is ended by a newline. -/
def Match.ended (t : Text) (lines : Match) : Match :=
  let stop := t.endedStop lines.stop
  ⟨lines.start, stop, slice (t ++ ['\n']) lines.start stop⟩

/-- The span in the text that is ended by a newline. -/
def PlannedSpan.ended (t : Text) (span : PlannedSpan) : PlannedSpan :=
  { span with stop := t.endedStop span.stop }

/-- Only the end of the text is moved. -/
theorem Text.endedStop_of_lt {t : Text} {stop : Nat} (h : stop < size t) :
    t.endedStop stop = stop :=
  if_neg (Nat.ne_of_lt h)

/-- The end of the text is moved behind the newline. -/
theorem Text.endedStop_size (t : Text) : t.endedStop (size t) = size (t ++ ['\n']) := by
  simp [endedStop]

/-- Offsets in a text keep their order. -/
theorem Text.endedStop_le_iff {t : Text} {a b : Nat} (ha : a ≤ size t) (hb : b ≤ size t) :
    t.endedStop a ≤ t.endedStop b ↔ a ≤ b := by
  unfold endedStop
  split <;> split <;> omega

section Texts

variable {t : Text} (hopen : endsWithNewline t = false)

include hopen

/-- The line of a boundary ends where it did, or behind the newline when it is the last one. -/
theorem Text.lineEnd_newline {pos : Nat} (h : IsBoundary t pos) :
    lineEnd (t ++ ['\n']) pos = t.endedStop (lineEnd t pos) := by
  obtain ⟨front, back, rfl, rfl⟩ := isBoundary_iff.mp h
  by_cases hback : '\n' ∈ back
  · obtain ⟨body, rest, rfl, hbody⟩ := List.eq_append_cons_of_mem hback
    have hmore : rest ≠ [] := by
      rintro rfl
      rw [endsWithNewline_iff.mpr ⟨front ++ body, by simp⟩] at hopen
      cases hopen
    have hend := lineEnd_eq front hbody rest
    have hend' := lineEnd_eq front hbody (rest ++ ['\n'])
    have hpos := size_pos hmore
    simp only [List.append_assoc, List.cons_append] at hend hend' ⊢
    rw [hend, hend', endedStop_of_lt]
    simp only [size_append, size_cons, utf8Size_newline]
    omega
  · have hend := lineEnd_eq front hback []
    rw [List.append_assoc] at hend
    rw [List.append_assoc, hend, lineEnd_eq_size front hback, endedStop_size]
    simp [Nat.add_assoc]

/-- A part that goes on to the end of the text has the same lines when it goes on to the newline. -/
theorem Text.bodies_concat_newline {front back : Text} (ht : t = front ++ back) (hne : back ≠ []) :
    bodies (back ++ ['\n']) = bodies back := by
  have hback : endsWithNewline back = false := by
    rwa [ht, endsWithNewline_append hne] at hopen
  rw [← bodies_close back, close, if_neg]
  simp [hne, hback]

/-- The lines between two boundaries are the same when the text is ended by a newline. -/
theorem Text.bodies_slice_newline {start stop : Nat} (hstart : IsBoundary t start)
    (hstop : IsBoundary t stop) (hlt : start < stop) :
    bodies (slice (t ++ ['\n']) start (t.endedStop stop)) = bodies (slice t start stop) := by
  obtain ⟨front, middle, rest, ht, rfl, rfl, hslice⟩ := exists_parts hstart hstop (Nat.le_of_lt hlt)
  rw [hslice]
  by_cases hrest : rest = []
  · subst hrest
    rw [List.append_nil] at ht
    have hmiddle : middle ≠ [] := by
      rintro rfl
      simp at hlt
    have hwhole := slice_append front (middle ++ ['\n']) []
    rw [← size_append, ← ht, endedStop_size, ht]
    simp only [List.append_nil, ← List.append_assoc, ← size_append] at hwhole
    rw [hwhole, bodies_concat_newline hopen ht hmiddle]
  · have hpos := size_pos hrest
    rw [endedStop_of_lt (by simp [ht]; omega), ht, List.append_assoc, slice_append]

/-- The lines from a boundary on are the same when the text is ended by a newline. -/
theorem Text.bodies_dropBytes_newline {cursor : Nat} (hcursor : IsBoundary t cursor) :
    bodies (dropBytes (t.endedStop cursor) (t ++ ['\n'])) = bodies (dropBytes cursor t) := by
  obtain ⟨front, back, ht, rfl⟩ := isBoundary_iff.mp hcursor
  by_cases hback : back = []
  · subst hback
    rw [List.append_nil] at ht
    have hnone := dropBytes_size_append (t ++ ['\n']) []
    have hnone' := dropBytes_size_append t []
    rw [List.append_nil] at hnone hnone'
    rw [← ht, endedStop_size, hnone, hnone']
  · have hpos := size_pos hback
    rw [endedStop_of_lt (by simp [ht]; omega), ht, List.append_assoc, dropBytes_size_append,
      dropBytes_size_append, bodies_concat_newline hopen ht hback]

end Texts

namespace Plan

variable {t : Text} {edits : List Edit}

/-! ## Planning -/

section Planning

variable (hopen : endsWithNewline t = false)

include hopen

/-- The matches of an edit whose anchors hold no newline are those in the text without the newline,
which go on behind the newline when they go on to the end of the text. -/
theorem matchesOf_newline {edit : Edit} (hanchors : ∀ anchor ∈ edit.anchors, '\n' ∉ anchor) :
    matchesOf (t ++ ['\n']) edit = (matchesOf t edit).map (Match.ended t) := by
  have hoccurs : ∀ anchor ∈ edit.anchors, ∀ i,
      OccursAt (t ++ ['\n']) anchor i ↔ OccursAt t anchor i := fun anchor hanchor i ↦
    occursAt_concat_newline (hanchors anchor hanchor) (edit.anchor_ne_nil anchor hanchor)
  have hembeds : ∀ first stop, Anchor.Embeds t edit.anchors first stop ↔
      Anchor.Embeds (t ++ ['\n']) edit.anchors first stop := fun first stop ↦
    ⟨fun h ↦ h.of_occursAt fun anchor hanchor i ↦ (hoccurs anchor hanchor i).mpr,
      fun h ↦ h.of_occursAt fun anchor hanchor i ↦ (hoccurs anchor hanchor i).mp⟩
  have hscan := Anchor.findAll_congr hembeds (fun h ↦ edit.anchor_ne_nil [] h rfl)
    (fun _ h ↦ h.append ['\n']) (isBreak_zero t).isBoundary
  rw [matchesOf, ← hscan, matchesOf, List.map_map]
  refine List.map_congr_left fun span hspan ↦ ?_
  obtain ⟨_, hfind⟩ := Anchor.find?_of_mem_findAll hspan
  obtain ⟨hstart, hstop, -⟩ := Anchor.find?_spec hfind
  simp only [Anchor.align, Match.ended, Function.comp_apply, lineStart_append hstart,
    lineEnd_newline hopen hstop]

variable (hanchors : ∀ edit ∈ edits, ∀ anchor ∈ edit.anchors, '\n' ∉ anchor)

include hanchors

/-- The claims of the edits are those in the text without the newline. -/
theorem claimsFrom_newline (index : Nat) :
    claimsFrom (t ++ ['\n']) index edits =
      (claimsFrom t index edits).map fun claim ↦ (claim.1, claim.2.ended t) := by
  induction edits generalizing index with
  | nil => rfl
  | cons edit rest ih =>
      obtain ⟨hedit, hrest⟩ := List.forall_mem_cons.mp hanchors
      rw [claimsFrom, claimsFrom, ih hrest, matchesOf_newline hopen hedit]
      simp [Function.comp_def]

/-- The edits can be planned when they can be planned in the text without the newline. -/
theorem ofEdits_newline_iff :
    (∃ plan, ofEdits (t ++ ['\n']) edits = .ok plan) ↔ ∃ plan, ofEdits t edits = .ok plan := by
  have hcounts : ∀ edit ∈ edits,
      (matchesOf (t ++ ['\n']) edit).length = (matchesOf t edit).length := by
    intro edit hedit
    rw [matchesOf_newline hopen (hanchors edit hedit), List.length_map]
  rw [ofEdits_ok_iff, ofEdits_ok_iff, claimsFrom_newline hopen hanchors]
  refine and_congr (forall₂_congr fun edit hedit ↦ by rw [hcounts edit hedit]) ?_
  -- claims begin where they did and are of the same edits
  simp only [Separate, List.forall_mem_map]
  exact Iff.rfl

/-- The same spans are planned as in the text without the newline, but for those that go on to the
end of the text. -/
theorem planned_newline_iff {span : PlannedSpan} (hspan : span.stop ≤ size t) :
    Planned (claimsFrom (t ++ ['\n']) 0 edits) (span.ended t) ↔
      Planned (claimsFrom t 0 edits) span := by
  have hclaims : ∀ {i lines}, (i, lines) ∈ claimsFrom t 0 edits → lines.stop ≤ size t := by
    intro i lines hclaim
    obtain ⟨k, edit, -, -, hlines⟩ := mem_claimsFrom.mp hclaim
    exact (isLineRun_match hlines).isBreak_stop.le_size
  rw [claimsFrom_newline hopen hanchors]
  constructor
  · rintro ⟨⟨lines', hclaim', hstart, hstop⟩, hlargest⟩
    obtain ⟨⟨i, lines⟩, hclaim, heq⟩ := List.mem_map.mp hclaim'
    cases heq
    have hle := hclaims hclaim
    refine ⟨⟨lines, hclaim, hstart, ?_⟩, fun other hother hbegin ↦ ?_⟩
    · have hsame : t.endedStop lines.stop = t.endedStop span.stop := hstop
      refine Nat.le_antisymm ((endedStop_le_iff hle hspan).mp (Nat.le_of_eq hsame)) ?_
      exact (endedStop_le_iff hspan hle).mp (Nat.le_of_eq hsame.symm)
    · refine (endedStop_le_iff (hclaims hother) hspan).mp ?_
      exact hlargest (other.ended t) (List.mem_map.mpr ⟨_, hother, rfl⟩) hbegin
  · rintro ⟨⟨lines, hclaim, hstart, hstop⟩, hlargest⟩
    refine ⟨⟨lines.ended t, List.mem_map.mpr ⟨_, hclaim, rfl⟩, hstart, ?_⟩, ?_⟩
    · exact congrArg t.endedStop hstop
    · intro lines' hclaim' hbegin
      obtain ⟨⟨i, other⟩, hother, heq⟩ := List.mem_map.mp hclaim'
      cases heq
      exact (endedStop_le_iff (hclaims hother) hspan).mpr (hlargest other hother hbegin)

/-- The plan has the spans of the plan for the text without the newline, but for those that go on to
the end of the text. -/
theorem spans_newline {plan plan' : Plan} (hplan : ofEdits t edits = .ok plan)
    (hplan' : ofEdits (t ++ ['\n']) edits = .ok plan') :
    plan'.spans = plan.spans.map (PlannedSpan.ended t) := by
  have hwithin : ∀ span ∈ plan.spans, span.stop ≤ size t :=
    fun span hspan ↦ (isLineRun_span hplan hspan).isBreak_stop.le_size
  have hforward : ∀ span ∈ plan.spans, span.ended t ∈ plan'.spans := fun span hspan ↦
    (mem_spans_iff hplan').mpr ((planned_newline_iff hopen hanchors (hwithin span hspan)).mpr
      ((mem_spans_iff hplan).mp hspan))
  refine ordered_eq_map (ofEdits_accounts hplan).ordered (ofEdits_accounts hplan').ordered
    (fun _ ↦ rfl) hforward fun span' hspan' ↦ ?_
  -- the span goes back to a match, which has a span in the plan for the text without the newline
  obtain ⟨lines', hclaim', hstart', -⟩ := (ofEdits_accounts hplan').claimed span' hspan'
  rw [claimsFrom_newline hopen hanchors] at hclaim'
  obtain ⟨⟨i, lines⟩, hclaim, heq⟩ := List.mem_map.mp hclaim'
  cases heq
  obtain ⟨span, hspan, -, hstart, -⟩ := (ofEdits_accounts hplan).covered _ hclaim
  exact ⟨span, hspan, hstart.trans hstart'⟩

end Planning

/-! ## Rendering -/

/-- Spans of lines fit when they fit in the text without the newline. -/
theorem fits_newline_iff {cursor : Nat} {spans : List PlannedSpan} (hcursor : cursor ≤ size t)
    (hspans : ∀ span ∈ spans, IsLineRun t span.start span.stop) :
    Fits (t.endedStop cursor) (spans.map (PlannedSpan.ended t)) ↔ Fits cursor spans := by
  induction spans generalizing cursor with
  | nil => exact Iff.rfl
  | cons span rest ih =>
      obtain ⟨hrun, hrest⟩ := List.forall_mem_cons.mp hspans
      have hlt := hrun.lt
      have hle := hrun.isBreak_stop.le_size
      -- no span begins at the end of the text
      have hstart : t.endedStop span.start = span.start := endedStop_of_lt (by omega)
      have horder : t.endedStop cursor ≤ t.endedStop span.start ↔ cursor ≤ span.start :=
        endedStop_le_iff hcursor (by omega)
      rw [hstart] at horder
      exact and_congr horder (ih hle hrest)

/-- The rows of an edit depend on the lines that it matched, not on whether the last one is
ended. -/
theorem spanRows_congr (owner : Namespace) (edit : Edit) {matched matched' : Text}
    (h : bodies matched = bodies matched') :
    spanRows owner edit matched = spanRows owner edit matched' := by
  simp only [spanRows, bodyRows, bareRows, disabledRows, h]

/-- Spans that fit have the rows that they have in the text without the newline. -/
theorem rowsFrom_newline (hopen : endsWithNewline t = false) (edits : List Edit)
    (owner : Namespace) {cursor : Nat} {spans : List PlannedSpan} (hcursor : IsBoundary t cursor)
    (hfits : Fits cursor spans) (hspans : ∀ span ∈ spans, IsLineRun t span.start span.stop) :
    rowsFrom (t ++ ['\n']) edits owner (t.endedStop cursor) (spans.map (PlannedSpan.ended t)) =
      rowsFrom t edits owner cursor spans := by
  induction spans generalizing cursor with
  | nil => exact congrArg (List.map Row.bare) (bodies_dropBytes_newline hopen hcursor)
  | cons span rest ih =>
      obtain ⟨hrun, hrest⟩ := List.forall_mem_cons.mp hspans
      obtain ⟨hle, hfits'⟩ := hfits
      have hstart := hrun.isBreak_start.isBoundary
      have hstop := hrun.isBreak_stop.isBoundary
      have hlt := Nat.lt_of_lt_of_le hrun.lt hrun.isBreak_stop.le_size
      have hgap : bareRows (slice (t ++ ['\n']) (t.endedStop cursor) span.start) =
          bareRows (slice t cursor span.start) := by
        rw [endedStop_of_lt (by omega)]
        obtain ⟨front, middle, back, rfl, rfl, hsize, hslice⟩ := exists_parts hcursor hstart hle
        rw [hslice, ← hsize, List.append_assoc _ back, slice_append]
      have hspan : ∀ edit, spanRows owner edit (slice (t ++ ['\n']) span.start
          (t.endedStop span.stop)) = spanRows owner edit (slice t span.start span.stop) :=
        fun edit ↦ spanRows_congr owner edit (bodies_slice_newline hopen hstart hstop hrun.lt)
      rw [List.map_cons, rowsFrom, rowsFrom]
      show bareRows (slice _ _ span.start) ++ (edits[span.owner]?.toList.flatMap fun edit ↦
        spanRows owner edit (slice _ span.start (t.endedStop span.stop))) ++ rowsFrom _ _ _
          (t.endedStop span.stop) _ = _
      rw [hgap, ih hstop hfits' hrest]
      simp only [hspan]

section Rendering

variable {plan plan' : Plan} {style : Style} {owner : Namespace}

/-- A plan for a text that is not empty is rendered with a row. -/
theorem rowsFrom_ne_nil (hne : t ≠ []) {result : Text} (hplan : ofEdits t edits = .ok plan)
    (h : plan.render t edits (style.markers owner) = .ok result) :
    rowsFrom t edits owner 0 plan.spans ≠ [] := by
  obtain ⟨sheet, hrows, -, -⟩ := exists_sheet_of_render hplan h
  intro hnone
  have horiginals := sheet.originals
  rw [hrows, hnone, List.filterMap_nil] at horiginals
  exact hne (bodies_eq_nil_iff.mp horiginals.symm)

/-- What is rendered ends with a newline when the text does. -/
theorem endsWithNewline_of_render (hstyle : style.fault? = none) {result : Text}
    (hplan : ofEdits t edits = .ok plan)
    (h : plan.render t edits (style.markers owner) = .ok result) :
    endsWithNewline result = endsWithNewline t := by
  obtain ⟨sheet, -, rfl, -⟩ := exists_sheet_of_render hplan h
  exact sheet.endsWithNewline_text hstyle

variable (hne : t ≠ []) (hopen : endsWithNewline t = false)
  (hanchors : ∀ edit ∈ edits, ∀ anchor ∈ edit.anchors, '\n' ∉ anchor)

include hne hopen hanchors

/-- The plan is rendered when the plan for the text without the newline is. -/
theorem exists_render_newline_iff (markers : Markers) (hplan : ofEdits t edits = .ok plan)
    (hplan' : ofEdits (t ++ ['\n']) edits = .ok plan') :
    (∃ result, plan'.render (t ++ ['\n']) edits markers = .ok result) ↔
      ∃ result, plan.render t edits markers = .ok result := by
  have hfits := fits_newline_iff (Nat.zero_le (size t)) fun span hspan ↦
    isLineRun_span hplan hspan
  rw [endedStop_of_lt (size_pos hne)] at hfits
  rw [render_ok_iff markers hplan', render_ok_iff markers hplan,
    spans_newline hopen hanchors hplan hplan', hfits]

/-- The plan is rendered to the text that the plan for the text without the newline is rendered to,
and a newline. -/
theorem render_newline_iff (hplan : ofEdits t edits = .ok plan)
    (hplan' : ofEdits (t ++ ['\n']) edits = .ok plan') {result' : Text} :
    plan'.render (t ++ ['\n']) edits (style.markers owner) = .ok result' ↔
      ∃ result, plan.render t edits (style.markers owner) = .ok result ∧
        result' = result ++ ['\n'] := by
  have hsame : ∀ {result result'}, plan.render t edits (style.markers owner) = .ok result →
      plan'.render (t ++ ['\n']) edits (style.markers owner) = .ok result' →
      result' = result ++ ['\n'] := by
    intro result result' h h'
    have hspans : ∀ span ∈ plan.spans, IsLineRun t span.start span.stop :=
      fun span hspan ↦ isLineRun_span hplan hspan
    have hrows := rowsFrom_newline hopen edits owner (isBreak_zero t).isBoundary
      (fits_of_render h) hspans
    have hsome := rowsFrom_ne_nil hne hplan h
    rw [endedStop_of_lt (size_pos hne), ← spans_newline hopen hanchors hplan hplan'] at hrows
    rw [render_rows h' fun span hspan ↦ isLineRun_span hplan' hspan, hrows, render_rows h hspans,
      hopen, endsWithNewline_iff.mpr ⟨t, rfl⟩]
    exact assemble_closed (mt List.map_eq_nil_iff.mp hsome)
  have hboth := exists_render_newline_iff hne hopen hanchors (style.markers owner) hplan hplan'
  constructor
  · intro h'
    obtain ⟨result, h⟩ := hboth.mp ⟨result', h'⟩
    exact ⟨result, h, hsame h h'⟩
  · rintro ⟨result, h, rfl⟩
    obtain ⟨result', h'⟩ := hboth.mpr ⟨result, h⟩
    rw [h', hsame h h']

end Rendering

/-- For edits whose anchors hold no newline it makes no difference whether the text is ended by a
newline: either way they can be planned or not, and their plans rendered or not, and then the texts
they lead to are the same up to a newline at the end. What is rendered ends with a newline exactly
when the text does, whatever the anchors hold. -/
theorem ending_kept {style : Style} (hstyle : style.fault? = none) (owner : Namespace) {t : Text}
    (hne : t ≠ []) (hopen : endsWithNewline t = false) {edits : List Edit}
    (hanchors : ∀ edit ∈ edits, ∀ anchor ∈ edit.anchors, '\n' ∉ anchor) :
    let ended := t ++ ['\n']
    let markers := style.markers owner
    ((∃ plan, ofEdits t edits = .ok plan) ↔ ∃ plan, ofEdits ended edits = .ok plan) ∧
    (∀ plan plan', ofEdits t edits = .ok plan → ofEdits ended edits = .ok plan' →
      ((∃ result, plan.render t edits markers = .ok result) ↔
        ∃ result, plan'.render ended edits markers = .ok result) ∧
      ∀ result', plan'.render ended edits markers = .ok result' ↔
        ∃ result, plan.render t edits markers = .ok result ∧ result' = result ++ ['\n']) ∧
    (∀ plan result, ofEdits t edits = .ok plan → plan.render t edits markers = .ok result →
      endsWithNewline result = false) ∧
    ∀ (whole : Text) (others : List Edit) (plan : Plan) (result : Text),
      endsWithNewline whole = true → ofEdits whole others = .ok plan →
      plan.render whole others markers = .ok result → endsWithNewline result = true := by
  intro ended markers
  refine ⟨(ofEdits_newline_iff hopen hanchors).symm, fun plan plan' hplan hplan' ↦ ⟨?_, ?_⟩, ?_, ?_⟩
  · exact (exists_render_newline_iff hne hopen hanchors markers hplan hplan').symm
  · exact fun result' ↦ render_newline_iff hne hopen hanchors hplan hplan'
  · intro plan result hplan h
    rw [endsWithNewline_of_render hstyle hplan h, hopen]
  · intro whole others plan result hwhole hplan h
    rw [endsWithNewline_of_render hstyle hplan h, hwhole]

/-- The last line is replaced and a line is inserted behind it, and the text ends as it did. -/
theorem ending_kept_replaced :
    let owner : Namespace := ⟨['a'], by simp, List.forall_mem_singleton.mpr rfl⟩
    let edits : List Edit :=
      [{ anchors := [['x'], ['y']], anchors_ne_nil := by simp, anchor_ne_nil := by simp
         replacement := .substitute "z\n".toList, after := ['w'] }]
    let t := "v\nx y".toList
    let composed := "v\n# - PL:a - # x y\n# + PL:a + # z\n# + PL:a + # w".toList
    Style.hash.fault? = none ∧ t ≠ [] ∧ endsWithNewline t = false ∧
      (∀ edit ∈ edits, ∀ anchor ∈ edit.anchors, '\n' ∉ anchor) ∧
      ∃ plan, ofEdits (t ++ ['\n']) edits = .ok plan ∧
        plan.render (t ++ ['\n']) edits (Style.hash.markers owner) = .ok (composed ++ ['\n']) := by
  intro owner edits t composed
  have hstyle : Style.hash.fault? = none := by decide
  have hne : t ≠ [] := by
    simp only [t]
    decide
  have hopen : endsWithNewline t = false := by
    simp only [t]
    decide
  have hanchors : ∀ edit ∈ edits, ∀ anchor ∈ edit.anchors, '\n' ∉ anchor := by
    simp only [edits]
    decide
  obtain ⟨hplans, hrenders, -, -⟩ := ending_kept hstyle owner hne hopen hanchors
  have hplan : ofEdits t edits = .ok ⟨[⟨2, 5, 0⟩], [⟨[⟨2, 5, "x y".toList⟩], none⟩]⟩ := by
    simp only [t, edits]
    decide +kernel
  have hrender : Plan.render t edits ⟨[⟨2, 5, 0⟩], [⟨[⟨2, 5, "x y".toList⟩], none⟩]⟩
      (Style.hash.markers owner) = .ok composed := by
    simp only [t, edits, owner, composed]
    decide +kernel
  obtain ⟨plan', hplan'⟩ := hplans.mp ⟨_, hplan⟩
  refine ⟨hstyle, hne, hopen, hanchors, plan', hplan', ?_⟩
  exact ((hrenders _ plan' hplan hplan').2 _).mpr ⟨composed, hrender, rfl⟩

end Plan

end MarkedEdits
