import Mathlib.Order.Bounds.Defs
import MarkedEdits.Proofs.Plan.Acceptance

/-!
# What a plan holds

A plan that is made tells the matches of every edit, and its spans are what these matches come to:
where an edit has matches that begin with one line, the plan has a span of that edit that reaches to
the end of the longest of them, and it has no other span. All spans are runs of whole lines, no two
edits have matches that begin with one line, and every edit has as many matches as it may have. The
main statement is `ofEdits_faithful`.
-/

namespace MarkedEdits

open Text

/-- The match tells the part of the text that lies between its ends. -/
def Match.Quotes (lines : Match) (t : Text) : Prop :=
  ∃ before after, t = before ++ lines.text ++ after ∧ size before = lines.start ∧
    size before + size lines.text = lines.stop

/-- The ends of the matches that begin at an offset. -/
def MatchResult.endsFrom (result : MatchResult) (start : Nat) : Set Nat :=
  {stop | ∃ lines ∈ result.found, lines.start = start ∧ lines.stop = stop}

namespace Plan

/-- The plan tells what the edits match in the text, and its spans are what the matches of each edit
come to. -/
structure Faithful (t : Text) (edits : List Edit) (plan : Plan) : Prop where
  one_each : plan.results.length = edits.length
  error_free : ∀ result ∈ plan.results, result.error = none
  matched : ∀ (i : Nat) (edit : Edit) (result : MatchResult), edits[i]? = some edit →
    plan.results[i]? = some result → result.found = matchesOf t edit
  quoted : ∀ result ∈ plan.results, ∀ lines ∈ result.found, lines.Quotes t
  admitted : ∀ (i : Nat) (edit : Edit) (result : MatchResult), edits[i]? = some edit →
    plan.results[i]? = some result → edit.Admits result.found.length
  proper : ∀ span ∈ plan.spans, span.start < span.stop
  begins : ∀ span ∈ plan.spans, span.start = 0 ∨ AfterNewline t span.start
  ends : ∀ span ∈ plan.spans, span.stop = size t ∨ AfterNewline t span.stop
  owned : ∀ span ∈ plan.spans, span.owner < edits.length
  distinct : plan.spans.Pairwise (·.start < ·.start)
  planned : ∀ (i : Nat) (result : MatchResult), plan.results[i]? = some result →
    ∀ lines ∈ result.found, ∃ span ∈ plan.spans, span.owner = i ∧ span.start = lines.start
  reached : ∀ span, span ∈ plan.spans ↔ ∃ result,
    plan.results[span.owner]? = some result ∧ IsGreatest (result.endsFrom span.start) span.stop
  separate : ∀ (i j : Nat) (result other : MatchResult), plan.results[i]? = some result →
    plan.results[j]? = some other → ∀ a ∈ result.found, ∀ b ∈ other.found,
      a.start = b.start → i = j

variable {t : Text} {edits : List Edit} {plan : Plan}

/-- The text of a match of an edit is cut out of the text at its ends. -/
theorem text_of_mem_matchesOf {edit : Edit} {lines : Match} (h : lines ∈ matchesOf t edit) :
    lines.text = t.slice lines.start lines.stop := by
  obtain ⟨raw, -, rfl⟩ := List.mem_map.mp h
  rfl

/-- A match of an edit tells the text between its ends. -/
theorem quotes_of_mem_matchesOf {edit : Edit} {lines : Match} (h : lines ∈ matchesOf t edit) :
    lines.Quotes t := by
  have hrun := isLineRun_match h
  obtain ⟨before, middle, after, ht, hstart, hstop, hslice⟩ :=
    exists_parts hrun.isBreak_start.isBoundary hrun.isBreak_stop.isBoundary (Nat.le_of_lt hrun.lt)
  rw [← hslice, ← text_of_mem_matchesOf h] at ht hstop
  exact ⟨before, after, ht, hstart, hstop⟩

/-- The plan has a result for an edit at its position. -/
theorem results_getElem?_iff (h : ofEdits t edits = .ok plan) {i : Nat} {result : MatchResult} :
    plan.results[i]? = some result ↔
      ∃ edit, edits[i]? = some edit ∧ result = ⟨matchesOf t edit, none⟩ := by
  rw [ofEdits_results h, List.getElem?_map, Option.map_eq_some_iff]
  simp only [eq_comm]

/-- The claims of the edits are the matches that the results tell. -/
theorem mem_claimsFrom_iff_result (h : ofEdits t edits = .ok plan) {i : Nat} {lines : Match} :
    (i, lines) ∈ claimsFrom t 0 edits ↔
      ∃ result, plan.results[i]? = some result ∧ lines ∈ result.found := by
  simp only [mem_claimsFrom, results_getElem?_iff h, Nat.zero_add]
  constructor
  · rintro ⟨k, edit, rfl, hedit, hlines⟩
    exact ⟨_, ⟨edit, hedit, rfl⟩, hlines⟩
  · rintro ⟨_, ⟨edit, hedit, rfl⟩, hlines⟩
    exact ⟨i, edit, rfl, hedit, hlines⟩

/-- A span is planned when it reaches to the end of the longest match of its edit that begins where
it begins. -/
theorem planned_iff_isGreatest (h : ofEdits t edits = .ok plan) {span : PlannedSpan} :
    Planned (claimsFrom t 0 edits) span ↔ ∃ result,
      plan.results[span.owner]? = some result ∧
        IsGreatest (result.endsFrom span.start) span.stop := by
  constructor
  · rintro ⟨⟨lines, hclaim, hends⟩, hlargest⟩
    obtain ⟨result, hresult, hlines⟩ := (mem_claimsFrom_iff_result h).mp hclaim
    refine ⟨result, hresult, ⟨lines, hlines, hends⟩, ?_⟩
    rintro stop ⟨other, hother, hstart, rfl⟩
    exact hlargest other ((mem_claimsFrom_iff_result h).mpr ⟨result, hresult, hother⟩) hstart
  · rintro ⟨result, hresult, ⟨lines, hlines, hends⟩, hgreatest⟩
    refine ⟨⟨lines, (mem_claimsFrom_iff_result h).mpr ⟨result, hresult, hlines⟩, hends⟩, ?_⟩
    intro other hclaim hstart
    obtain ⟨result', hresult', hother⟩ := (mem_claimsFrom_iff_result h).mp hclaim
    obtain rfl : result = result' := Option.some.inj (hresult.symm.trans hresult')
    exact hgreatest ⟨other, hother, hstart, rfl⟩

/-- A plan that is made is faithful to the text and the edits. -/
theorem ofEdits_faithful (h : ofEdits t edits = .ok plan) : plan.Faithful t edits where
  one_each := by
    rw [ofEdits_results h, List.length_map]
  error_free := by
    intro result hresult
    rw [ofEdits_results h] at hresult
    obtain ⟨edit, -, rfl⟩ := List.mem_map.mp hresult
    rfl
  matched := by
    intro i edit result hedit hresult
    obtain ⟨edit', hedit', rfl⟩ := (results_getElem?_iff h).mp hresult
    rw [Option.some.inj (hedit.symm.trans hedit')]
  quoted := by
    intro result hresult lines hlines
    rw [ofEdits_results h] at hresult
    obtain ⟨edit, -, rfl⟩ := List.mem_map.mp hresult
    exact quotes_of_mem_matchesOf hlines
  admitted := by
    intro i edit result hedit hresult
    obtain ⟨edit', hedit', rfl⟩ := (results_getElem?_iff h).mp hresult
    obtain rfl : edit = edit' := Option.some.inj (hedit.symm.trans hedit')
    exact (ofEdits_ok_iff.mp ⟨plan, h⟩).1 edit (List.mem_of_getElem? hedit)
  proper := fun span hspan ↦ (isLineRun_span h hspan).lt
  begins := fun span hspan ↦ (isLineRun_span h hspan).ends.1
  ends := fun span hspan ↦ (isLineRun_span h hspan).ends.2
  owned := by
    intro span hspan
    obtain ⟨edit, hedit⟩ := exists_edit_of_span h hspan
    exact (List.getElem?_eq_some_iff.mp hedit).1
  distinct := (ofEdits_accounts h).ordered
  planned := by
    intro i result hresult lines hlines
    obtain ⟨edit, hedit, rfl⟩ := (results_getElem?_iff h).mp hresult
    obtain ⟨span, hspan, howner, hstart, -⟩ := exists_span_of_match h hedit hlines
    exact ⟨span, hspan, howner, hstart⟩
  reached := fun span ↦ (mem_spans_iff h).trans (planned_iff_isGreatest h)
  separate := by
    intro i j result other hresult hother a ha b hb hstart
    have hfirst := (mem_claimsFrom_iff_result h).mpr ⟨result, hresult, ha⟩
    have hsecond := (mem_claimsFrom_iff_result h).mpr ⟨other, hother, hb⟩
    exact (ofEdits_ok_iff.mp ⟨plan, h⟩).2 _ hfirst _ hsecond hstart

/-- Two matches that begin with one line and end with different ones come to one span that reaches
to the later end. -/
theorem ofEdits_faithful_joined :
    let first : Edit :=
      { anchors := [['a'], ['b']], anchors_ne_nil := by simp, anchor_ne_nil := by simp
        allowMultiple := true }
    let second : Edit :=
      { anchors := [['w']], anchors_ne_nil := by simp, anchor_ne_nil := by simp }
    let t := "a b a\nb\nw".toList
    let plan : Plan :=
      { spans := [⟨0, 8, 0⟩, ⟨8, 9, 1⟩]
        results := [⟨[⟨0, 6, "a b a\n".toList⟩, ⟨0, 8, "a b a\nb\n".toList⟩], none⟩,
          ⟨[⟨8, 9, "w".toList⟩], none⟩] }
    ofEdits t [first, second] = .ok plan ∧ plan.Faithful t [first, second] := by
  intro first second t plan
  have hplan : ofEdits t [first, second] = .ok plan := by
    simp only [first, second, t, plan]
    decide +kernel
  exact ⟨hplan, ofEdits_faithful hplan⟩

end Plan

end MarkedEdits
