import MarkedEdits.Proofs.Plan.Failure
import MarkedEdits.Proofs.Plan.Inert

/-!
# Planning edit by edit

Edits are planned one after the other, on top of the claims of the edits before. So what a plan says
of the first edits is the plan for them alone, and a failure is that of the first edit that cannot
be planned, whatever comes behind it. `Stops` tells the ways in which an edit stops the planning,
each with the matches that it has recorded by then. The main statement is `ofEdits_stages`.
-/

namespace MarkedEdits

open Text

namespace Plan

/-- The edit stops the planning, when the edits before it have made the claims. It has recorded its
matches up to the one that is in the way, and comes to the error: no match, a second match, or a
match that begins where another edit has a claim. -/
inductive Stops (t : Text) (claims : List (Nat × Match)) (index : Nat) (edit : Edit) :
    List Match → EditError → Prop
  | missing (hmatches : matchesOf t edit = []) (hzero : edit.allowZero = false) :
      Stops t claims index edit []
        (.noMatch index (edit.anchors.head?.bind (suggestLine t)))
  | exceeding {first second : Match} {behind : List Match}
      (hmatches : matchesOf t edit = first :: second :: behind)
      (hfree : ∀ lines ∈ [first, second], Free claims index lines.start)
      (hmultiple : edit.allowMultiple = false) :
      Stops t claims index edit [first, second] (.multipleMatches index 2)
  | colliding {before behind : List Match} {last : Match} {other : Nat}
      (hmatches : matchesOf t edit = before ++ last :: behind)
      (hfree : ∀ lines ∈ before, Free claims index lines.start)
      (hmultiple : before.length ≤ 1 ∨ edit.allowMultiple = true) (hother : other ≠ index)
      (hclaimed : ∃ lines, (other, lines) ∈ claims ∧ lines.start = last.start) :
      Stops t claims index edit (before ++ [last]) (.collision index other last.start)

/-- The planning fails at the edit in position `k`. The edits before it are planned by themselves,
their results are the first of those that the failure carries, and the only result with an error is
the last one. It does not matter which edits follow. -/
structure FailsAt (t : Text) (edits : List Edit) (failure : PlanFailure) (k : Nat) : Prop where
  index : failure.error.index? = some k
  length : failure.results.length = k + 1
  planned : ∃ plan, ofEdits t (edits.take k) = .ok plan ∧ plan.results = failure.results.take k
  error_free : ∀ result ∈ failure.results.take k, result.error = none
  stopped : ∃ edit result, edits[k]? = some edit ∧ failure.results[k]? = some result ∧
    result.error = some failure.error ∧
    Stops t (claimsFrom t 0 (edits.take k)) k edit result.found failure.error
  final : ∀ more, ofEdits t (edits.take (k + 1) ++ more) = .error failure

variable {t : Text} {edits : List Edit} {claims : List (Nat × Match)} {index : Nat} {edit : Edit}

/-! ## One edit -/

/-- Claims of the edit itself are not in its way. -/
theorem free_append_map {found : List Match} {start : Nat} :
    Free (claims ++ found.map (index, ·)) index start ↔ Free claims index start := by
  constructor
  · exact fun h claim hclaim ↦ h claim (List.mem_append_left _ hclaim)
  · intro h
    refine List.forall_mem_append.mpr ⟨h, fun claim hclaim _ ↦ ?_⟩
    obtain ⟨lines, -, rfl⟩ := List.mem_map.mp hclaim
    rfl

/-- When the claims of an edit fail, it stops the planning, with the matches that it has found
before and those up to the failure. -/
theorem claimAll_stops {found found' remaining : List Match} {spans : List PlannedSpan}
    {error : EditError} (hmatches : matchesOf t edit = found ++ remaining)
    (hacc : Accounts (claims ++ found.map (index, ·)) spans)
    (hfree : ∀ lines ∈ found, Free claims index lines.start)
    (hcount : found.length ≤ 1 ∨ edit.allowMultiple = true)
    (h : claimAll t index edit found spans remaining = .error (error, found')) :
    Stops t claims index edit found' error := by
  induction remaining generalizing found spans with
  | nil =>
      simp only [claimAll] at h
      split at h
      · next hnone =>
          cases h
          obtain ⟨rfl, hzero⟩ := hnone
          exact .missing hmatches hzero
      · cases h
  | cons next rest ih =>
      simp only [claimAll] at h
      split at h
      · next other hclaim =>
          cases h
          obtain ⟨hne, taken, htaken, rfl, hstart⟩ := claim_error hclaim
          -- the span of another edit goes back to a claim that was made before
          obtain ⟨lines, hlines, hbegin, -⟩ := hacc.claimed taken htaken
          refine .colliding hmatches hfree hcount hne ⟨lines, ?_, hbegin.trans hstart⟩
          rcases List.mem_append.mp hlines with hold | hown
          · exact hold
          · obtain ⟨_, -, heq⟩ := List.mem_map.mp hown
            exact absurd (Prod.mk.inj heq).1.symm hne
      · next spans' hclaim =>
          have hnext : Free claims index next.start :=
            free_append_map.mp ((hacc.claim_ok_iff _).mp ⟨spans', hclaim⟩)
          have hfree' : ∀ lines ∈ found ++ [next], Free claims index lines.start := by
            intro lines hlines
            rcases List.mem_append.mp hlines with hold | hlast
            · exact hfree lines hold
            · rwa [List.mem_singleton.mp hlast]
          split at h
          · next hmany =>
              obtain ⟨hlong, hmultiple⟩ := hmany
              cases h
              -- there may be one match before, so the next one is the second
              rw [hmultiple] at hcount
              rw [List.length_append, List.length_singleton] at hlong
              have hone : found.length = 1 := by
                simp only [Bool.false_eq_true, or_false] at hcount
                omega
              obtain ⟨first, rfl⟩ := List.length_eq_one_iff.mp hone
              exact .exceeding hmatches hfree' hmultiple
          · next hfew =>
              refine ih (by simpa using hmatches) ?_ hfree' ?_ h
              · simpa using hacc.claim hclaim
              · rwa [not_and_or, Nat.not_lt, Bool.not_eq_false] at hfew

/-- The error that stops the planning is about the edit. -/
theorem Stops.index_eq {found : List Match} {error : EditError}
    (h : Stops t claims index edit found error) : error.index? = some index := by
  cases h <;> rfl

/-! ## All edits -/

/-- When edits cannot be planned, one of them stops the planning, behind the plan for those before
it. -/
theorem ofEdits_error_split {failure : PlanFailure} (h : ofEdits t edits = .error failure) :
    ∃ before edit behind plan found, edits = before ++ edit :: behind ∧
      ofEdits t before = .ok plan ∧
      failure.results = plan.results ++ [⟨found, some failure.error⟩] ∧
      Stops t (claimsFrom t 0 before) before.length edit found failure.error ∧
      ∀ more, ofEdits t (before ++ edit :: more) = .error failure := by
  obtain ⟨before, edit, behind, plan, found, rfl, hbefore, hstop, hresults⟩ :=
    extend_error_split h
  rw [Nat.zero_add] at hstop
  have hacc := ofEdits_accounts hbefore
  refine ⟨before, edit, behind, plan, found, rfl, hbefore, hresults, ?_, fun more ↦ ?_⟩
  · have hnone : matchesOf t edit = [] ++ matchesOf t edit := rfl
    exact claimAll_stops hnone (by simpa using hacc) (by simp) (.inl (by simp)) hstop
  · unfold ofEdits
    rw [extend_append, hbefore]
    simp only [Except.bind, extend, Nat.zero_add, hstop, ← hresults]

/-- When edits can be planned, but not with others behind them, one of the others stops the
planning. -/
theorem ofEdits_error_behind {more : List Edit} {plan : Plan} {failure : PlanFailure}
    (hplan : ofEdits t edits = .ok plan) (h : ofEdits t (edits ++ more) = .error failure) :
    ∃ done edit behind plan' found, more = done ++ edit :: behind ∧
      ofEdits t (edits ++ done) = .ok plan' ∧
      failure.results = plan'.results ++ [⟨found, some failure.error⟩] ∧
      Stops t (claimsFrom t 0 edits ++ claimsFrom t edits.length done)
        (edits.length + done.length) edit found failure.error := by
  obtain ⟨before, edit, behind, plan', found, hsplit, hbefore, hresults, hstops, hfinal⟩ :=
    ofEdits_error_split h
  -- the planning does not stop within the first edits
  obtain ⟨done, rfl, rfl⟩ : ∃ done, before = edits ++ done ∧ more = done ++ edit :: behind := by
    rcases List.append_eq_append_iff.mp hsplit with ⟨done, hdone⟩ | ⟨left, hleft, hright⟩
    · exact ⟨done, hdone⟩
    · cases left with
      | nil => exact ⟨[], by simpa using hleft.symm, hright.symm⟩
      | cons other left =>
          obtain ⟨rfl, -⟩ := List.cons.inj hright
          rw [hleft, hfinal left] at hplan
          cases hplan
  rw [claimsFrom_append, Nat.zero_add, List.length_append] at hstops
  exact ⟨done, edit, behind, plan', found, rfl, hbefore, hresults, hstops⟩

/-- The first edits are planned by themselves when all are, with the results and the spans that they
have in the plan for all. -/
theorem ofEdits_take {plan : Plan} (h : ofEdits t edits = .ok plan) (n : Nat) :
    ofEdits t (edits.take n) = .ok ⟨plan.spans.filter (·.owner < n), plan.results.take n⟩ := by
  have hall : ofEdits t (edits.take n ++ edits.drop n) = .ok plan := by
    rwa [List.take_append_drop]
  obtain ⟨first, hfirst⟩ : ∃ first, ofEdits t (edits.take n) = .ok first := by
    cases hfirst : ofEdits t (edits.take n) with
    | ok first => exact ⟨first, rfl⟩
    | error failure =>
        unfold ofEdits at hall hfirst
        rw [extend_append, hfirst] at hall
        cases hall
  have hspans : plan.spans.filter (·.owner < n) = first.spans := by
    rw [← spans_eq_filter hfirst hall]
    refine List.filter_congr fun span hspan ↦ ?_
    have howner := (List.getElem?_eq_some_iff.mp (exists_edit_of_span h hspan).choose_spec).1
    rw [List.length_take]
    simp [howner]
  have hresults : plan.results.take n = first.results := by
    rw [ofEdits_results h, ofEdits_results hfirst, List.map_take]
  rw [hfirst, hspans, hresults]

/-- The results of a failure have an error where the planning failed and nowhere else. -/
theorem FailsAt.error_at {failure : PlanFailure} {k : Nat} (h : FailsAt t edits failure k)
    (i : Nat) :
    failure.results[i]?.bind (·.error) = if i = k then some failure.error else none := by
  rcases Nat.lt_trichotomy i k with hlt | rfl | hgt
  · have hi : i < failure.results.length := by
      rw [h.length]
      omega
    have hmem : failure.results[i] ∈ failure.results.take k :=
      List.mem_take_iff_getElem.mpr ⟨i, by omega, rfl⟩
    rw [List.getElem?_eq_getElem hi, Option.bind_some, h.error_free _ hmem,
      if_neg (Nat.ne_of_lt hlt)]
  · obtain ⟨_, result, -, hresult, herror, -⟩ := h.stopped
    rw [hresult, Option.bind_some, herror, if_pos rfl]
  · have hbehind : failure.results.length ≤ i := by
      rw [h.length]
      exact hgt
    rw [List.getElem?_eq_none hbehind, Option.bind_none, if_neg (Nat.ne_of_gt hgt)]

/-- When edits cannot be planned, the planning fails at one of them. -/
theorem exists_failsAt {failure : PlanFailure} (h : ofEdits t edits = .error failure) :
    ∃ k, k < edits.length ∧ FailsAt t edits failure k := by
  obtain ⟨before, edit, behind, plan, found, rfl, hbefore, hresults, hstops, hfinal⟩ :=
    ofEdits_error_split h
  have hlength : plan.results.length = before.length := by
    rw [ofEdits_results hbefore, List.length_map]
  have htake : failure.results.take before.length = plan.results := by
    rw [hresults, ← hlength, List.take_left]
  have hedits : (before ++ edit :: behind).take before.length = before := List.take_left
  refine ⟨before.length, by simp, hstops.index_eq, ?_, ?_, ?_, ?_, fun more ↦ ?_⟩
  · rw [hresults, List.length_append, hlength, List.length_singleton]
  · rw [hedits, htake]
    exact ⟨plan, hbefore, rfl⟩
  · intro result hresult
    rw [htake, ofEdits_results hbefore] at hresult
    obtain ⟨other, -, rfl⟩ := List.mem_map.mp hresult
    rfl
  · rw [hedits]
    refine ⟨edit, ⟨found, some failure.error⟩, by simp, ?_, rfl, hstops⟩
    rw [hresults, ← hlength]
    simp
  · have hnext : (before ++ edit :: behind).take (before.length + 1) = before ++ [edit] := by
      simp [List.take_append]
    rw [hnext, List.append_assoc]
    exact hfinal more

/-- When edits cannot be planned, the planning fails at the edit that the error is about, and when
they can, the plan for the first of them is the beginning of the plan for all. -/
theorem ofEdits_stages (t : Text) (edits : List Edit) :
    (∀ failure, ofEdits t edits = .error failure →
      ∃ k, k < edits.length ∧ FailsAt t edits failure k) ∧
    ∀ plan, ofEdits t edits = .ok plan → ∀ n,
      ofEdits t (edits.take n) = .ok ⟨plan.spans.filter (·.owner < n), plan.results.take n⟩ :=
  ⟨fun _ h ↦ exists_failsAt h, fun _ h ↦ ofEdits_take h⟩

/-- The second of three edits matches two lines, and the first edit has claimed the second of them.
The planning fails there and tells both matches. -/
theorem ofEdits_stages_second :
    let edit (anchor : Text) (h : anchor ≠ []) : Edit :=
      { anchors := [anchor], anchors_ne_nil := by simp, anchor_ne_nil := by simpa using h
        allowMultiple := true }
    let edits := [edit ['w'] (by simp), edit ['x'] (by simp), edit ['y'] (by simp)]
    let t := "x\nx w\ny\n".toList
    let failure : PlanFailure :=
      { error := .collision 1 0 2
        results := [⟨[⟨2, 6, "x w\n".toList⟩], none⟩,
          ⟨[⟨0, 2, "x\n".toList⟩, ⟨2, 6, "x w\n".toList⟩], some (.collision 1 0 2)⟩] }
    ofEdits t edits = .error failure ∧ FailsAt t edits failure 1 := by
  intro edit edits t failure
  have hfailure : ofEdits t edits = .error failure := by
    simp only [edit, edits, t, failure]
    decide +kernel
  obtain ⟨k, -, hfails⟩ := (ofEdits_stages t edits).1 failure hfailure
  have hk : k = 1 := (Option.some.inj hfails.index).symm
  exact ⟨hfailure, hk ▸ hfails⟩

end Plan

end MarkedEdits
