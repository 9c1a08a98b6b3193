import MarkedEdits.Proofs.Plan.Rows

/-!
# Which edits a failure names

An error names the positions of the edits that it is about. When edits cannot be planned, the error
names the edit at which the planning stopped, and perhaps an edit before it (`extend_error`). When a
plan cannot be rendered, the error names the owners of two spans that overlap (`render_error`).
Either way the edits themselves can be read, and what is wrong is how they fit the text and one
another (`EditError.isMisfit`).
-/

namespace MarkedEdits

open Text

/-- The positions of the edits that the error is about. -/
def EditError.named : EditError → List Nat
  | collision index other _ | overlap index other _ => [index, other]
  | noMatch index _ | multipleMatches index _ | invalidEdit index _ => [index]
  | foreignMarkers _ _ | invalidNamespace _ _ | invalidStyle _ | unwritten _ _ => []

/-- Edits that can be read do not fit the text or one another. -/
def EditError.isMisfit : EditError → Bool
  | noMatch _ _ | multipleMatches _ _ | collision _ _ _ | overlap _ _ _ => true
  | foreignMarkers _ _ | invalidEdit _ _ | invalidNamespace _ _ | invalidStyle _
  | unwritten _ _ => false

namespace Plan

variable {t : Text} {edits : List Edit}

/-! ## Planning -/

/-- The edit that is in the way of a claim is another one, and it has a span with that start. -/
theorem claim_error {owner other : Nat} {span : Span} {spans : List PlannedSpan}
    (h : claim owner span spans = .error other) :
    other ≠ owner ∧ ∃ taken ∈ spans, taken.owner = other ∧ taken.start = span.start := by
  induction spans with
  | nil => cases h
  | cons taken rest ih =>
      simp only [claim] at h
      split at h
      · cases h
      · split at h
        · next hstart =>
            split at h
            · cases h
            · next hother =>
                cases h
                exact ⟨hother, taken, List.mem_cons_self, rfl, hstart.symm⟩
        · cases hrest : claim owner span rest with
          | ok tail => simp [hrest, Except.map] at h
          | error found =>
              simp only [hrest, Except.map, Except.error.injEq] at h
              obtain ⟨hne, old, hold, howner⟩ := ih (h ▸ hrest)
              exact ⟨hne, old, List.mem_cons_of_mem _ hold, howner⟩

/-- A span after a claim has the owner of the claim or of a span before. -/
theorem owner_of_mem_claim {owner : Nat} {span : Span} {spans next : List PlannedSpan}
    (h : claim owner span spans = .ok next) {found : PlannedSpan} (hfound : found ∈ next) :
    found.owner = owner ∨ ∃ old ∈ spans, old.owner = found.owner := by
  rcases mem_of_mem_claim h hfound with hold | ⟨howner, -, -⟩
  · exact .inr ⟨found, hold, rfl⟩
  · exact .inl howner

/-- The claims of an edit end with too few matches, with one too many, or where a span of another
edit begins. -/
theorem claimAll_error_cases {index : Nat} {edit : Edit} {found found' remaining : List Match}
    {spans : List PlannedSpan} {error : EditError}
    (h : claimAll t index edit found spans remaining = .error (error, found')) :
    (∃ hint, error = .noMatch index hint) ∨ (∃ count, error = .multipleMatches index count) ∨
      ∃ other start, error = .collision index other start ∧ other ≠ index ∧
        ∃ taken ∈ spans, taken.owner = other := by
  induction remaining generalizing found spans with
  | nil =>
      simp only [claimAll] at h
      split at h
      · cases h
        exact .inl ⟨_, rfl⟩
      · cases h
  | cons next rest ih =>
      simp only [claimAll] at h
      split at h
      · next other hclaim =>
          cases h
          obtain ⟨hne, taken, htaken, howner, -⟩ := claim_error hclaim
          exact .inr (.inr ⟨other, next.start, rfl, hne, taken, htaken, howner⟩)
      · next spans' hclaim =>
          split at h
          · cases h
            exact .inr (.inl ⟨_, rfl⟩)
          · -- a span of another edit was there before this edit made its claims
            refine (ih h).imp_right (Or.imp_right ?_)
            rintro ⟨other, start, herror, hne, taken, htaken, howner⟩
            rcases owner_of_mem_claim hclaim htaken with hself | ⟨old, hold, hsame⟩
            · exact absurd (howner.symm.trans hself) hne
            · exact ⟨other, start, herror, hne, old, hold, hsame.trans howner⟩

/-- An error in the claims of an edit names the edit, and apart from it only owners of spans. -/
theorem claimAll_error {index : Nat} {edit : Edit} {found found' remaining : List Match}
    {spans : List PlannedSpan} {error : EditError}
    (h : claimAll t index edit found spans remaining = .error (error, found')) :
    index ∈ error.named ∧
      ∀ k ∈ error.named, k = index ∨ ∃ taken ∈ spans, taken.owner = k := by
  rcases claimAll_error_cases h with ⟨hint, rfl⟩ | ⟨count, rfl⟩ | ⟨other, start, rfl, -, htaken⟩
  · simp [EditError.named]
  · simp [EditError.named]
  · simp [EditError.named, htaken]

/-- The planning of further edits ends with the claims of one of them. The edits before it are
planned, and what it has found is the last of the results. -/
theorem extend_error_split {index : Nat} {plan : Plan} {failure : PlanFailure}
    (h : extend t index plan edits = .error failure) :
    ∃ before edit behind plan' found, edits = before ++ edit :: behind ∧
      extend t index plan before = .ok plan' ∧
      claimAll t (index + before.length) edit [] plan'.spans (matchesOf t edit) =
        .error (failure.error, found) ∧
      failure.results = plan'.results ++ [⟨found, some failure.error⟩] := by
  induction edits generalizing index plan with
  | nil => cases h
  | cons edit rest ih =>
      simp only [extend] at h
      split at h
      · next error found hstop =>
          cases h
          exact ⟨[], edit, rest, plan, found, rfl, rfl, hstop, rfl⟩
      · next spans found hnext =>
          obtain ⟨before, last, behind, plan', found', rfl, hbefore, hstop, hresults⟩ := ih h
          refine ⟨edit :: before, last, behind, plan', found', rfl, ?_, ?_, hresults⟩
          · simp only [extend, hnext, hbefore]
          · rw [List.length_cons, Nat.add_comm before.length 1, ← Nat.add_assoc]
            exact hstop

/-- An error in the planning of further edits names one of these, and no edit behind them. -/
theorem extend_error {index : Nat} {plan : Plan} {failure : PlanFailure}
    {claims : List (Nat × Match)} (h : extend t index plan edits = .error failure)
    (hacc : Accounts claims plan.spans) (hclaims : ∀ claim ∈ claims, claim.1 < index) :
    (∃ k ∈ failure.error.named, index ≤ k) ∧
      ∀ k ∈ failure.error.named, k < index + edits.length := by
  obtain ⟨before, edit, behind, plan', found, rfl, hbefore, hstop, -⟩ := extend_error_split h
  obtain ⟨hindex, hnamed⟩ := claimAll_error hstop
  have hlength : index + before.length < index + (before ++ edit :: behind).length := by
    simp
  refine ⟨⟨_, hindex, Nat.le_add_right _ _⟩, fun k hk ↦ ?_⟩
  rcases hnamed k hk with rfl | ⟨taken, htaken, rfl⟩
  · exact hlength
  · -- the owner of a span is an edit before the one at which the planning ends
    obtain ⟨lines, hclaim, -⟩ := ((extend_ok hbefore).2 claims hacc).claimed taken htaken
    have hbelow : taken.owner < index + before.length := by
      rcases List.mem_append.mp hclaim with hold | hnew
      · exact Nat.lt_add_right _ (hclaims _ hold)
      · exact (position_of_mem_claimsFrom hnew).2
    exact Nat.lt_trans hbelow hlength

/-- The planning of further edits fails on how one of them fits. -/
theorem isMisfit_of_extend {index : Nat} {plan : Plan} {failure : PlanFailure}
    (h : extend t index plan edits = .error failure) : failure.error.isMisfit = true := by
  obtain ⟨_, _, _, _, _, -, -, hstop, -⟩ := extend_error_split h
  rcases claimAll_error_cases hstop with ⟨_, herror⟩ | ⟨_, herror⟩ | ⟨_, _, herror, -⟩ <;>
    rw [herror] <;> rfl

/-- Edits are planned on top of the plan for the edits before them. -/
theorem extend_append {index : Nat} {plan : Plan} (first more : List Edit) :
    extend t index plan (first ++ more) =
      (extend t index plan first).bind fun plan' ↦ extend t (index + first.length) plan' more := by
  induction first generalizing index plan with
  | nil => rfl
  | cons edit rest ih =>
      simp only [List.cons_append, extend]
      split
      · rfl
      · rw [ih, List.length_cons, Nat.add_assoc, Nat.add_comm 1]

/-- Edits that cannot be planned cannot be planned with others behind them either. -/
theorem ofEdits_append_of_failure {failure : PlanFailure} (h : ofEdits t edits = .error failure)
    (more : List Edit) : ofEdits t (edits ++ more) = .error failure := by
  unfold ofEdits at h ⊢
  rw [extend_append, h]
  rfl

/-! ## Rendering -/

/-- Rendering fails at the first span that begins before the span before it ends. The spans before
it fit. -/
theorem renderFrom_error {markers : Markers} {out : Text} (last : Option PlannedSpan)
    {spans : List PlannedSpan} {error : EditError}
    (hedits : ∀ span ∈ spans, ∃ edit, edits[span.owner]? = some edit)
    (h : renderFrom t edits markers out ((last.map (·.stop)).getD 0) (last.map (·.owner)) spans =
      .error error) :
    ∃ before a b after, last.toList ++ spans = before ++ a :: b :: after ∧
      Fits ((last.map (·.start)).getD 0) (before ++ [a]) ∧ b.start < a.stop ∧
      error = .overlap b.owner a.owner b.start := by
  induction spans generalizing out last with
  | nil => cases h
  | cons span rest ih =>
      obtain ⟨⟨edit, hedit⟩, hedits'⟩ := List.forall_mem_cons.mp hedits
      simp only [renderFrom, hedit] at h
      split at h
      · next hlt =>
          cases last with
          | none => exact absurd hlt (Nat.not_lt_zero _)
          | some before =>
              cases h
              exact ⟨[], before, span, rest, rfl, ⟨Nat.le_refl _, trivial⟩, hlt, rfl⟩
      · next hge =>
          obtain ⟨before, a, b, after, hsplit, hfits, hrest⟩ := ih (some span) hedits' h
          have hbehind : Fits ((last.map (·.stop)).getD 0) (before ++ [a]) :=
            hfits.mono (Nat.le_of_not_lt hge)
          refine ⟨last.toList ++ before, a, b, after, ?_, ?_, hrest⟩
          · rw [List.append_assoc, ← hsplit]
            rfl
          · cases last with
            | none => exact hbehind
            | some previous => exact ⟨Nat.le_refl _, hbehind⟩

/-- A plan that cannot be rendered has a first span that begins before the span before it ends, and
the error names the owners of the two. -/
theorem render_error_split {markers : Markers} {plan : Plan} {error : EditError}
    (hplan : ofEdits t edits = .ok plan) (h : plan.render t edits markers = .error error) :
    ∃ before a b after, plan.spans = before ++ a :: b :: after ∧ Fits 0 (before ++ [a]) ∧
      b.start < a.stop ∧ error = .overlap b.owner a.owner b.start := by
  have hedits : ∀ span ∈ plan.spans, ∃ edit, edits[span.owner]? = some edit :=
    fun span hspan ↦ exists_edit_of_span hplan hspan
  cases hout : renderFrom t edits markers [] 0 none plan.spans with
  | ok out => simp [render, hout, Except.map] at h
  | error error' =>
      simp only [render, hout, Except.map, Except.error.injEq] at h
      rw [← h]
      exact renderFrom_error none hedits hout

/-- A plan that cannot be rendered has two spans that overlap, and the error names their owners. -/
theorem render_error {markers : Markers} {plan : Plan} {error : EditError}
    (hplan : ofEdits t edits = .ok plan) (h : plan.render t edits markers = .error error) :
    ∃ a ∈ plan.spans, ∃ b ∈ plan.spans, a.start < b.start ∧ b.start < a.stop ∧
      error = .overlap b.owner a.owner b.start := by
  obtain ⟨before, a, b, after, hsplit, -, hlt, herror⟩ := render_error_split hplan h
  have hord := (ofEdits_accounts hplan).ordered
  rw [hsplit] at hord ⊢
  have hstarts : a.start < b.start :=
    List.rel_of_pairwise_cons (List.pairwise_append.mp hord).2.1 List.mem_cons_self
  exact ⟨a, by simp, b, by simp, hstarts, hlt, herror⟩

end Plan

end MarkedEdits
