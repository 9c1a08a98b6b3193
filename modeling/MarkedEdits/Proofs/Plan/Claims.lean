import MarkedEdits.Plan.Basic
import MarkedEdits.Proofs.Anchor

/-!
# What a plan accounts for

A plan accounts for the claims of its edits: its spans are in ascending order, every span is what
some claims with its start come to, and every claim is covered by a span of its edit. The main
statement is `ofEdits_accounts`. From it come the two directions in which plans are used: a span
goes back to a match of the edit that owns it (`exists_match_of_span`), and a match of an edit has
a span (`exists_span_of_match`).
-/

namespace MarkedEdits

open Text

/-- The span belongs to the edit, begins where the claimed lines begin, and goes at least as far. -/
def PlannedSpan.Covers (span : PlannedSpan) (owner start stop : Nat) : Prop :=
  span.owner = owner ∧ span.start = start ∧ stop ≤ span.stop

namespace Plan

/-- The matches of the edits, each with the position of its edit, where the first edit has the
position `index`. -/
def claimsFrom (t : Text) (index : Nat) : List Edit → List (Nat × Match)
  | [] => []
  | edit :: rest => (matchesOf t edit).map (index, ·) ++ claimsFrom t (index + 1) rest

/-- The spans are in order, go back to the claims, and cover them. -/
structure Accounts (claims : List (Nat × Match)) (spans : List PlannedSpan) : Prop where
  ordered : spans.Pairwise (·.start < ·.start)
  claimed : ∀ span ∈ spans,
    ∃ lines, (span.owner, lines) ∈ claims ∧ lines.start = span.start ∧ lines.stop = span.stop
  covered : ∀ claim ∈ claims, ∃ span ∈ spans, span.Covers claim.1 claim.2.start claim.2.stop

/-- A claim is made by an edit of the list, at its position. -/
theorem mem_claimsFrom {t : Text} {edits : List Edit} {index i : Nat} {lines : Match} :
    (i, lines) ∈ claimsFrom t index edits ↔
      ∃ k edit, i = index + k ∧ edits[k]? = some edit ∧ lines ∈ matchesOf t edit := by
  induction edits generalizing index with
  | nil => simp [claimsFrom]
  | cons edit rest ih =>
      simp only [claimsFrom, List.mem_append, List.mem_map, Prod.mk.injEq, ih]
      -- the position is that of the first edit or one in the rest, which starts one later
      constructor
      · rintro (⟨found, hfound, rfl, rfl⟩ | ⟨k, other, rfl, hother, hfound⟩)
        · exact ⟨0, edit, rfl, rfl, hfound⟩
        · exact ⟨k + 1, other, by omega, by simpa using hother, hfound⟩
      · rintro ⟨k, other, rfl, hother, hfound⟩
        cases k with
        | zero =>
            simp only [List.getElem?_cons_zero, Option.some.injEq] at hother
            subst hother
            exact .inl ⟨lines, hfound, rfl, rfl⟩
        | succ k => exact .inr ⟨k, other, by omega, by simpa using hother, hfound⟩

/-- The claims of the edits behind a list come behind those of the list. -/
theorem claimsFrom_append (t : Text) (index : Nat) (edits more : List Edit) :
    claimsFrom t index (edits ++ more) =
      claimsFrom t index edits ++ claimsFrom t (index + edits.length) more := by
  induction edits generalizing index with
  | nil => rfl
  | cons edit rest ih =>
      have hnext : index + 1 + rest.length = index + (edit :: rest).length := by
        rw [List.length_cons, Nat.add_assoc, Nat.add_comm 1]
      rw [List.cons_append, claimsFrom, claimsFrom, ih, hnext, List.append_assoc]

/-- Claims have the positions of the edits. -/
theorem position_of_mem_claimsFrom {t : Text} {edits : List Edit} {index : Nat}
    {claim : Nat × Match} (h : claim ∈ claimsFrom t index edits) :
    index ≤ claim.1 ∧ claim.1 < index + edits.length := by
  obtain ⟨k, edit, hk, hedit, -⟩ := mem_claimsFrom.mp h
  have hlt := (List.getElem?_eq_some_iff.mp hedit).1
  omega

/-- Nothing is claimed before the first edit. -/
theorem accounts_nil : Accounts [] [] :=
  { ordered := List.Pairwise.nil, claimed := by simp, covered := by simp }

/-! ## One claim -/

/-- What a claim does to spans of which there is a first: it goes before it, is joined to it, or
goes on behind it. -/
theorem claim_cons_ok {owner : Nat} {span : Span} {taken : PlannedSpan}
    {rest next : List PlannedSpan} (h : claim owner span (taken :: rest) = .ok next) :
    (span.start < taken.start ∧ next = ⟨span.start, span.stop, owner⟩ :: taken :: rest) ∨
      (taken.start = span.start ∧ taken.owner = owner ∧
        next = ⟨taken.start, max taken.stop span.stop, owner⟩ :: rest) ∨
      (taken.start < span.start ∧ ∃ tail, claim owner span rest = .ok tail ∧
        next = taken :: tail) := by
  simp only [claim] at h
  split at h
  · next hlt => exact .inl ⟨hlt, by simpa using h.symm⟩
  · next hge =>
      split at h
      · next heq =>
          split at h
          · next howner => exact .inr (.inl ⟨heq.symm, howner, by simpa using h.symm⟩)
          · cases h
      · next hne =>
          cases htail : claim owner span rest with
          | error other => simp [htail, Except.map] at h
          | ok tail =>
              simp only [htail, Except.map, Except.ok.injEq] at h
              exact .inr (.inr ⟨by omega, tail, rfl, h.symm⟩)

/-- A span after a claim was there before, or it is the claimed span, perhaps with the stop of an
earlier span of the same edit and start. -/
theorem mem_of_mem_claim {owner : Nat} {span : Span} {spans next : List PlannedSpan}
    (h : claim owner span spans = .ok next) {found : PlannedSpan} (hfound : found ∈ next) :
    found ∈ spans ∨ (found.owner = owner ∧ found.start = span.start ∧
      (found.stop = span.stop ∨
        ∃ old ∈ spans, old.owner = owner ∧ old.start = span.start ∧ old.stop = found.stop)) := by
  induction spans generalizing next with
  | nil =>
      cases h
      rw [List.mem_singleton.mp hfound]
      exact .inr ⟨rfl, rfl, .inl rfl⟩
  | cons taken rest ih =>
      rcases claim_cons_ok h with ⟨-, rfl⟩ | ⟨hstart, howner, rfl⟩ | ⟨-, tail, htail, rfl⟩
      · rcases List.mem_cons.mp hfound with rfl | hold
        · exact .inr ⟨rfl, rfl, .inl rfl⟩
        · exact .inl hold
      · rcases List.mem_cons.mp hfound with rfl | hold
        · refine .inr ⟨rfl, hstart, ?_⟩
          -- a joined span has the later one of two stops
          rcases Nat.le_total taken.stop span.stop with hle | hle
          · exact .inl (Nat.max_eq_right hle)
          · exact .inr ⟨taken, List.mem_cons_self, howner, hstart, (Nat.max_eq_left hle).symm⟩
        · exact .inl (List.mem_cons_of_mem _ hold)
      · rcases List.mem_cons.mp hfound with rfl | hnew
        · exact .inl List.mem_cons_self
        · rcases ih htail hnew with hold | ⟨howner, hstart, hstop⟩
          · exact .inl (List.mem_cons_of_mem _ hold)
          · refine .inr ⟨howner, hstart, hstop.imp_right ?_⟩
            rintro ⟨old, hold, hrest⟩
            exact ⟨old, List.mem_cons_of_mem _ hold, hrest⟩

/-- After a claim a span covers the claimed lines, and what was covered before still is. -/
theorem claim_covers {owner : Nat} {span : Span} {spans next : List PlannedSpan}
    (h : claim owner span spans = .ok next) :
    (∃ found ∈ next, found.Covers owner span.start span.stop) ∧
      ∀ old ∈ spans, ∃ found ∈ next, found.Covers old.owner old.start old.stop := by
  induction spans generalizing next with
  | nil =>
      cases h
      exact ⟨⟨_, List.mem_cons_self, rfl, rfl, Nat.le_refl _⟩, by simp⟩
  | cons taken rest ih =>
      have hsame : ∀ {all : List PlannedSpan}, (∀ old ∈ rest, old ∈ all) →
          ∀ old ∈ rest, ∃ found ∈ all, found.Covers old.owner old.start old.stop :=
        fun hsub old hold ↦ ⟨old, hsub old hold, rfl, rfl, Nat.le_refl _⟩
      rcases claim_cons_ok h with ⟨-, rfl⟩ | ⟨hstart, howner, rfl⟩ | ⟨-, tail, htail, rfl⟩
      · refine ⟨⟨_, List.mem_cons_self, rfl, rfl, Nat.le_refl _⟩, ?_⟩
        exact fun old hold ↦ ⟨old, List.mem_cons_of_mem _ hold, rfl, rfl, Nat.le_refl _⟩
      · refine ⟨⟨_, List.mem_cons_self, rfl, hstart, Nat.le_max_right _ _⟩, ?_⟩
        refine List.forall_mem_cons.mpr ⟨?_, hsame fun old hold ↦ List.mem_cons_of_mem _ hold⟩
        exact ⟨_, List.mem_cons_self, howner.symm, rfl, Nat.le_max_left _ _⟩
      · obtain ⟨⟨new, hnew, hcovers⟩, hold⟩ := ih htail
        refine ⟨⟨new, List.mem_cons_of_mem _ hnew, hcovers⟩, ?_⟩
        refine List.forall_mem_cons.mpr ⟨?_, fun old hmem ↦ ?_⟩
        · exact ⟨taken, List.mem_cons_self, rfl, rfl, Nat.le_refl _⟩
        · obtain ⟨found, hfound, hcovers'⟩ := hold old hmem
          exact ⟨found, List.mem_cons_of_mem _ hfound, hcovers'⟩

/-- A claim keeps the spans in order. -/
theorem ordered_claim {owner : Nat} {span : Span} {spans next : List PlannedSpan}
    (h : claim owner span spans = .ok next) (hord : spans.Pairwise (·.start < ·.start)) :
    next.Pairwise (·.start < ·.start) := by
  induction spans generalizing next with
  | nil =>
      cases h
      exact List.pairwise_singleton _ _
  | cons taken rest ih =>
      obtain ⟨hfirst, hrest⟩ := List.pairwise_cons.mp hord
      rcases claim_cons_ok h with ⟨hlt, rfl⟩ | ⟨-, -, rfl⟩ | ⟨hlt, tail, htail, rfl⟩
      · refine List.pairwise_cons.mpr ⟨?_, hord⟩
        refine List.forall_mem_cons.mpr ⟨hlt, fun other hother ↦ ?_⟩
        exact Nat.lt_trans hlt (hfirst other hother)
      · exact List.pairwise_cons.mpr ⟨hfirst, hrest⟩
      · refine List.pairwise_cons.mpr ⟨?_, ih htail hrest⟩
        -- what follows was there before or begins where the claimed span begins
        intro other hother
        rcases mem_of_mem_claim htail hother with hold | ⟨-, hstart, -⟩
        · exact hfirst other hold
        · rw [hstart]
          exact hlt

/-- A claim is accounted for after it is made. -/
theorem Accounts.claim {claims : List (Nat × Match)} {spans next : List PlannedSpan}
    (hacc : Accounts claims spans) {owner : Nat} {lines : Match}
    (h : Plan.claim owner ⟨lines.start, lines.stop⟩ spans = .ok next) :
    Accounts (claims ++ [(owner, lines)]) next where
  ordered := ordered_claim h hacc.ordered
  claimed := by
    intro span hspan
    rcases mem_of_mem_claim h hspan with hold | ⟨howner, hstart, hstop | ⟨old, hold, ho, hs, he⟩⟩
    · obtain ⟨before, hbefore, hends⟩ := hacc.claimed span hold
      exact ⟨before, List.mem_append_left _ hbefore, hends⟩
    · exact ⟨lines, by simp [howner], hstart.symm, hstop.symm⟩
    · obtain ⟨before, hbefore, hfirst, hlast⟩ := hacc.claimed old hold
      refine ⟨before, List.mem_append_left _ ?_, ?_, hlast.trans he⟩
      · rwa [howner, ← ho]
      · rw [hfirst, hs, hstart]
  covered := by
    obtain ⟨hnew, hold⟩ := claim_covers h
    intro claim hclaim
    rcases List.mem_append.mp hclaim with hbefore | hlast
    · obtain ⟨span, hspan, ho, hs, he⟩ := hacc.covered claim hbefore
      obtain ⟨found, hfound, ho', hs', he'⟩ := hold span hspan
      exact ⟨found, hfound, ho'.trans ho, hs'.trans hs, Nat.le_trans he he'⟩
    · rw [List.mem_singleton.mp hlast]
      exact hnew

/-! ## All claims -/

/-- When all matches of an edit are claimed, they are what was found and are accounted for. -/
theorem claimAll_ok {t : Text} {index : Nat} {edit : Edit} {found found' remaining : List Match}
    {spans spans' : List PlannedSpan}
    (h : claimAll t index edit found spans remaining = .ok (spans', found')) :
    found' = found ++ remaining ∧ ∀ claims, Accounts claims spans →
      Accounts (claims ++ remaining.map (index, ·)) spans' := by
  induction remaining generalizing found spans with
  | nil =>
      simp only [claimAll] at h
      split at h
      · cases h
      · cases h
        exact ⟨by simp, fun claims hacc ↦ by simpa using hacc⟩
  | cons next rest ih =>
      simp only [claimAll] at h
      split at h
      · cases h
      · next claimed hclaim =>
          split at h
          · cases h
          · obtain ⟨hfound, hacc⟩ := ih h
            refine ⟨by simpa using hfound, fun claims hbefore ↦ ?_⟩
            simpa using hacc _ (hbefore.claim hclaim)

/-- When all edits are planned, each has its matches as its result and all claims are accounted
for. -/
theorem extend_ok {t : Text} {index : Nat} {plan plan' : Plan} {edits : List Edit}
    (h : extend t index plan edits = .ok plan') :
    plan'.results = plan.results ++ edits.map (fun edit ↦ ⟨matchesOf t edit, none⟩) ∧
      ∀ claims, Accounts claims plan.spans →
        Accounts (claims ++ claimsFrom t index edits) plan'.spans := by
  induction edits generalizing index plan with
  | nil =>
      cases h
      exact ⟨by simp, fun claims hacc ↦ by simpa [claimsFrom] using hacc⟩
  | cons edit rest ih =>
      simp only [extend] at h
      split at h
      · cases h
      · next spans found hclaims =>
          obtain ⟨hfound, hacc⟩ := claimAll_ok hclaims
          obtain ⟨hresults, hrest⟩ := ih h
          refine ⟨by simpa [hfound] using hresults, fun claims hbefore ↦ ?_⟩
          simpa [claimsFrom] using hrest _ (hacc claims hbefore)

variable {t : Text} {edits : List Edit} {plan : Plan}

/-- The results of a plan are the matches of its edits. -/
theorem ofEdits_results (h : ofEdits t edits = .ok plan) :
    plan.results = edits.map fun edit ↦ ⟨matchesOf t edit, none⟩ := by
  simpa using (extend_ok h).1

/-- A plan accounts for the claims of its edits. -/
theorem ofEdits_accounts (h : ofEdits t edits = .ok plan) :
    Accounts (claimsFrom t 0 edits) plan.spans := by
  simpa using (extend_ok h).2 [] accounts_nil

/-- A span of the plan goes back to a match of the edit that owns it. -/
theorem exists_match_of_span (h : ofEdits t edits = .ok plan) {span : PlannedSpan}
    (hspan : span ∈ plan.spans) :
    ∃ edit lines, edits[span.owner]? = some edit ∧ lines ∈ matchesOf t edit ∧
      lines.start = span.start ∧ lines.stop = span.stop := by
  obtain ⟨lines, hclaim, hends⟩ := (ofEdits_accounts h).claimed span hspan
  obtain ⟨k, edit, hk, hedit, hlines⟩ := mem_claimsFrom.mp hclaim
  rw [Nat.zero_add] at hk
  exact ⟨edit, lines, by rw [hk, hedit], hlines, hends⟩

/-- The owner of a span is the position of an edit. -/
theorem exists_edit_of_span (h : ofEdits t edits = .ok plan) {span : PlannedSpan}
    (hspan : span ∈ plan.spans) : ∃ edit, edits[span.owner]? = some edit := by
  obtain ⟨edit, lines, hedit, -⟩ := exists_match_of_span h hspan
  exact ⟨edit, hedit⟩

/-- A match of an edit is covered by a span of the plan that the edit owns. -/
theorem exists_span_of_match (h : ofEdits t edits = .ok plan) {i : Nat} {edit : Edit}
    (hedit : edits[i]? = some edit) {lines : Match} (hlines : lines ∈ matchesOf t edit) :
    ∃ span ∈ plan.spans, span.Covers i lines.start lines.stop :=
  (ofEdits_accounts h).covered (i, lines)
    (mem_claimsFrom.mpr ⟨i, edit, (Nat.zero_add i).symm, hedit, hlines⟩)

/-- A match of an edit is a run of lines. -/
theorem isLineRun_match {edit : Edit} {lines : Match} (h : lines ∈ matchesOf t edit) :
    IsLineRun t lines.start lines.stop := by
  obtain ⟨span, hspan, rfl⟩ := List.mem_map.mp h
  exact Anchor.isLineRun_align hspan

/-- A span of the plan is a run of lines. -/
theorem isLineRun_span (h : ofEdits t edits = .ok plan) {span : PlannedSpan}
    (hspan : span ∈ plan.spans) : IsLineRun t span.start span.stop := by
  obtain ⟨edit, lines, -, hlines, hstart, hstop⟩ := exists_match_of_span h hspan
  rw [← hstart, ← hstop]
  exact isLineRun_match hlines

end Plan

end MarkedEdits
