import Mathlib.Data.Finset.Max
import Mathlib.Data.List.Sort
import MarkedEdits.Proofs.Plan.Rows

/-!
# Which edits are carried out

Edits are planned and rendered in a fixed order with many ways to fail, but whether they succeed
depends on their matches alone: every edit has as many matches as it allows, no two edits have
matches that begin on the same line, and the spans that the matches come to do not overlap. The main
statement is `acceptable_iff`. The spans of a plan are determined by the matches as well
(`mem_spans_iff`).
-/

namespace MarkedEdits

open Text

/-- The edit may have this many matches. -/
structure Edit.Admits (edit : Edit) (count : Nat) : Prop where
  multiple : count ≤ 1 ∨ edit.allowMultiple = true
  zero : 1 ≤ count ∨ edit.allowZero = true

/-- One of the spans ends before the other begins. -/
def PlannedSpan.Apart (a b : PlannedSpan) : Prop :=
  a.stop ≤ b.start ∨ b.stop ≤ a.start

/-- Spans that begin one before the other are different. -/
theorem PlannedSpan.ne_of_start_lt {a b : PlannedSpan} (h : a.start < b.start) : a ≠ b :=
  ne_of_apply_ne PlannedSpan.start (Nat.ne_of_lt h)

/-- Which of two spans ends before the other does not matter. -/
theorem PlannedSpan.Apart.symm {a b : PlannedSpan} (h : a.Apart b) : b.Apart a :=
  Or.symm h

namespace Plan

/-- Claims that begin at one offset are of one edit. -/
def Separate (claims : List (Nat × Match)) : Prop :=
  ∀ a ∈ claims, ∀ b ∈ claims, a.2.start = b.2.start → a.1 = b.1

/-- Whether claims are separate is decided pair by pair. -/
instance (claims : List (Nat × Match)) : Decidable (Separate claims) :=
  inferInstanceAs (Decidable (∀ a ∈ claims, ∀ b ∈ claims, _))

/-- Nobody but the edit has a claim that begins at the offset. -/
def Free (claims : List (Nat × Match)) (index start : Nat) : Prop :=
  ∀ claim ∈ claims, claim.2.start = start → claim.1 = index

/-- The span reaches as far as the claims of its owner that begin where it begins. -/
structure Planned (claims : List (Nat × Match)) (span : PlannedSpan) : Prop where
  reached : ∃ lines, (span.owner, lines) ∈ claims ∧ lines.start = span.start ∧
    lines.stop = span.stop
  largest : ∀ lines, (span.owner, lines) ∈ claims → lines.start = span.start →
    lines.stop ≤ span.stop

/-- A span that is planned for claims that are not empty is not empty. -/
theorem Planned.lt {claims : List (Nat × Match)} {span : PlannedSpan} (h : Planned claims span)
    (hclaims : ∀ claim ∈ claims, claim.2.start < claim.2.stop) : span.start < span.stop := by
  obtain ⟨lines, hclaim, hstart, hstop⟩ := h.reached
  rw [← hstart, ← hstop]
  exact hclaims _ hclaim

/-- No claim is in the way of another edit. -/
structure Compatible (claims : List (Nat × Match)) : Prop where
  separate : Separate claims
  apart : ∀ a b, Planned claims a → Planned claims b → a ≠ b → a.Apart b

/-- The matches of the edits allow all of them to be carried out. -/
structure Acceptable (t : Text) (edits : List Edit) : Prop where
  counts : ∀ edit ∈ edits, edit.Admits (matchesOf t edit).length
  compatible : Compatible (claimsFrom t 0 edits)

/-! ## Claims -/

/-- Two groups of claims are separate when each is and they are from each other. -/
theorem separate_append_iff {first second : List (Nat × Match)} :
    Separate (first ++ second) ↔ Separate first ∧ Separate second ∧
      ∀ a ∈ first, ∀ b ∈ second, a.2.start = b.2.start → a.1 = b.1 := by
  constructor
  · intro h
    exact ⟨fun a ha b hb ↦ h a (by simp [ha]) b (by simp [hb]),
      fun a ha b hb ↦ h a (by simp [ha]) b (by simp [hb]),
      fun a ha b hb ↦ h a (by simp [ha]) b (by simp [hb])⟩
  · rintro ⟨hfirst, hsecond, hmixed⟩ a ha b hb hstart
    rcases List.mem_append.mp ha with ha | ha <;> rcases List.mem_append.mp hb with hb | hb
    · exact hfirst a ha b hb hstart
    · exact hmixed a ha b hb hstart
    · exact (hmixed b hb a ha hstart.symm).symm
    · exact hsecond a ha b hb hstart

/-- The claims of one edit are separate. -/
theorem separate_map (index : Nat) (found : List Match) : Separate (found.map (index, ·)) := by
  intro a ha b hb _
  obtain ⟨_, -, rfl⟩ := List.mem_map.mp ha
  obtain ⟨_, -, rfl⟩ := List.mem_map.mp hb
  rfl

/-- A span can be claimed when only its owner has a span with that start. -/
theorem claim_ok_iff {owner : Nat} {span : Span} {spans : List PlannedSpan}
    (hord : spans.Pairwise (·.start < ·.start)) :
    (∃ next, claim owner span spans = .ok next) ↔
      ∀ taken ∈ spans, taken.start = span.start → taken.owner = owner := by
  induction spans with
  | nil => simp [claim]
  | cons taken rest ih =>
      obtain ⟨hfirst, hrest⟩ := List.pairwise_cons.mp hord
      rw [List.forall_mem_cons, ← ih hrest]
      -- what follows a span that begins at the claimed start or later begins later
      have hlater : span.start ≤ taken.start → ∃ next, claim owner span rest = .ok next := by
        intro hle
        refine (ih hrest).mpr fun other hother hstart ↦ ?_
        have := hfirst other hother
        omega
      simp only [claim]
      rcases Nat.lt_trichotomy span.start taken.start with hlt | heq | hgt
      · have hne : taken.start ≠ span.start := Nat.ne_of_gt hlt
        simp [hlt, hne, hlater (Nat.le_of_lt hlt)]
      · by_cases howner : taken.owner = owner
        · simp [heq, howner, hlater (Nat.le_of_eq heq)]
        · simp [heq, howner]
      · have hne : taken.start ≠ span.start := Nat.ne_of_lt hgt
        have hge : ¬ span.start < taken.start := Nat.not_lt_of_gt hgt
        rw [if_neg hge, if_neg hne.symm]
        cases claim owner span rest with
        | error other => simp [Except.map]
        | ok tail => simp [Except.map, hne]

/-- A span can be claimed when no other edit has a claim with that start. -/
theorem Accounts.claim_ok_iff {claims : List (Nat × Match)} {spans : List PlannedSpan}
    (hacc : Accounts claims spans) {owner : Nat} (span : Span) :
    (∃ next, Plan.claim owner span spans = .ok next) ↔ Free claims owner span.start := by
  rw [Plan.claim_ok_iff hacc.ordered]
  constructor
  · intro h claim hclaim hstart
    obtain ⟨taken, htaken, howner, hfirst, -⟩ := hacc.covered claim hclaim
    rw [← howner]
    exact h taken htaken (hfirst.trans hstart)
  · intro h taken htaken hstart
    obtain ⟨lines, hclaim, hfirst, -⟩ := hacc.claimed taken htaken
    exact h _ hclaim (hfirst.trans hstart)

/-- A claim of the edit itself is not in its way. -/
theorem free_append_own {claims : List (Nat × Match)} {index start : Nat} {lines : Match} :
    Free (claims ++ [(index, lines)]) index start ↔ Free claims index start := by
  constructor
  · exact fun h claim hclaim ↦ h claim (List.mem_append_left _ hclaim)
  · intro h
    refine List.forall_mem_append.mpr ⟨h, ?_⟩
    exact List.forall_mem_singleton.mpr fun _ ↦ rfl

/-- The matches of an edit are separate from other claims when these leave their starts free. -/
theorem separate_append_map {claims : List (Nat × Match)} {index : Nat} {found : List Match}
    (h : Separate claims) :
    Separate (claims ++ found.map (index, ·)) ↔ ∀ lines ∈ found, Free claims index lines.start := by
  rw [separate_append_iff]
  constructor
  · rintro ⟨-, -, hmixed⟩ lines hlines claim hclaim
    exact hmixed claim hclaim (index, lines) (List.mem_map_of_mem hlines)
  · intro hfree
    refine ⟨h, separate_map index found, fun claim hclaim other hother hstart ↦ ?_⟩
    obtain ⟨lines, hlines, rfl⟩ := List.mem_map.mp hother
    exact hfree lines hlines claim hclaim hstart

section ClaimAll

variable {t : Text} {index : Nat} {edit : Edit} {found : List Match} {spans : List PlannedSpan}

/-- No claims are left to make when there were some or none are needed. -/
theorem claimAll_nil_ok_iff :
    (∃ result, claimAll t index edit found spans [] = .ok result) ↔
      1 ≤ found.length ∨ edit.allowZero = true := by
  simp only [claimAll]
  by_cases hnil : found = []
  · cases hzero : edit.allowZero <;> simp [hnil]
  · have hpos : 1 ≤ found.length := List.length_pos_of_ne_nil hnil
    simp [hnil, hpos]

/-- The next match and those behind it can be claimed when the next one can, is not one too many,
and the others can be claimed then. -/
theorem claimAll_cons_ok_iff {next : Match} {rest : List Match} :
    (∃ result, claimAll t index edit found spans (next :: rest) = .ok result) ↔
      ∃ spans', claim index ⟨next.start, next.stop⟩ spans = .ok spans' ∧
        ((found ++ [next]).length ≤ 1 ∨ edit.allowMultiple = true) ∧
        ∃ result, claimAll t index edit (found ++ [next]) spans' rest = .ok result := by
  simp only [claimAll]
  cases hclaim : claim index ⟨next.start, next.stop⟩ spans with
  | error other => simp
  | ok spans' =>
      by_cases hmany : 1 < (found ++ [next]).length ∧ edit.allowMultiple = false
      · have hbound : ¬ ((found ++ [next]).length ≤ 1 ∨ edit.allowMultiple = true) := by
          simpa only [not_or, Nat.not_le, Bool.not_eq_true] using hmany
        simp only [if_pos hmany, hbound, false_and, and_false, exists_false, reduceCtorEq]
      · have hbound : (found ++ [next]).length ≤ 1 ∨ edit.allowMultiple = true := by
          simpa only [not_and_or, Nat.not_lt, Bool.not_eq_false] using hmany
        simp only [if_neg hmany, hbound, true_and, Except.ok.injEq, exists_eq_left']

/-- The remaining matches of an edit can be claimed when it may have that many and nobody else has a
claim where one of them begins. -/
theorem claimAll_ok_iff {claims : List (Nat × Match)} {remaining : List Match}
    (hacc : Accounts claims spans) (hfound : found.length ≤ 1 ∨ edit.allowMultiple = true) :
    (∃ result, claimAll t index edit found spans remaining = .ok result) ↔
      edit.Admits (found.length + remaining.length) ∧
        ∀ lines ∈ remaining, Free claims index lines.start := by
  induction remaining generalizing found claims spans with
  | nil =>
      rw [claimAll_nil_ok_iff]
      constructor
      · exact fun hzero ↦ ⟨⟨hfound, hzero⟩, by simp⟩
      · exact fun h ↦ h.1.zero
  | cons next rest ih =>
      have hcount : (found ++ [next]).length + rest.length = found.length + (rest.length + 1) := by
        rw [List.length_append, List.length_singleton]
        omega
      rw [claimAll_cons_ok_iff, List.forall_mem_cons, List.length_cons, ← hcount]
      constructor
      · rintro ⟨spans', hclaim, hmultiple, hrest⟩
        obtain ⟨hadmits, hfree⟩ := (ih (hacc.claim hclaim) hmultiple).mp hrest
        refine ⟨hadmits, (hacc.claim_ok_iff _).mp ⟨spans', hclaim⟩, fun lines hlines ↦ ?_⟩
        exact free_append_own.mp (hfree lines hlines)
      · rintro ⟨hadmits, hnext, hfree⟩
        obtain ⟨spans', hclaim⟩ := (hacc.claim_ok_iff ⟨next.start, next.stop⟩).mpr hnext
        have hmultiple : (found ++ [next]).length ≤ 1 ∨ edit.allowMultiple = true := by
          refine hadmits.multiple.imp_left fun hle ↦ ?_
          omega
        refine ⟨spans', hclaim, hmultiple, (ih (hacc.claim hclaim) hmultiple).mpr ⟨hadmits, ?_⟩⟩
        exact fun lines hlines ↦ free_append_own.mpr (hfree lines hlines)

end ClaimAll

/-! ## Plans -/

variable {t : Text} {edits : List Edit}

/-- Further edits can be planned when each may have as many matches as it has, and their claims are
separate from each other and from those before. -/
theorem extend_ok_iff {index : Nat} (plan : Plan) {claims : List (Nat × Match)}
    (hacc : Accounts claims plan.spans) (hsep : Separate claims) :
    (∃ plan', extend t index plan edits = .ok plan') ↔
      (∀ edit ∈ edits, edit.Admits (matchesOf t edit).length) ∧
        Separate (claims ++ claimsFrom t index edits) := by
  induction edits generalizing index plan claims with
  | nil => simp [extend, claimsFrom, hsep]
  | cons edit rest ih =>
      have hfirst :
          (∃ result, claimAll t index edit [] plan.spans (matchesOf t edit) = .ok result) ↔
            edit.Admits (matchesOf t edit).length ∧
              Separate (claims ++ (matchesOf t edit).map (index, ·)) := by
        rw [separate_append_map hsep, claimAll_ok_iff hacc (.inl (by simp)), List.length_nil,
          Nat.zero_add]
      rw [List.forall_mem_cons, claimsFrom, ← List.append_assoc]
      simp only [extend]
      cases hclaims : claimAll t index edit [] plan.spans (matchesOf t edit) with
      | error error =>
          -- what cannot be claimed is not allowed or not separate, whatever comes behind it
          constructor
          · rintro ⟨plan', hplan⟩
            cases hplan
          · rintro ⟨⟨hadmits, -⟩, hall⟩
            obtain ⟨result, hresult⟩ := hfirst.mpr ⟨hadmits, (separate_append_iff.mp hall).1⟩
            rw [hclaims] at hresult
            cases hresult
      | ok result =>
          obtain ⟨spans, found⟩ := result
          obtain ⟨hadmits, hsep'⟩ := hfirst.mp ⟨_, hclaims⟩
          have hacc' := (claimAll_ok hclaims).2 claims hacc
          simpa only [hadmits, true_and] using
            ih ⟨spans, plan.results ++ [⟨found, none⟩]⟩ hacc' hsep'

/-- Edits can be planned when each has as many matches as it may have and no two of them have
matches that begin on the same line. -/
theorem ofEdits_ok_iff :
    (∃ plan, ofEdits t edits = .ok plan) ↔
      (∀ edit ∈ edits, edit.Admits (matchesOf t edit).length) ∧
        Separate (claimsFrom t 0 edits) := by
  have hnone : Separate [] := by
    intro claim hclaim
    cases hclaim
  exact extend_ok_iff ⟨[], []⟩ accounts_nil hnone

/-- Spans in order with a common start are the same. -/
theorem eq_of_start_eq {spans : List PlannedSpan} (hord : spans.Pairwise (·.start < ·.start))
    {a b : PlannedSpan} (ha : a ∈ spans) (hb : b ∈ spans) (hstart : a.start = b.start) : a = b := by
  refine List.Pairwise.forall_of_forall_of_flip
    (R := fun a b : PlannedSpan ↦ a.start = b.start → a = b) (fun _ _ _ ↦ rfl) ?_ ?_ ha hb hstart
  · exact hord.imp fun hlt heq ↦ absurd heq (Nat.ne_of_lt hlt)
  · exact hord.imp fun hlt heq ↦ absurd heq (Nat.ne_of_gt hlt)

/-- Spans in order are the same when each span is among both. -/
theorem ordered_ext {spans spans' : List PlannedSpan} (hord : spans.Pairwise (·.start < ·.start))
    (hord' : spans'.Pairwise (·.start < ·.start)) (h : ∀ span, span ∈ spans ↔ span ∈ spans') :
    spans = spans' := by
  have : Std.Irrefl fun a b : PlannedSpan ↦ a.start < b.start := ⟨fun _ ↦ Nat.lt_irrefl _⟩
  have : Std.Antisymm fun a b : PlannedSpan ↦ a.start < b.start :=
    ⟨fun _ _ h h' ↦ absurd h' (Nat.lt_asymm h)⟩
  exact List.Pairwise.eq_of_mem_iff hord hord' h

/-- Spans in order are the images of others when these are among them and every span begins where
one of the others does. -/
theorem ordered_eq_map {spans spans' : List PlannedSpan} {f : PlannedSpan → PlannedSpan}
    (hord : spans.Pairwise (·.start < ·.start)) (hord' : spans'.Pairwise (·.start < ·.start))
    (hstart : ∀ span, (f span).start = span.start) (hforward : ∀ span ∈ spans, f span ∈ spans')
    (hback : ∀ span' ∈ spans', ∃ span ∈ spans, span.start = span'.start) :
    spans' = spans.map f := by
  have himage : (spans.map f).Pairwise (·.start < ·.start) :=
    hord.map f fun a b hlt ↦ by rwa [hstart, hstart]
  refine ordered_ext hord' himage fun span' ↦ ⟨fun hspan' ↦ ?_, fun hspan' ↦ ?_⟩
  · obtain ⟨span, hspan, hsame⟩ := hback span' hspan'
    have hequal := eq_of_start_eq hord' (hforward span hspan) hspan' ((hstart span).trans hsame)
    exact List.mem_map.mpr ⟨span, hspan, hequal⟩
  · obtain ⟨span, hspan, rfl⟩ := List.mem_map.mp hspan'
    exact hforward span hspan

/-- The spans that account for claims are determined by the claims. -/
theorem Accounts.mem_iff {claims : List (Nat × Match)} {spans : List PlannedSpan}
    (hacc : Accounts claims spans) {span : PlannedSpan} : span ∈ spans ↔ Planned claims span := by
  constructor
  · intro hspan
    refine ⟨hacc.claimed span hspan, fun lines hclaim hstart ↦ ?_⟩
    obtain ⟨other, hother, -, hfirst, hle⟩ := hacc.covered _ hclaim
    rwa [eq_of_start_eq hacc.ordered hspan hother (hstart.symm.trans hfirst.symm)]
  · rintro ⟨⟨lines, hclaim, hstart, hstop⟩, hlargest⟩
    obtain ⟨other, hother, howner, hfirst, hle⟩ := hacc.covered _ hclaim
    obtain ⟨last, hlast, hfirst', hstop'⟩ := hacc.claimed other hother
    rw [howner] at hlast
    have hge := hlargest last hlast (hfirst'.trans (hfirst.trans hstart))
    have hsame : other = span := by
      obtain ⟨start, stop, owner⟩ := span
      obtain ⟨start', stop', owner'⟩ := other
      simp only [PlannedSpan.mk.injEq] at *
      omega
    rwa [← hsame]

/-- The spans of a plan are determined by the matches of the edits. -/
theorem mem_spans_iff {plan : Plan} (h : ofEdits t edits = .ok plan) {span : PlannedSpan} :
    span ∈ plan.spans ↔ Planned (claimsFrom t 0 edits) span :=
  (ofEdits_accounts h).mem_iff

/-- A span is planned for the claims of different edits when it is planned for those of its own. -/
theorem planned_append_iff {first second : List (Nat × Match)}
    (happart : ∀ a ∈ first, ∀ b ∈ second, a.1 ≠ b.1) {span : PlannedSpan} :
    Planned (first ++ second) span ↔ Planned first span ∨ Planned second span := by
  constructor
  · rintro ⟨⟨lines, hclaim, hends⟩, hlargest⟩
    rcases List.mem_append.mp hclaim with hclaim | hclaim
    · exact .inl ⟨⟨lines, hclaim, hends⟩, fun other hother ↦
        hlargest other (List.mem_append_left _ hother)⟩
    · exact .inr ⟨⟨lines, hclaim, hends⟩, fun other hother ↦
        hlargest other (List.mem_append_right _ hother)⟩
  · rintro (⟨⟨lines, hclaim, hends⟩, hlargest⟩ | ⟨⟨lines, hclaim, hends⟩, hlargest⟩)
    · refine ⟨⟨lines, List.mem_append_left _ hclaim, hends⟩, fun other hother ↦ ?_⟩
      rcases List.mem_append.mp hother with hother | hother
      · exact hlargest other hother
      · exact absurd rfl (happart (span.owner, lines) hclaim (span.owner, other) hother)
    · refine ⟨⟨lines, List.mem_append_right _ hclaim, hends⟩, fun other hother ↦ ?_⟩
      rcases List.mem_append.mp hother with hother | hother
      · exact absurd rfl (happart (span.owner, other) hother (span.owner, lines) hclaim)
      · exact hlargest other hother

/-- Where an edit has a claim, a span is planned for it. -/
theorem exists_planned {claims : List (Nat × Match)} {claim : Nat × Match} (h : claim ∈ claims) :
    ∃ span, Planned claims span ∧ span.owner = claim.1 ∧ span.start = claim.2.start := by
  -- the span reaches as far as the longest claim of the edit there
  let rivals := claims.filter fun other ↦ other.1 = claim.1 ∧ other.2.start = claim.2.start
  have hrivals : ∀ other, other ∈ rivals.toFinset ↔
      other ∈ claims ∧ other.1 = claim.1 ∧ other.2.start = claim.2.start := by
    intro other
    rw [List.mem_toFinset, List.mem_filter, decide_eq_true_iff]
  obtain ⟨longest, hmem, hmax⟩ := rivals.toFinset.exists_max_image (·.2.stop)
    ⟨claim, (hrivals claim).mpr ⟨h, rfl, rfl⟩⟩
  obtain ⟨hclaim, howner, hstart⟩ := (hrivals longest).mp hmem
  refine ⟨⟨claim.2.start, longest.2.stop, claim.1⟩, ⟨⟨longest.2, ?_, hstart, rfl⟩, ?_⟩, rfl, rfl⟩
  · rwa [← howner]
  · intro lines hlines hfirst
    exact hmax (claim.1, lines) ((hrivals _).mpr ⟨hlines, rfl, hfirst⟩)

/-- Claims are separate from others when the spans that are planned for them are apart from those
for the others. -/
theorem separate_append_of_apart {first second : List (Nat × Match)}
    (hfirst : ∀ a ∈ first, a.2.start < a.2.stop) (hsecond : ∀ b ∈ second, b.2.start < b.2.stop)
    (hleft : Separate first) (hright : Separate second)
    (hcross : ∀ a b, Planned first a → Planned second b → a.Apart b) :
    Separate (first ++ second) := by
  refine separate_append_iff.mpr ⟨hleft, hright, fun a ha b hb hstart ↦ ?_⟩
  -- two spans that begin on the same line are not apart
  obtain ⟨span, hspan, -, hbegin⟩ := exists_planned ha
  obtain ⟨span', hspan', -, hbegin'⟩ := exists_planned hb
  have hlong := hspan.lt hfirst
  have hlong' := hspan'.lt hsecond
  have happart := hcross span span' hspan hspan'
  unfold PlannedSpan.Apart at happart
  omega

/-- The claims of different edits are compatible when those of each group are and the spans that are
planned for the one are apart from those for the other. -/
theorem compatible_append_iff {first second : List (Nat × Match)}
    (howners : ∀ a ∈ first, ∀ b ∈ second, a.1 ≠ b.1)
    (hfirst : ∀ a ∈ first, a.2.start < a.2.stop) (hsecond : ∀ b ∈ second, b.2.start < b.2.stop) :
    Compatible (first ++ second) ↔ Compatible first ∧ Compatible second ∧
      ∀ a b, Planned first a → Planned second b → a.Apart b := by
  have hplanned : ∀ span,
      Planned (first ++ second) span ↔ Planned first span ∨ Planned second span :=
    fun span ↦ planned_append_iff howners
  constructor
  · rintro ⟨hseparate, happart⟩
    obtain ⟨hleft, hright, -⟩ := separate_append_iff.mp hseparate
    refine ⟨⟨hleft, fun a b ha hb ↦ ?_⟩, ⟨hright, fun a b ha hb ↦ ?_⟩, fun a b ha hb ↦ ?_⟩
    · exact happart a b ((hplanned a).mpr (.inl ha)) ((hplanned b).mpr (.inl hb))
    · exact happart a b ((hplanned a).mpr (.inr ha)) ((hplanned b).mpr (.inr hb))
    · refine happart a b ((hplanned a).mpr (.inl ha)) ((hplanned b).mpr (.inr hb)) fun heq ↦ ?_
      obtain ⟨lines, hlines, -⟩ := ha.reached
      obtain ⟨lines', hlines', -⟩ := hb.reached
      exact howners _ hlines _ hlines' (congrArg PlannedSpan.owner heq)
  · rintro ⟨⟨hleft, hleft'⟩, ⟨hright, hright'⟩, hcross⟩
    refine ⟨separate_append_of_apart hfirst hsecond hleft hright hcross, fun a b ha hb hne ↦ ?_⟩
    rcases (hplanned a).mp ha with ha | ha <;> rcases (hplanned b).mp hb with hb | hb
    · exact hleft' a b ha hb hne
    · exact hcross a b ha hb
    · exact (hcross b a hb ha).symm
    · exact hright' a b ha hb hne

/-- What is claimed is not empty. -/
theorem lt_of_mem_claimsFrom {index : Nat} {claim : Nat × Match}
    (h : claim ∈ claimsFrom t index edits) : claim.2.start < claim.2.stop := by
  obtain ⟨k, edit, -, -, hlines⟩ := mem_claimsFrom.mp h
  exact (isLineRun_match hlines).lt

/-- A span is planned for one of the edits. -/
theorem position_of_planned {index : Nat} {span : PlannedSpan}
    (h : Planned (claimsFrom t index edits) span) :
    index ≤ span.owner ∧ span.owner < index + edits.length := by
  obtain ⟨lines, hclaim, -⟩ := h.reached
  exact position_of_mem_claimsFrom hclaim

/-- Claims of edits of a list and of edits behind it are of different edits. -/
theorem ne_of_mem_claimsFrom {more : List Edit} :
    ∀ a ∈ claimsFrom t 0 edits, ∀ b ∈ claimsFrom t edits.length more, a.1 ≠ b.1 := by
  intro a ha b hb
  have hfirst := position_of_mem_claimsFrom ha
  have hsecond := position_of_mem_claimsFrom hb
  omega

/-- Claims of a list and of the edits behind it are compatible when each are and the spans that are
planned for the one are apart from those for the other. -/
theorem compatible_claimsFrom_append_iff {more : List Edit} :
    Compatible (claimsFrom t 0 (edits ++ more)) ↔
      Compatible (claimsFrom t 0 edits) ∧ Compatible (claimsFrom t edits.length more) ∧
        ∀ a b, Planned (claimsFrom t 0 edits) a → Planned (claimsFrom t edits.length more) b →
          a.Apart b := by
  rw [claimsFrom_append, Nat.zero_add]
  exact compatible_append_iff ne_of_mem_claimsFrom (fun _ ↦ lt_of_mem_claimsFrom)
    fun _ ↦ lt_of_mem_claimsFrom

/-- Edits that can be carried out with others behind them can be carried out alone. -/
theorem Acceptable.of_append {more : List Edit} (h : Acceptable t (edits ++ more)) :
    Acceptable t edits where
  counts := (List.forall_mem_append.mp h.counts).1
  compatible := (compatible_claimsFrom_append_iff.mp h.compatible).1

/-! ## Rendering -/

/-- Spans in order fit when none of them overlaps another. -/
theorem fits_iff_apart {cursor : Nat} {spans : List PlannedSpan}
    (hord : spans.Pairwise (·.start < ·.start)) (hspans : ∀ span ∈ spans, span.start < span.stop)
    (hcursor : ∀ span ∈ spans, cursor ≤ span.start) :
    Fits cursor spans ↔ ∀ a ∈ spans, ∀ b ∈ spans, a ≠ b → a.Apart b := by
  constructor
  · intro hfits a ha b hb hne
    rcases Nat.le_total a.start b.start with hle | hle
    · refine .inl (Nat.le_of_not_lt fun hlt ↦ hne ?_)
      exact hfits.eq_of_start_within hspans ha hb hle hlt
    · refine .inr (Nat.le_of_not_lt fun hlt ↦ hne ?_)
      exact (hfits.eq_of_start_within hspans hb ha hle hlt).symm
  · intro happart
    induction spans generalizing cursor with
    | nil => trivial
    | cons first rest ih =>
        obtain ⟨hfirst, hord'⟩ := List.pairwise_cons.mp hord
        obtain ⟨hlt, hspans'⟩ := List.forall_mem_cons.mp hspans
        refine ⟨hcursor first List.mem_cons_self, ih hord' hspans' (fun other hother ↦ ?_) ?_⟩
        · have hbehind := hfirst other hother
          have hne := PlannedSpan.ne_of_start_lt hbehind
          rcases happart first List.mem_cons_self other (List.mem_cons_of_mem _ hother) hne
            with h | h
          · exact h
          · have := hspans' other hother
            omega
        · exact fun a ha b hb ↦
            happart a (List.mem_cons_of_mem _ ha) b (List.mem_cons_of_mem _ hb)

/-- Spans that fit and whose edits are known are rendered. -/
theorem renderFrom_complete (markers : Markers) (out : Text) {cursor : Nat}
    (previous : Option Nat) {spans : List PlannedSpan} (hfits : Fits cursor spans)
    (hedits : ∀ span ∈ spans, ∃ edit, edits[span.owner]? = some edit) :
    ∃ result, renderFrom t edits markers out cursor previous spans = .ok result := by
  induction spans generalizing out cursor previous with
  | nil => exact ⟨_, rfl⟩
  | cons span rest ih =>
      obtain ⟨⟨edit, hedit⟩, hedits'⟩ := List.forall_mem_cons.mp hedits
      simp only [renderFrom, if_neg (Nat.not_lt_of_le hfits.1), hedit]
      exact ih _ _ hfits.2 hedits'

/-- A plan is rendered when its spans fit. -/
theorem render_ok_iff (markers : Markers) {plan : Plan} (hplan : ofEdits t edits = .ok plan) :
    (∃ result, plan.render t edits markers = .ok result) ↔ Fits 0 plan.spans := by
  constructor
  · rintro ⟨result, h⟩
    exact fits_of_render h
  · intro hfits
    have hedits : ∀ span ∈ plan.spans, ∃ edit, edits[span.owner]? = some edit :=
      fun span hspan ↦ exists_edit_of_span hplan hspan
    obtain ⟨out, hout⟩ := renderFrom_complete (t := t) markers [] none hfits hedits
    exact ⟨matchEnding t out, by rw [render, hout]; rfl⟩

/-- The spans of a plan fit when none of them overlaps another. -/
theorem fits_spans_iff {plan : Plan} (hplan : ofEdits t edits = .ok plan) :
    Fits 0 plan.spans ↔ ∀ a ∈ plan.spans, ∀ b ∈ plan.spans, a ≠ b → a.Apart b :=
  fits_iff_apart (ofEdits_accounts hplan).ordered (fun _ hspan ↦ (isLineRun_span hplan hspan).lt)
    fun _ _ ↦ Nat.zero_le _

/-- Edits are planned and rendered when their matches allow it. -/
theorem acceptable_iff (markers : Markers) :
    (∃ plan result, ofEdits t edits = .ok plan ∧ plan.render t edits markers = .ok result) ↔
      Acceptable t edits := by
  constructor
  · rintro ⟨plan, result, hplan, hrender⟩
    obtain ⟨hcounts, hseparate⟩ := ofEdits_ok_iff.mp ⟨plan, hplan⟩
    refine ⟨hcounts, hseparate, fun a b ha hb ↦ ?_⟩
    exact (fits_spans_iff hplan).mp (fits_of_render hrender) a ((mem_spans_iff hplan).mpr ha) b
      ((mem_spans_iff hplan).mpr hb)
  · rintro ⟨hcounts, hseparate, happart⟩
    obtain ⟨plan, hplan⟩ := ofEdits_ok_iff.mpr ⟨hcounts, hseparate⟩
    have hfits : Fits 0 plan.spans := (fits_spans_iff hplan).mpr fun a ha b hb ↦
      happart a b ((mem_spans_iff hplan).mp ha) ((mem_spans_iff hplan).mp hb)
    obtain ⟨result, hrender⟩ := (render_ok_iff markers hplan).mpr hfits
    exact ⟨plan, result, hplan, hrender⟩

end Plan

end MarkedEdits
