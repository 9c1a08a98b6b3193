import MarkedEdits.LineDiff.Script

/-!
# Sliding edits

The same edit can often be placed differently: lines that are inserted after a line may be inserted
before it when they end with that line, and deleted and inserted lines may change places. Edits are
moved so that those of one kind come together. An edit that meets one of its kind is joined with it.
-/

namespace MarkedEdits

namespace LineDiff

/-- The steps with one more kept line in front. -/
def keepFirst (line : Text) : List Step → List Step
  | ⟨.keep, lines⟩ :: rest => ⟨.keep, line :: lines⟩ :: rest
  | steps => ⟨.keep, [line]⟩ :: steps

/-- The steps, in reverse order, with one more kept line at their end. -/
def keepLast (line : Text) : List Step → List Step
  | ⟨.keep, lines⟩ :: rest => ⟨.keep, lines ++ [line]⟩ :: rest
  | steps => ⟨.keep, [line]⟩ :: steps

/-- A place in a script: the steps before an edit in reverse order, its lines, and the steps after
it. -/
structure Place where
  before : List Step
  lines : List Text
  after : List Step

/-- The lines of the steps, counted with one more for each step. -/
def weight : List Step → Nat
  | [] => 0
  | step :: rest => step.lines.length + 1 + weight rest

/-- The weight of a step and those after it. -/
theorem weight_cons (step : Step) (rest : List Step) :
    weight (step :: rest) = step.lines.length + 1 + weight rest :=
  rfl

/-- Moves an edit up as far as it goes: past edits of the other kind, and, if it inserts lines, past
kept lines with which it ends. -/
def raise (kind : Kind) : List Step → List Text → List Step → Place
  | [], lines, after => ⟨[], lines, after⟩
  | ⟨.keep, kept⟩ :: rest, lines, after =>
      if h : kept = [] then raise kind rest lines after
      else if kind = .insert ∧ lines.getLast? = some (kept.getLast h) then
        raise kind (step .keep kept.dropLast ++ rest) (kept.getLast h :: lines.dropLast)
          (keepFirst (kept.getLast h) after)
      else ⟨⟨.keep, kept⟩ :: rest, lines, after⟩
  | ⟨other, more⟩ :: rest, lines, after =>
      if other = kind then raise kind rest (more ++ lines) after
      else raise kind rest lines (⟨other, more⟩ :: after)
termination_by before => weight before
decreasing_by
  all_goals simp only [weight_cons, step]
  · omega
  · have := List.length_pos_iff.2 h
    split <;> simp only [List.nil_append, List.cons_append, weight_cons, List.length_dropLast] <;> omega
  · omega
  · omega

/-- Moves an edit down as far as it goes: past edits of the other kind, and, if it inserts lines,
past kept lines with which it begins. -/
def lower (kind : Kind) : List Step → List Text → List Step → Place
  | before, lines, [] => ⟨before, lines, []⟩
  | before, lines, ⟨.keep, []⟩ :: rest => lower kind before lines rest
  | before, lines, ⟨.keep, line :: kept⟩ :: rest =>
      if kind = .insert ∧ lines.head? = some line then
        lower kind (keepLast line before) (lines.tail ++ [line]) (step .keep kept ++ rest)
      else ⟨before, lines, ⟨.keep, line :: kept⟩ :: rest⟩
  | before, lines, ⟨other, more⟩ :: rest =>
      if other = kind then lower kind before (lines ++ more) rest
      else lower kind (⟨other, more⟩ :: before) lines rest
termination_by _ _ after => weight after
decreasing_by
  all_goals simp only [weight_cons, step]
  · omega
  · split <;> simp only [List.nil_append, List.cons_append, weight_cons, List.length_cons] <;> omega
  · omega
  · omega

/-- The number of steps of a kind. -/
def countKind (kind : Kind) (steps : List Step) : Nat :=
  steps.countP (·.kind = kind)

/-- A step counts if it is of the kind. -/
theorem countKind_cons (kind : Kind) (step : Step) (rest : List Step) :
    countKind kind (step :: rest) = countKind kind rest + if step.kind = kind then 1 else 0 := by
  simp [countKind, List.countP_cons]

/-- One more kept line is no edit. -/
theorem countKind_keepFirst {kind : Kind} (h : kind ≠ .keep) (line : Text) (steps : List Step) :
    countKind kind (keepFirst line steps) = countKind kind steps := by
  unfold keepFirst
  split <;> simp [countKind_cons, h.symm]

/-- There are as many edits of the kind below an edit after it is moved up. -/
theorem countKind_after_raise {kind : Kind} (h : kind ≠ .keep) (before : List Step)
    (lines : List Text) (after : List Step) :
    countKind kind (raise kind before lines after).after = countKind kind after := by
  fun_induction raise kind before lines after with
  | case1 => rfl
  | case2 _ _ _ ih => exact ih
  | case3 _ _ _ _ _ _ ih => rw [ih, countKind_keepFirst h]
  | case4 => rfl
  | case5 _ _ _ _ _ ih => exact ih
  | case6 _ _ _ _ _ _ hne ih => rw [ih, countKind_cons]; simp [hne]

/-- There are no more edits of the kind below an edit after it is moved down. -/
theorem countKind_after_lower {kind : Kind} (h : kind ≠ .keep) (before : List Step)
    (lines : List Text) (after : List Step) :
    countKind kind (lower kind before lines after).after ≤ countKind kind after := by
  fun_induction lower kind before lines after with
  | case1 => exact Nat.le_refl _
  | case2 _ _ _ ih => rw [countKind_cons]; omega
  | case3 _ _ _ kept rest _ ih =>
      refine Nat.le_trans ih ?_
      rw [countKind_cons, step]
      split <;> simp [countKind_cons, h.symm]
  | case4 => exact Nat.le_refl _
  | case5 _ _ _ _ _ ih => rw [countKind_cons]; omega
  | case6 _ _ _ _ _ _ _ ih => rw [countKind_cons]; omega

/-- Moves every edit of a kind up and then down, from the first to the last. The steps that are done
come in reverse order. -/
def slide (kind : Kind) (h : kind ≠ .keep) : List Step → List Step → List Step
  | done, [] => done.reverse
  | done, step :: rest =>
      if step.kind = kind then
        let raised := raise kind done step.lines rest
        let place := lower kind raised.before raised.lines raised.after
        slide kind h (⟨kind, place.lines⟩ :: place.before) place.after
      else slide kind h (step :: done) rest
termination_by _ steps => (countKind kind steps, steps.length)
decreasing_by
  · apply Prod.Lex.left
    have hraise : countKind kind raised.after = _ := countKind_after_raise h done step.lines rest
    have hlower : countKind kind place.after ≤ _ :=
      countKind_after_lower h raised.before raised.lines raised.after
    rw [countKind_cons, if_pos ‹_›]
    change countKind kind place.after < _
    omega
  · simp_all [countKind_cons]
    apply Prod.Lex.right
    omega

/-- The script with its deletions and then its insertions moved together. -/
def settle (steps : List Step) : List Step :=
  slide .insert (by decide) [] (slide .delete (by decide) [] steps)

end LineDiff

end MarkedEdits
