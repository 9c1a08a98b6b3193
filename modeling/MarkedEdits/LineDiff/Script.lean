import MarkedEdits.LineDiff.Middle

/-!
# Edit scripts

An edit script makes one list of lines into another by runs of lines that are kept, deleted or
inserted. Its old lines and its new lines are the two lists: see `oldLines_script` and
`newLines_script`.
-/

namespace MarkedEdits

namespace LineDiff

/-- What happens to a run of lines. -/
inductive Kind where
  | keep
  | delete
  | insert
  deriving DecidableEq, Repr

/-- A run of lines that are kept, deleted or inserted together. -/
structure Step where
  kind : Kind
  lines : List Text
  deriving DecidableEq, Repr

/-- The lines before the script is carried out. -/
def oldLines (steps : List Step) : List Text :=
  steps.flatMap fun step ↦ if step.kind = .insert then [] else step.lines

/-- The lines after the script is carried out. -/
def newLines (steps : List Step) : List Text :=
  steps.flatMap fun step ↦ if step.kind = .delete then [] else step.lines

/-- The lines with which both lists begin. -/
def commonPrefix : List Text → List Text → List Text
  | x :: a, y :: b => if x = y then x :: commonPrefix a b else []
  | _, _ => []

/-- The step for the lines, or none if there are no lines. -/
def step (kind : Kind) (lines : List Text) : List Step :=
  if lines = [] then [] else [⟨kind, lines⟩]

/-- The script for the lines between those that both lists begin with and those that both end
with. It goes through the middle of a shortest script. -/
def script (a b : List Text) : List Step :=
  let front := (commonPrefix a b).length
  let back := (commonPrefix (a.drop front).reverse (b.drop front).reverse).length
  let a' := (a.drop front).take (a.length - front - back)
  let b' := (b.drop front).take (b.length - front - back)
  let between :=
    match middle? a'.toArray b'.toArray with
    | some (x, y) =>
        if _h : a' ≠ [] ∧ b' ≠ [] ∧ 0 < x + y ∧ (x < a'.length ∨ y < b'.length) then
          script (a'.take x) (b'.take y) ++ script (a'.drop x) (b'.drop y)
        else step .delete a' ++ step .insert b'
    | none => step .delete a' ++ step .insert b'
  step .keep (a.take front) ++ between ++ step .keep (a.drop (front + a'.length))
termination_by a.length + b.length
decreasing_by
  all_goals
    have := List.length_pos_iff.2 _h.1
    have := List.length_pos_iff.2 _h.2.1
    have : a'.length ≤ a.length := by simp only [a', List.length_take, List.length_drop]; omega
    have : b'.length ≤ b.length := by simp only [b', List.length_take, List.length_drop]; omega
    simp only [List.length_take, List.length_drop]
    omega

/-- The old lines of two scripts one after the other. -/
@[simp] theorem oldLines_append (s t : List Step) : oldLines (s ++ t) = oldLines s ++ oldLines t := by
  simp [oldLines]

/-- The new lines of two scripts one after the other. -/
@[simp] theorem newLines_append (s t : List Step) : newLines (s ++ t) = newLines s ++ newLines t := by
  simp [newLines]

/-- The old lines of a single step. -/
@[simp] theorem oldLines_step (kind : Kind) (lines : List Text) :
    oldLines (step kind lines) = if kind = .insert then [] else lines := by
  unfold step oldLines
  split <;> simp_all

/-- The new lines of a single step. -/
@[simp] theorem newLines_step (kind : Kind) (lines : List Text) :
    newLines (step kind lines) = if kind = .delete then [] else lines := by
  unfold step newLines
  split <;> simp_all

/-- The first list begins with the lines that both begin with. -/
theorem take_length_commonPrefix (a b : List Text) :
    a.take (commonPrefix a b).length = commonPrefix a b := by
  induction a generalizing b with
  | nil => simp [commonPrefix]
  | cons x a ih =>
      cases b with
      | nil => simp [commonPrefix]
      | cons y b => by_cases h : x = y <;> simp [commonPrefix, h, ih]

/-- The lines that both lists begin with do not depend on their order. -/
theorem commonPrefix_comm (a b : List Text) : commonPrefix a b = commonPrefix b a := by
  induction a generalizing b with
  | nil => cases b <;> simp [commonPrefix]
  | cons x a ih =>
      cases b with
      | nil => simp [commonPrefix]
      | cons y b =>
          by_cases h : x = y
          · simp [commonPrefix, h, ih]
          · simp [commonPrefix, h, Ne.symm h]

/-- No list is shorter than what it begins with. -/
theorem length_commonPrefix_le (a b : List Text) : (commonPrefix a b).length ≤ a.length := by
  rw [← take_length_commonPrefix a b, List.length_take]
  omega

/-- Both lists end with the lines that their reversals begin with. -/
theorem drop_commonPrefix_reverse (a b : List Text) :
    a.drop (a.length - (commonPrefix a.reverse b.reverse).length) =
      b.drop (b.length - (commonPrefix a.reverse b.reverse).length) := by
  rw [← List.reverse_inj]
  rw [List.reverse_drop, List.reverse_drop]
  have ha := length_commonPrefix_le a.reverse b.reverse
  have hb := length_commonPrefix_le b.reverse a.reverse
  rw [commonPrefix_comm] at hb
  simp only [List.length_reverse] at ha hb
  rw [Nat.sub_sub_self ha, Nat.sub_sub_self hb, take_length_commonPrefix, commonPrefix_comm,
    take_length_commonPrefix]

/-- The first lines of a list and those after them are the list. -/
theorem take_append_drop_length (a : List Text) (n : Nat) :
    a.take n ++ a.drop (a.take n).length = a :=
  List.prefix_iff_eq_append.1 (List.take_prefix n a)

/-- The script begins with the first list. -/
theorem oldLines_script (a b : List Text) : oldLines (script a b) = a := by
  fun_induction script a b with
  | case1 a b front back a' b' between ih1 ih2 =>
      have hbetween : oldLines between = a' := by
        unfold between
        split
        · split
          · next h => simp [ih1 _ _ h, ih2 _ _ h]
          · simp
        · simp
      simp only [oldLines_append, oldLines_step, hbetween, if_neg (by decide : ¬Kind.keep = .insert),
        ← List.drop_drop, List.append_assoc]
      rw [take_append_drop_length, List.take_append_drop]

/-- The script ends with the second list. -/
theorem newLines_script (a b : List Text) : newLines (script a b) = b := by
  fun_induction script a b with
  | case1 a b front back a' b' between ih1 ih2 =>
      have hbetween : newLines between = b' := by
        unfold between
        split
        · split
          · next h => simp [ih1 _ _ h, ih2 _ _ h]
          · simp
        · simp
      have hfront : a.take front = b.take front := by
        rw [take_length_commonPrefix, commonPrefix_comm, ← take_length_commonPrefix,
          commonPrefix_comm]
      have hback : (a.drop front).drop a'.length = (b.drop front).drop b'.length := by
        have h := drop_commonPrefix_reverse (a.drop front) (b.drop front)
        have ha : a'.length = (a.drop front).length - back := by
          simp only [a', List.length_take, List.length_drop]
          omega
        have hb : b'.length = (b.drop front).length - back := by
          simp only [b', List.length_take, List.length_drop]
          omega
        rw [ha, hb]
        exact h
      simp only [newLines_append, newLines_step, hbetween, if_neg (by decide : ¬Kind.keep = .delete),
        ← List.drop_drop, List.append_assoc]
      rw [hback, take_append_drop_length, hfront, List.take_append_drop]

end LineDiff

end MarkedEdits
