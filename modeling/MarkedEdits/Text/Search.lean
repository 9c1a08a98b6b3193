import MarkedEdits.Text.Basic

/-!
# Occurrences of one text in another

An occurrence of a needle is a way to write the text as `before ++ needle ++ after`. The functions
`splitFirst?` and `splitLast?` pick the occurrence with the shortest and the longest `before`, and
the offset searches are read off them.
-/

namespace MarkedEdits

namespace Text

/-- The parts before and after the first occurrence of the needle. -/
def splitFirst? (needle : Text) : Text → Option (Text × Text)
  | [] => if needle.isPrefixOf [] then some ([], []) else none
  | c :: t =>
      if needle.isPrefixOf (c :: t) then some ([], (c :: t).drop needle.length)
      else (splitFirst? needle t).map fun (before, after) ↦ (c :: before, after)

/-- The parts before and after the last occurrence of the needle. -/
def splitLast? (needle : Text) : Text → Option (Text × Text)
  | [] => if needle.isPrefixOf [] then some ([], []) else none
  | c :: t =>
      match splitLast? needle t with
      | some (before, after) => some (c :: before, after)
      | none =>
          if needle.isPrefixOf (c :: t) then some ([], (c :: t).drop needle.length) else none

/-- The needle occurs somewhere in the text. -/
def contains (needle t : Text) : Bool :=
  (splitFirst? needle t).isSome

/-- The number of places at which the needle occurs, overlapping ones included. -/
def occurrences (needle : Text) : Text → Nat
  | [] => if needle.isPrefixOf [] then 1 else 0
  | c :: t => (if needle.isPrefixOf (c :: t) then 1 else 0) + occurrences needle t

/-- The offset of the first occurrence that begins at or after `start`; none when `start` is not a
boundary. -/
def findFrom (t needle : Text) (start : Nat) : Option Nat := do
  let (_, rest) ← splitAt? t start
  let (before, _) ← splitFirst? needle rest
  return start + size before

/-- The offset of the last occurrence that ends at or before `bound`; none when `bound` is not a
boundary. -/
def rfindWithin (t needle : Text) (bound : Nat) : Option Nat := do
  let (front, _) ← splitAt? t bound
  let (before, _) ← splitLast? needle front
  return size before

/-- A text that begins with the needle is the needle and what remains. -/
theorem eq_append_drop_of_isPrefixOf {needle t : Text} (h : needle.isPrefixOf t = true) :
    t = needle ++ t.drop needle.length := by
  obtain ⟨rest, rfl⟩ := List.isPrefixOf_iff_prefix.mp h
  simp

/-- What `splitFirst?` returns surrounds the needle. -/
theorem eq_of_splitFirst? {needle t before after : Text}
    (h : splitFirst? needle t = some (before, after)) : t = before ++ needle ++ after := by
  induction t generalizing before with
  | nil =>
      simp only [splitFirst?] at h
      split at h
      · next hp =>
          cases h
          simpa using eq_append_drop_of_isPrefixOf hp
      · cases h
  | cons c t ih =>
      simp only [splitFirst?] at h
      split at h
      · next hp =>
          cases h
          simpa using eq_append_drop_of_isPrefixOf hp
      · obtain ⟨⟨b, a⟩, hs, hb⟩ := Option.map_eq_some_iff.mp h
        cases hb
        simp [ih hs]

/-- What `splitLast?` returns surrounds the needle. -/
theorem eq_of_splitLast? {needle t before after : Text}
    (h : splitLast? needle t = some (before, after)) : t = before ++ needle ++ after := by
  induction t generalizing before with
  | nil =>
      simp only [splitLast?] at h
      split at h
      · next hp =>
          cases h
          simpa using eq_append_drop_of_isPrefixOf hp
      · cases h
  | cons c t ih =>
      simp only [splitLast?] at h
      split at h
      · next b a hs =>
          cases h
          simp [ih hs]
      · split at h
        · next hp =>
            cases h
            simpa using eq_append_drop_of_isPrefixOf hp
        · cases h

/-- A forward hit lies between the start of the search and the end of the text. -/
theorem findFrom_bounds {t needle : Text} {start i : Nat} (h : findFrom t needle start = some i) :
    start ≤ i ∧ i + size needle ≤ size t := by
  simp only [findFrom, Option.bind_eq_bind, Option.bind_eq_some_iff, Option.pure_def,
    Option.some.injEq, Prod.exists] at h
  obtain ⟨front, rest, hcut, before, after, hfind, rfl⟩ := h
  obtain ⟨rfl, rfl⟩ := splitAt?_eq_some_iff.mp hcut
  rw [eq_of_splitFirst? hfind]
  simp only [size_append]
  omega

end Text

end MarkedEdits
