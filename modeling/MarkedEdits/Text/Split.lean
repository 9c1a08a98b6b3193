import MarkedEdits.Text.Basic

/-!
# Splitting at a character

A text splits at a separator into the pieces between its occurrences, which `join` puts together
again. The empty text is one empty piece.
-/

namespace MarkedEdits

namespace Text

/-- The pieces of the text between the separators. -/
def splitOn (separator : Char) : Text → List Text
  | [] => [[]]
  | c :: t =>
      if c = separator then [] :: splitOn separator t
      else
        match splitOn separator t with
        | [] => [[c]]
        | piece :: rest => (c :: piece) :: rest

/-- The pieces with the separator between them. -/
def join (separator : Char) : List Text → Text
  | [] => []
  | [piece] => piece
  | piece :: next :: rest => piece ++ separator :: join separator (next :: rest)

/-- There is always a piece. -/
theorem splitOn_ne_nil (separator : Char) (t : Text) : splitOn separator t ≠ [] := by
  cases t with
  | nil => simp [splitOn]
  | cons c t =>
      rw [splitOn]
      split
      · simp
      · split <;> simp

/-- No piece has a separator in it. -/
theorem not_mem_of_mem_splitOn {separator : Char} {t piece : Text}
    (h : piece ∈ splitOn separator t) : separator ∉ piece := by
  induction t generalizing piece with
  | nil =>
      obtain rfl := List.mem_singleton.mp h
      exact List.not_mem_nil
  | cons c t ih =>
      rw [splitOn] at h
      split at h
      · rcases List.mem_cons.mp h with rfl | hrest
        · exact List.not_mem_nil
        · exact ih hrest
      · next hne =>
          cases hs : splitOn separator t with
          | nil => exact absurd hs (splitOn_ne_nil separator t)
          | cons first rest =>
              rw [hs] at h ih
              rcases List.mem_cons.mp h with rfl | hrest
              · rw [List.mem_cons, not_or]
                exact ⟨Ne.symm hne, ih List.mem_cons_self⟩
              · exact ih (List.mem_cons_of_mem first hrest)

/-- A text without separators is its only piece. -/
theorem splitOn_of_not_mem {separator : Char} {t : Text} (h : separator ∉ t) :
    splitOn separator t = [t] := by
  induction t with
  | nil => rfl
  | cons c t ih =>
      obtain ⟨hc, ht⟩ := not_or.mp (mt List.mem_cons.mpr h)
      rw [splitOn, if_neg (Ne.symm hc), ih ht]

/-- The first separator ends the first piece. -/
theorem splitOn_append_cons {separator : Char} {piece : Text} (h : separator ∉ piece)
    (t : Text) : splitOn separator (piece ++ separator :: t) = piece :: splitOn separator t := by
  induction piece with
  | nil => simp [splitOn]
  | cons c piece ih =>
      obtain ⟨hc, hpiece⟩ := not_or.mp (mt List.mem_cons.mpr h)
      rw [List.cons_append, splitOn, if_neg (Ne.symm hc), ih hpiece]

/-- Joining the pieces gives the text. -/
@[simp] theorem join_splitOn (separator : Char) (t : Text) :
    join separator (splitOn separator t) = t := by
  induction t with
  | nil => rfl
  | cons c t ih =>
      rw [splitOn]
      split
      · next h =>
          subst h
          cases hs : splitOn c t with
          | nil => exact absurd hs (splitOn_ne_nil c t)
          | cons piece rest => simp [join, ← hs, ih]
      · cases hs : splitOn separator t with
        | nil => exact absurd hs (splitOn_ne_nil separator t)
        | cons piece rest =>
            rw [hs] at ih
            cases rest <;> simp_all [join]

/-- Further pieces are joined behind the first, each with a separator in front. -/
theorem join_cons (separator : Char) (piece : Text) (rest : List Text) :
    join separator (piece :: rest) = piece ++ rest.flatMap (separator :: ·) := by
  induction rest generalizing piece with
  | nil => simp [join]
  | cons next rest ih =>
      show piece ++ separator :: join separator (next :: rest) = _
      rw [ih, List.flatMap_cons]
      rfl

/-- Further pieces are joined behind others, each with a separator in front. -/
theorem join_append {separator : Char} {pieces : List Text} (hne : pieces ≠ [])
    (more : List Text) :
    join separator (pieces ++ more) = join separator pieces ++ more.flatMap (separator :: ·) := by
  obtain ⟨piece, rest, rfl⟩ := List.exists_cons_of_ne_nil hne
  rw [List.cons_append, join_cons, join_cons, List.flatMap_append, List.append_assoc]

/-- The characters of joined pieces are separators and those of the pieces. -/
theorem mem_join {separator c : Char} {pieces : List Text} (h : c ∈ join separator pieces) :
    c = separator ∨ ∃ piece ∈ pieces, c ∈ piece := by
  cases pieces with
  | nil => cases h
  | cons piece rest =>
      rw [join_cons, List.mem_append, List.mem_flatMap] at h
      rcases h with hfirst | ⟨other, hother, hc⟩
      · exact .inr ⟨piece, List.mem_cons_self, hfirst⟩
      · rcases List.mem_cons.mp hc with hseparator | hmem
        · exact .inl hseparator
        · exact .inr ⟨other, List.mem_cons_of_mem _ hother, hmem⟩

/-- The characters of a piece are characters of the split text. -/
theorem mem_of_mem_splitOn {separator c : Char} {t piece : Text}
    (hpiece : piece ∈ splitOn separator t) (hc : c ∈ piece) : c ∈ t := by
  rw [← join_splitOn separator t]
  obtain ⟨first, rest, hpieces⟩ := List.exists_cons_of_ne_nil (splitOn_ne_nil separator t)
  rw [hpieces] at hpiece ⊢
  rw [join_cons, List.mem_append, List.mem_flatMap]
  rcases List.mem_cons.mp hpiece with rfl | hrest
  · exact .inl hc
  · exact .inr ⟨piece, hrest, List.mem_cons_of_mem _ hc⟩

/-- The pieces that are joined come back when the text is split. What follows behind one more
separator is split by itself. -/
theorem splitOn_join_append {separator : Char} {pieces : List Text} (hne : pieces ≠ [])
    (h : ∀ piece ∈ pieces, separator ∉ piece) (t : Text) :
    splitOn separator (join separator pieces ++ separator :: t) =
      pieces ++ splitOn separator t := by
  induction pieces with
  | nil => exact absurd rfl hne
  | cons piece rest ih =>
      obtain ⟨hpiece, hrest⟩ := List.forall_mem_cons.mp h
      cases rest with
      | nil => exact splitOn_append_cons hpiece t
      | cons next rest =>
          show splitOn separator (piece ++ separator :: join separator (next :: rest) ++ _) = _
          rw [List.append_assoc, List.cons_append, splitOn_append_cons hpiece,
            ih (List.cons_ne_nil _ _) hrest]
          rfl

/-- The pieces that are joined come back when the text is split. -/
theorem splitOn_join {separator : Char} {pieces : List Text} (hne : pieces ≠ [])
    (h : ∀ piece ∈ pieces, separator ∉ piece) :
    splitOn separator (join separator pieces) = pieces := by
  obtain ⟨front, last, rfl⟩ := List.eq_nil_or_concat pieces |>.resolve_left hne
  rw [List.concat_eq_append] at h ⊢
  obtain ⟨hfront, hlast⟩ := List.forall_mem_append.mp h
  have hpiece := splitOn_of_not_mem (hlast last List.mem_cons_self)
  by_cases hnil : front = []
  · rw [hnil]
    exact hpiece
  · rw [join_append hnil, List.flatMap_singleton, splitOn_join_append hnil hfront, hpiece]

end Text

end MarkedEdits
