import MarkedEdits.Text.Search

/-!
# What the searches find

A needle occurs at an offset when the text is some front of that size, the needle, and a rest. The
forward search returns the least offset of an occurrence from its start on
(`findFrom_eq_some_iff`), and the backward search the greatest offset of an occurrence that ends by
its bound (`rfindWithin_eq_some_iff`). Neither misses an occurrence.
-/

namespace MarkedEdits

namespace Text

/-- The needle occurs in the text at the offset. -/
def OccursAt (t needle : Text) (i : Nat) : Prop :=
  ∃ before after, t = before ++ needle ++ after ∧ size before = i

/-- Two cuts of one text are apart by a text of their own. -/
theorem exists_between {a b x y : Text} (h : a ++ x = b ++ y) (hle : size a ≤ size b) :
    ∃ between, b = a ++ between ∧ x = between ++ y := by
  rcases List.append_eq_append_iff.mp h with ⟨between, hb, hx⟩ | ⟨between, ha, hy⟩
  · exact ⟨between, hb, hx⟩
  · have hnil : between = [] := by
      rw [ha, size_append] at hle
      exact size_eq_zero_iff.mp (by omega)
    subst hnil
    exact ⟨[], by simpa using ha.symm, by simpa using hy.symm⟩

/-- Where a needle occurs, the offset is a boundary. -/
theorem OccursAt.isBoundary {t needle : Text} {i : Nat} (h : OccursAt t needle i) :
    IsBoundary t i := by
  obtain ⟨before, after, rfl, rfl⟩ := h
  exact isBoundary_iff.mpr ⟨before, needle ++ after, by simp, rfl⟩

/-- Where an occurrence ends is a boundary. -/
theorem OccursAt.isBoundary_end {t needle : Text} {i : Nat} (h : OccursAt t needle i) :
    IsBoundary t (i + size needle) := by
  obtain ⟨before, after, rfl, rfl⟩ := h
  exact isBoundary_iff.mpr ⟨before ++ needle, after, rfl, by simp⟩

/-- A boundary of a text is one of any longer text. -/
theorem IsBoundary.append {t : Text} {n : Nat} (h : IsBoundary t n) (rest : Text) :
    IsBoundary (t ++ rest) n := by
  obtain ⟨front, back, rfl, rfl⟩ := isBoundary_iff.mp h
  exact isBoundary_iff.mpr ⟨front, back ++ rest, by simp, rfl⟩

/-- A newline behind the text makes no difference to where something without newlines occurs. -/
theorem occursAt_concat_newline {t needle : Text} (hneedle : '\n' ∉ needle) (hne : needle ≠ [])
    {i : Nat} : OccursAt (t ++ ['\n']) needle i ↔ OccursAt t needle i := by
  constructor
  · rintro ⟨before, after, ht, rfl⟩
    rcases List.eq_nil_or_concat after with rfl | ⟨most, last, rfl⟩
    · -- the needle would end with the newline
      obtain ⟨front, last, rfl⟩ := List.eq_nil_or_concat needle |>.resolve_left hne
      rw [List.concat_eq_append, List.append_nil, ← List.append_assoc] at ht
      rw [List.concat_eq_append, ← (List.append_inj' ht rfl).2] at hneedle
      simp at hneedle
    · rw [List.concat_eq_append, ← List.append_assoc] at ht
      exact ⟨before, most, (List.append_inj' ht rfl).1, rfl⟩
  · rintro ⟨before, after, rfl, rfl⟩
    exact ⟨before, after ++ ['\n'], by simp, rfl⟩

/-- A text that does not begin with the needle has its occurrences after the first character. -/
theorem eq_cons_of_not_isPrefixOf {needle t before after : Text} {c : Char}
    (hpre : ¬ needle.isPrefixOf (c :: t) = true) (h : c :: t = before ++ needle ++ after) :
    ∃ front, before = c :: front ∧ t = front ++ needle ++ after := by
  cases before with
  | nil =>
      exact absurd (List.isPrefixOf_iff_prefix.mpr ⟨after, h.symm⟩) hpre
  | cons d front =>
      simp only [List.cons_append, List.cons.injEq] at h
      obtain ⟨rfl, ht⟩ := h
      exact ⟨front, rfl, ht⟩

/-- No occurrence lies before the one that `splitFirst?` returns. -/
theorem size_le_of_splitFirst? {needle t before after front rest : Text}
    (h : splitFirst? needle t = some (before, after)) (ht : t = front ++ needle ++ rest) :
    size before ≤ size front := by
  induction t generalizing before front with
  | nil =>
      simp only [splitFirst?] at h
      split at h
      · cases h
        exact Nat.zero_le _
      · cases h
  | cons c t ih =>
      simp only [splitFirst?] at h
      split at h
      · cases h
        exact Nat.zero_le _
      · -- the needle does not begin here, so neither split is at the first character
        next hpre =>
          obtain ⟨⟨b, a⟩, hs, hb⟩ := Option.map_eq_some_iff.mp h
          cases hb
          obtain ⟨front', rfl, ht'⟩ := eq_cons_of_not_isPrefixOf hpre ht
          simpa using ih hs ht'

/-- `splitFirst?` fails only where there is no occurrence. -/
theorem splitFirst?_ne_none (needle before after : Text) :
    splitFirst? needle (before ++ needle ++ after) ≠ none := by
  intro h
  generalize ht : before ++ needle ++ after = t at h
  induction t generalizing before with
  | nil =>
      obtain ⟨h1, h2⟩ := List.append_eq_nil_iff.mp ht
      obtain ⟨rfl, rfl⟩ := List.append_eq_nil_iff.mp h1
      simp [splitFirst?] at h
  | cons c t ih =>
      simp only [splitFirst?] at h
      split at h
      · cases h
      · next hpre =>
          obtain ⟨front, -, ht'⟩ := eq_cons_of_not_isPrefixOf hpre ht.symm
          exact ih front ht'.symm (Option.map_eq_none_iff.mp h)

/-- A needle is contained in a text when the text has it as an infix. -/
theorem contains_iff {needle t : Text} : contains needle t = true ↔ needle <:+: t := by
  unfold contains
  constructor
  · intro h
    obtain ⟨⟨before, after⟩, hs⟩ := Option.isSome_iff_exists.mp h
    exact ⟨before, after, (eq_of_splitFirst? hs).symm⟩
  · rintro ⟨before, after, rfl⟩
    exact Option.isSome_iff_ne_none.mpr (splitFirst?_ne_none needle before after)

/-- A needle is contained in a text when it occurs at some offset. -/
theorem contains_iff_exists_occursAt {needle t : Text} :
    contains needle t = true ↔ ∃ i, OccursAt t needle i := by
  rw [contains_iff]
  constructor
  · rintro ⟨before, after, rfl⟩
    exact ⟨size before, before, after, rfl, rfl⟩
  · rintro ⟨-, before, after, rfl, -⟩
    exact ⟨before, after, rfl⟩

/-! ## The forward search -/

/-- What the forward search returns is the first occurrence from its start on. -/
theorem findFrom_first {t needle : Text} {start i : Nat} (h : findFrom t needle start = some i) :
    IsBoundary t start ∧ start ≤ i ∧ OccursAt t needle i ∧
      ∀ j, start ≤ j → OccursAt t needle j → i ≤ j := by
  simp only [findFrom, Option.bind_eq_bind, Option.bind_eq_some_iff, Option.pure_def,
    Option.some.injEq, Prod.exists] at h
  obtain ⟨front, rest, hcut, before, after, hfind, rfl⟩ := h
  obtain ⟨rfl, rfl⟩ := splitAt?_eq_some_iff.mp hcut
  refine ⟨isBoundary_iff.mpr ⟨front, rest, rfl, rfl⟩, Nat.le_add_right _ _, ?_, ?_⟩
  · exact ⟨front ++ before, after, by simp [eq_of_splitFirst? hfind], by simp⟩
  · -- an occurrence behind the start is one in what remains from there
    rintro j hj ⟨a, b, hab, rfl⟩
    obtain ⟨between, rfl, hrest⟩ := exists_between (hab.trans (List.append_assoc a needle b)) hj
    rw [← List.append_assoc] at hrest
    rw [size_append]
    exact Nat.add_le_add_left (size_le_of_splitFirst? hfind hrest) _

/-- The forward search finds something when there is an occurrence from its start on. -/
theorem exists_findFrom {t needle : Text} {start j : Nat} (hstart : IsBoundary t start)
    (hj : start ≤ j) (h : OccursAt t needle j) : ∃ i, findFrom t needle start = some i := by
  obtain ⟨front, rest, rfl, rfl⟩ := isBoundary_iff.mp hstart
  obtain ⟨a, b, hab, rfl⟩ := h
  obtain ⟨between, -, hrest⟩ := exists_between (hab.trans (List.append_assoc a needle b)) hj
  rw [← List.append_assoc] at hrest
  obtain ⟨⟨before, after⟩, hs⟩ :=
    Option.ne_none_iff_exists'.mp (splitFirst?_ne_none needle between b)
  refine ⟨size front + size before, ?_⟩
  have hcut : splitAt? (front ++ rest) (size front) = some (front, rest) :=
    splitAt?_eq_some_iff.mpr ⟨rfl, rfl⟩
  rw [← hrest] at hs
  simp [findFrom, hcut, hs]

/-- The forward search returns the least offset of an occurrence from its start on. -/
theorem findFrom_eq_some_iff {t needle : Text} {start i : Nat} :
    findFrom t needle start = some i ↔
      IsBoundary t start ∧ start ≤ i ∧ OccursAt t needle i ∧
        ∀ j, start ≤ j → OccursAt t needle j → i ≤ j := by
  constructor
  · exact findFrom_first
  · rintro ⟨hstart, hle, hocc, hleast⟩
    obtain ⟨found, hfound⟩ := exists_findFrom hstart hle hocc
    obtain ⟨-, hle', hocc', hleast'⟩ := findFrom_first hfound
    rw [hfound, Nat.le_antisymm (hleast' i hle hocc) (hleast found hle' hocc')]

/-! ## The backward search -/

/-- `splitLast?` fails only where there is no occurrence. -/
theorem splitLast?_ne_none (needle before after : Text) :
    splitLast? needle (before ++ needle ++ after) ≠ none := by
  intro h
  generalize ht : before ++ needle ++ after = t at h
  induction t generalizing before with
  | nil =>
      obtain ⟨h1, h2⟩ := List.append_eq_nil_iff.mp ht
      obtain ⟨rfl, rfl⟩ := List.append_eq_nil_iff.mp h1
      simp [splitLast?] at h
  | cons c t ih =>
      simp only [splitLast?] at h
      split at h
      · cases h
      · next hnone =>
          split at h
          · cases h
          · next hpre =>
              -- the last occurrence is sought from the end, so the tail was searched before
              obtain ⟨front, -, ht'⟩ := eq_cons_of_not_isPrefixOf hpre ht.symm
              exact ih front ht'.symm hnone

/-- No occurrence lies after the one that `splitLast?` returns. -/
theorem size_le_of_splitLast? {needle t before after front rest : Text}
    (h : splitLast? needle t = some (before, after)) (ht : t = front ++ needle ++ rest) :
    size front ≤ size before := by
  induction t generalizing before front with
  | nil =>
      obtain ⟨h1, -⟩ := List.append_eq_nil_iff.mp ht.symm
      obtain ⟨rfl, -⟩ := List.append_eq_nil_iff.mp h1
      exact Nat.zero_le _
  | cons c t ih =>
      simp only [splitLast?] at h
      cases front with
      | nil => exact Nat.zero_le _
      | cons d front =>
          simp only [List.cons_append, List.cons.injEq] at ht
          obtain ⟨rfl, ht⟩ := ht
          split at h
          · next b a hs =>
              cases h
              simpa using ih hs ht
          · next hnone =>
              rw [ht] at hnone
              exact absurd hnone (splitLast?_ne_none needle front rest)

/-- What the backward search returns is the last occurrence that ends by its bound. -/
theorem rfindWithin_last {t needle : Text} {bound i : Nat}
    (h : rfindWithin t needle bound = some i) :
    IsBoundary t bound ∧ OccursAt t needle i ∧ i + size needle ≤ bound ∧
      ∀ j, OccursAt t needle j → j + size needle ≤ bound → j ≤ i := by
  simp only [rfindWithin, Option.bind_eq_bind, Option.bind_eq_some_iff, Option.pure_def,
    Option.some.injEq, Prod.exists] at h
  obtain ⟨front, rest, hcut, before, after, hfind, rfl⟩ := h
  obtain ⟨rfl, rfl⟩ := splitAt?_eq_some_iff.mp hcut
  have hfront := eq_of_splitLast? hfind
  refine ⟨isBoundary_iff.mpr ⟨front, rest, rfl, rfl⟩, ?_, ?_, ?_⟩
  · exact ⟨before, after ++ rest, by simp [hfront], rfl⟩
  · rw [hfront]
    simp
  · rintro j ⟨a, b, hab, rfl⟩ hj
    obtain ⟨between, hfront', -⟩ := exists_between hab.symm (by simpa using hj)
    exact size_le_of_splitLast? hfind hfront'

/-- The backward search finds something when an occurrence ends by its bound. -/
theorem exists_rfindWithin {t needle : Text} {bound j : Nat} (hbound : IsBoundary t bound)
    (h : OccursAt t needle j) (hj : j + size needle ≤ bound) :
    ∃ i, rfindWithin t needle bound = some i := by
  obtain ⟨front, rest, rfl, rfl⟩ := isBoundary_iff.mp hbound
  obtain ⟨a, b, hab, rfl⟩ := h
  obtain ⟨between, hfront, -⟩ := exists_between hab.symm (by simpa using hj)
  obtain ⟨⟨before, after⟩, hs⟩ :=
    Option.ne_none_iff_exists'.mp (splitLast?_ne_none needle a between)
  refine ⟨size before, ?_⟩
  have hcut : splitAt? (front ++ rest) (size front) = some (front, rest) :=
    splitAt?_eq_some_iff.mpr ⟨rfl, rfl⟩
  rw [← hfront] at hs
  simp [rfindWithin, hcut, hs]

/-- The backward search returns the greatest offset of an occurrence that ends by its bound. -/
theorem rfindWithin_eq_some_iff {t needle : Text} {bound i : Nat} :
    rfindWithin t needle bound = some i ↔
      IsBoundary t bound ∧ OccursAt t needle i ∧ i + size needle ≤ bound ∧
        ∀ j, OccursAt t needle j → j + size needle ≤ bound → j ≤ i := by
  constructor
  · exact rfindWithin_last
  · rintro ⟨hbound, hocc, hle, hgreatest⟩
    obtain ⟨found, hfound⟩ := exists_rfindWithin hbound hocc hle
    obtain ⟨-, hocc', hle', hgreatest'⟩ := rfindWithin_last hfound
    rw [hfound, Nat.le_antisymm (hgreatest found hocc' hle') (hgreatest' i hocc hle)]

end Text

end MarkedEdits
