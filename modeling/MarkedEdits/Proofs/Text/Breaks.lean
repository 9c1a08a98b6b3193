import MarkedEdits.Proofs.Text.Lines
import MarkedEdits.Proofs.Text.Search

/-!
# Breaks between lines

A break is an offset between two lines: the start of a line or the end of the text. `lineStart` and
`lineEnd` lead from an offset to the breaks around it. What lies between two breaks is a run of
whole lines, so the bodies of a text are those of the parts that breaks cut it into
(`bodies_dropBytes`).
-/

namespace MarkedEdits

namespace Text

/-- The offset lies between two lines, or at an end of the text. -/
def IsBreak (t : Text) (n : Nat) : Prop :=
  ∃ front rest, t = front ++ rest ∧ size front = n ∧ (AtLineStart front ∨ rest = [])

/-- The range is a run of whole lines and not empty. -/
structure IsLineRun (t : Text) (start stop : Nat) : Prop where
  isBreak_start : IsBreak t start
  isBreak_stop : IsBreak t stop
  lt : start < stop

/-- A break is a boundary. -/
theorem IsBreak.isBoundary {t : Text} {n : Nat} (h : IsBreak t n) : IsBoundary t n := by
  obtain ⟨front, rest, rfl, rfl, -⟩ := h
  exact isBoundary_iff.mpr ⟨front, rest, rfl, rfl⟩

/-- A break lies within the text. -/
theorem IsBreak.le_size {t : Text} {n : Nat} (h : IsBreak t n) : n ≤ size t := by
  obtain ⟨front, rest, rfl, rfl, -⟩ := h
  simp

/-- The first line begins at a break. -/
theorem isBreak_zero (t : Text) : IsBreak t 0 :=
  ⟨[], t, rfl, rfl, .inl (.inl rfl)⟩

/-- The last line ends at a break. -/
theorem isBreak_size (t : Text) : IsBreak t (size t) :=
  ⟨t, [], by simp, rfl, .inr rfl⟩

/-- A newline has one byte. -/
@[simp] theorem utf8Size_newline : '\n'.utf8Size = 1 := rfl

/-- A newline ends at the offset. -/
def AfterNewline (t : Text) (n : Nat) : Prop :=
  ∃ newline, OccursAt t ['\n'] newline ∧ n = newline + 1

/-- A break is an end of the text or stands right behind a newline. -/
theorem IsBreak.cases {t : Text} {n : Nat} (h : IsBreak t n) :
    n = 0 ∨ n = size t ∨ AfterNewline t n := by
  obtain ⟨front, rest, rfl, rfl, (rfl | hend) | rfl⟩ := h
  · exact .inl rfl
  · obtain ⟨most, rfl⟩ := endsWithNewline_iff.mp hend
    exact .inr (.inr ⟨size most, ⟨most, rest, rfl, rfl⟩, by simp⟩)
  · exact .inr (.inl (by simp))

/-- A run of lines begins with the text or behind a newline, and it ends behind a newline or with
the text. -/
theorem IsLineRun.ends {t : Text} {start stop : Nat} (h : IsLineRun t start stop) :
    (start = 0 ∨ AfterNewline t start) ∧ (stop = size t ∨ AfterNewline t stop) := by
  have hlt := h.lt
  have hle := h.isBreak_stop.le_size
  constructor
  · rcases h.isBreak_start.cases with hzero | hsize | hnewline
    · exact .inl hzero
    · omega
    · exact .inr hnewline
  · rcases h.isBreak_stop.cases with hzero | hends
    · omega
    · exact hends

/-- Every text is whole lines and a piece of a line. -/
theorem exists_eq_append_body (t : Text) :
    ∃ front body, t = front ++ body ∧ AtLineStart front ∧ '\n' ∉ body := by
  induction t using line_induction with
  | nil => exact ⟨[], [], rfl, .inl rfl, by simp⟩
  | last body hbody hne => exact ⟨[], body, rfl, .inl rfl, hbody⟩
  | cons body rest hbody ih =>
      obtain ⟨front, last, rfl, hfront, hlast⟩ := ih
      refine ⟨(body ++ ['\n']) ++ front, last, by simp, ?_, hlast⟩
      exact AtLineStart.append (.inr (endsWithNewline_iff.mpr ⟨body, rfl⟩)) hfront

/-- A newline that ends within the last piece of a line ends with the whole lines before it. -/
theorem newline_end_le {front body rest : Text} (hbody : '\n' ∉ body) {j : Nat}
    (hocc : OccursAt (front ++ body ++ rest) ['\n'] j) (hj : j + 1 ≤ size front + size body) :
    j + 1 ≤ size front := by
  obtain ⟨a, b, hab, rfl⟩ := hocc
  apply Nat.le_of_not_lt
  intro hlt
  -- otherwise the newline is one of the characters of the body
  obtain ⟨between, ha, hrest⟩ := exists_between (a := front) (x := body ++ rest) (b := a)
    (y := ['\n'] ++ b) (by simpa using hab) (by omega)
  obtain ⟨left, hbody', -⟩ := exists_between (a := between ++ ['\n']) (x := b) (b := body)
    (y := rest) (by simpa using hrest.symm) (by simp [ha] at hj ⊢; omega)
  exact hbody (by simp [hbody'])

/-- The line of an offset starts where the last whole line before the offset ends. -/
theorem lineStart_eq {front body : Text} (hfront : AtLineStart front) (hbody : '\n' ∉ body)
    (rest : Text) : lineStart (front ++ body ++ rest) (size front + size body) = size front := by
  rcases hfront with rfl | hend
  · cases hfound : rfindWithin ([] ++ body ++ rest) ['\n'] (size [] + size body) with
    | none => rw [lineStart, hfound, size_nil]
    | some newline =>
        obtain ⟨-, hocc, hle, -⟩ := rfindWithin_last hfound
        have := newline_end_le hbody hocc hle
        simp only [size_nil] at this
        omega
  · obtain ⟨most, rfl⟩ := endsWithNewline_iff.mp hend
    have hlast : rfindWithin (most ++ ['\n'] ++ body ++ rest) ['\n']
        (size (most ++ ['\n']) + size body) = some (size most) := by
      refine rfindWithin_eq_some_iff.mpr ⟨?_, ?_, ?_, fun j hocc hj ↦ ?_⟩
      · exact isBoundary_iff.mpr ⟨most ++ ['\n'] ++ body, rest, rfl, (size_append _ _).symm⟩
      · exact ⟨most, body ++ rest, by simp, rfl⟩
      · simp
      · have := newline_end_le hbody hocc hj
        simp only [size_append, size_cons, size_nil, utf8Size_newline] at this
        omega
    rw [lineStart, hlast, size_append]
    rfl

/-- What follows a text makes no difference to where its lines start. -/
theorem lineStart_append {t : Text} {pos : Nat} (h : IsBoundary t pos) (rest : Text) :
    lineStart (t ++ rest) pos = lineStart t pos := by
  obtain ⟨before, after, rfl, rfl⟩ := isBoundary_iff.mp h
  obtain ⟨front, body, rfl, hfront, hbody⟩ := exists_eq_append_body before
  rw [size_append, List.append_assoc _ after, lineStart_eq hfront hbody,
    lineStart_eq hfront hbody]

/-- The line of a boundary starts at a break that is not after the boundary. -/
theorem lineStart_spec {t : Text} {pos : Nat} (h : IsBoundary t pos) :
    IsBreak t (lineStart t pos) ∧ lineStart t pos ≤ pos := by
  obtain ⟨before, after, rfl, rfl⟩ := isBoundary_iff.mp h
  obtain ⟨front, body, rfl, hfront, hbody⟩ := exists_eq_append_body before
  rw [size_append, lineStart_eq hfront hbody]
  exact ⟨⟨front, body ++ after, by simp, rfl, .inl hfront⟩, Nat.le_add_right _ _⟩

/-- Boundaries with no newline between them are in one line. -/
theorem lineStart_congr {a between b : Text} (h : '\n' ∉ between) :
    lineStart (a ++ between ++ b) (size a + size between) =
      lineStart (a ++ between ++ b) (size a) := by
  obtain ⟨front, body, rfl, hfront, hbody⟩ := exists_eq_append_body a
  have hleft := lineStart_eq hfront hbody (between ++ b)
  have hbodies : '\n' ∉ body ++ between := by simp [hbody, h]
  have hright := lineStart_eq hfront hbodies b
  simp only [size_append, List.append_assoc] at hleft hright ⊢
  rw [hleft, Nat.add_assoc, hright]

/-- The line of a boundary ends at a break that is not before the boundary. -/
theorem lineEnd_spec {t : Text} {pos : Nat} (h : IsBoundary t pos) :
    IsBreak t (lineEnd t pos) ∧ pos ≤ lineEnd t pos := by
  unfold lineEnd
  split
  · next newline hfound =>
      obtain ⟨-, hle, ⟨before, after, ht, rfl⟩, -⟩ := findFrom_first hfound
      refine ⟨⟨before ++ ['\n'], after, ht, by simp, ?_⟩, by omega⟩
      exact .inl (.inr (endsWithNewline_iff.mpr ⟨before, rfl⟩))
  · next hnone =>
      obtain ⟨before, after, rfl, rfl⟩ := isBoundary_iff.mp h
      exact ⟨isBreak_size _, by simp⟩

/-- A later boundary is in the same line or a later one, by where the lines start. -/
theorem lineStart_mono {t : Text} {a b : Nat} (hb : IsBoundary t b) (hle : a ≤ b) :
    lineStart t a ≤ lineStart t b := by
  cases hfound : rfindWithin t ['\n'] a with
  | none =>
      rw [lineStart, hfound]
      exact Nat.zero_le _
  | some newline =>
      obtain ⟨-, hocc, hend, -⟩ := rfindWithin_last hfound
      have hwithin := Nat.le_trans hend hle
      obtain ⟨last, hlast⟩ := exists_rfindWithin hb hocc hwithin
      rw [lineStart, lineStart, hfound, hlast]
      exact Nat.succ_le_succ ((rfindWithin_last hlast).2.2.2 newline hocc hwithin)

/-- A later boundary is in the same line or a later one, by where the lines end. -/
theorem lineEnd_mono {t : Text} {a b : Nat} (ha : IsBoundary t a) (hle : a ≤ b) :
    lineEnd t a ≤ lineEnd t b := by
  cases hfound : findFrom t ['\n'] b with
  | none =>
      rw [lineEnd.eq_def t b, hfound]
      exact (lineEnd_spec ha).1.le_size
  | some newline =>
      obtain ⟨-, hbegin, hocc, -⟩ := findFrom_first hfound
      have hbehind := Nat.le_trans hle hbegin
      obtain ⟨next, hnext⟩ := exists_findFrom ha hbehind hocc
      rw [lineEnd, lineEnd, hfound, hnext]
      exact Nat.succ_le_succ ((findFrom_first hnext).2.2.2 newline hbehind hocc)

/-! ## Between two breaks -/

/-- Two boundaries cut a text into three parts, and the slice is the part between them. -/
theorem exists_parts {t : Text} {start stop : Nat} (hstart : IsBoundary t start)
    (hstop : IsBoundary t stop) (hle : start ≤ stop) :
    ∃ front middle rest, t = front ++ middle ++ rest ∧ size front = start ∧
      size front + size middle = stop ∧ slice t start stop = middle := by
  obtain ⟨front, tail, rfl, rfl⟩ := isBoundary_iff.mp hstart
  obtain ⟨most, rest, ht, rfl⟩ := isBoundary_iff.mp hstop
  obtain ⟨middle, rfl, rfl⟩ := exists_between ht hle
  refine ⟨front, middle, rest, ht, rfl, by simp, ?_⟩
  rw [ht, size_append, slice_append]

/-- A slice is as long as its boundaries are apart. -/
theorem size_slice {t : Text} {start stop : Nat} (hstart : IsBoundary t start)
    (hstop : IsBoundary t stop) (hle : start ≤ stop) :
    start + size (slice t start stop) = stop := by
  obtain ⟨front, middle, rest, -, rfl, hsize, hslice⟩ := exists_parts hstart hstop hle
  rw [hslice, hsize]

/-- What follows a boundary is the slice up to a later one and what follows that. -/
theorem dropBytes_eq_slice_append {t : Text} {start stop : Nat} (hstart : IsBoundary t start)
    (hstop : IsBoundary t stop) (hle : start ≤ stop) :
    dropBytes start t = slice t start stop ++ dropBytes stop t := by
  obtain ⟨front, middle, rest, rfl, rfl, rfl, hslice⟩ := exists_parts hstart hstop hle
  have hrest : dropBytes (size front + size middle) (front ++ middle ++ rest) = rest := by
    rw [← size_append, dropBytes_size_append]
  rw [hslice, hrest, List.append_assoc, dropBytes_size_append]

/-- A slice up to a break is whole lines, unless the text ends with it. -/
theorem IsBreak.atLineStart_slice {t : Text} {start stop : Nat} (hstart : IsBoundary t start)
    (hstop : IsBreak t stop) (hle : start ≤ stop) :
    AtLineStart (slice t start stop) ∨ dropBytes stop t = [] := by
  have hcut := dropBytes_eq_slice_append hstart hstop.isBoundary hle
  obtain ⟨most, rest, rfl, rfl, hmost⟩ := hstop
  rw [dropBytes_size_append] at hcut ⊢
  refine hmost.imp_left fun hline ↦ ?_
  have h := takeBytes_append_dropBytes start (most ++ rest)
  rw [hcut, ← List.append_assoc] at h
  rw [← List.append_cancel_right h] at hline
  exact hline.of_append

/-- When the text ends with a newline, a slice up to a break is whole lines. -/
theorem IsBreak.atLineStart_slice_of_closed {t : Text} {start stop : Nat}
    (hclosed : endsWithNewline t = true) (hstart : IsBoundary t start) (hstop : IsBreak t stop)
    (hle : start ≤ stop) : AtLineStart (slice t start stop) := by
  rcases hstop.atLineStart_slice hstart hle with h | hnil
  · exact h
  · have hcut := dropBytes_eq_slice_append hstart hstop.isBoundary hle
    rw [hnil, List.append_nil] at hcut
    have hfull : AtLineStart (takeBytes start t ++ slice t start stop) := by
      rw [← hcut, takeBytes_append_dropBytes]
      exact .inr hclosed
    exact hfull.of_append

/-- A run of lines has a first line. -/
theorem IsLineRun.slice_ne_nil {t : Text} {start stop : Nat} (h : IsLineRun t start stop) :
    slice t start stop ≠ [] := by
  intro hnil
  have hsize := size_slice h.isBreak_start.isBoundary h.isBreak_stop.isBoundary (Nat.le_of_lt h.lt)
  have hlt := h.lt
  rw [hnil, size_nil] at hsize
  omega

/-- There is something left before a run of lines ends. -/
theorem IsLineRun.dropBytes_ne_nil {t : Text} {start stop cursor : Nat} (h : IsLineRun t start stop)
    (hcursor : IsBoundary t cursor) (hle : cursor ≤ start) : dropBytes cursor t ≠ [] := by
  have hstart := h.isBreak_start.isBoundary
  rw [dropBytes_eq_slice_append hcursor hstart hle,
    dropBytes_eq_slice_append hstart h.isBreak_stop.isBoundary (Nat.le_of_lt h.lt)]
  simp [h.slice_ne_nil]

/-- The bodies from a break on are those of the lines up to a later break and the bodies from there
on. -/
theorem bodies_dropBytes {t : Text} {start stop : Nat} (hstart : IsBoundary t start)
    (hstop : IsBreak t stop) (hle : start ≤ stop) :
    bodies (dropBytes start t) = bodies (slice t start stop) ++ bodies (dropBytes stop t) := by
  rw [dropBytes_eq_slice_append hstart hstop.isBoundary hle]
  rcases hstop.atLineStart_slice hstart hle with h | h
  · exact bodies_append h _
  · simp [h]

/-- What occurs in a line of a run of lines occurs in the text, on a line that starts within the
run. -/
theorem IsLineRun.exists_occursAt {t : Text} {start stop : Nat} (h : IsLineRun t start stop)
    {body needle : Text} (hbody : body ∈ bodies (slice t start stop)) (hne : needle ≠ [])
    (hneedle : needle <:+: body) :
    ∃ j, OccursAt t needle j ∧ start ≤ lineStart t j ∧ lineStart t j < stop := by
  have hstart := h.isBreak_start.isBoundary
  have hcut := dropBytes_eq_slice_append hstart h.isBreak_stop.isBoundary (Nat.le_of_lt h.lt)
  have hsize := size_slice hstart h.isBreak_stop.isBoundary (Nat.le_of_lt h.lt)
  have hsome := h.dropBytes_ne_nil hstart (Nat.le_refl _)
  have hline := newline_not_mem_of_mem_bodies hbody
  obtain ⟨front, tail, rfl, rfl, hfront⟩ := h.isBreak_start
  rw [dropBytes_size_append] at hcut hsome
  replace hfront := hfront.resolve_right hsome
  obtain ⟨a, b, hslice, ha⟩ := exists_of_mem_bodies hbody
  obtain ⟨x, y, rfl⟩ := hneedle
  rw [hslice] at hcut hsize
  obtain ⟨rest, hrest⟩ : ∃ rest, tail = a ++ x ++ (needle ++ rest) :=
    ⟨y ++ b ++ dropBytes stop (front ++ tail), by simpa using hcut⟩
  have hx : '\n' ∉ x := fun hmem ↦ hline (by simp [hmem])
  have hoffset := lineStart_eq (hfront.append ha) hx (needle ++ rest)
  have hwhole : front ++ tail = front ++ a ++ x ++ (needle ++ rest) := by simp [hrest]
  have hpos := size_pos hne
  rw [hwhole]
  refine ⟨size (front ++ a) + size x, ⟨front ++ a ++ x, rest, by simp, by simp [Nat.add_assoc]⟩, ?_⟩
  rw [hoffset]
  simp only [size_append] at hsize ⊢
  omega

end Text

end MarkedEdits
