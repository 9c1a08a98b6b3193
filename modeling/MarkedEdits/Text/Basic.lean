/-!
# Texts and byte offsets

A text is a list of characters, and a place in it is a byte offset of its UTF-8 form. An offset is
a boundary when it does not fall inside a character. Cutting a text at a boundary gives two texts
whose concatenation is the text again, by `splitAt?_eq_some_iff`.
-/

namespace MarkedEdits

/-- A text is a sequence of Unicode scalar values. -/
abbrev Text := List Char

namespace Text

/-- The number of bytes of the text in UTF-8. -/
def size : Text → Nat
  | [] => 0
  | c :: t => c.utf8Size + size t

/-- The longest initial piece of the text that fits into `n` bytes. -/
def takeBytes : Nat → Text → Text
  | _, [] => []
  | n, c :: t => if c.utf8Size ≤ n then c :: takeBytes (n - c.utf8Size) t else []

/-- What follows the longest initial piece that fits into `n` bytes. -/
def dropBytes : Nat → Text → Text
  | _, [] => []
  | n, c :: t => if c.utf8Size ≤ n then dropBytes (n - c.utf8Size) t else c :: t

/-- The offset lies within the text and not inside a character. -/
def IsBoundary (t : Text) (n : Nat) : Prop :=
  size (takeBytes n t) = n

/-- Being a boundary is decided by measuring the piece that fits. -/
instance (t : Text) (n : Nat) : Decidable (IsBoundary t n) :=
  inferInstanceAs (Decidable (_ = _))

/-- The two parts of the text before and after a boundary, and nothing at any other offset. -/
def splitAt? (t : Text) (n : Nat) : Option (Text × Text) :=
  if IsBoundary t n then some (takeBytes n t, dropBytes n t) else none

/-- The text between two byte offsets. -/
def slice (t : Text) (start stop : Nat) : Text :=
  takeBytes (stop - start) (dropBytes start t)

/-- A range that can be cut out of the text: ordered, within the text and between characters. -/
def Sliceable (t : Text) (start stop : Nat) : Prop :=
  start ≤ stop ∧ IsBoundary t start ∧ IsBoundary t stop

/-- The empty text has no bytes. -/
@[simp] theorem size_nil : size [] = 0 := rfl

/-- The first character counts its own bytes. -/
@[simp] theorem size_cons (c : Char) (t : Text) : size (c :: t) = c.utf8Size + size t := rfl

/-- Sizes add up under concatenation. -/
@[simp] theorem size_append (a b : Text) : size (a ++ b) = size a + size b := by
  induction a with
  | nil => simp
  | cons c a ih => simp [ih, Nat.add_assoc]

/-- Only the empty text has no bytes. -/
@[simp] theorem size_eq_zero_iff {t : Text} : size t = 0 ↔ t = [] := by
  cases t with
  | nil => simp
  | cons c t =>
      have := Char.utf8Size_pos c
      simp only [size_cons, reduceCtorEq, iff_false]
      omega

/-- A text that is not empty has bytes. -/
theorem size_pos {t : Text} (h : t ≠ []) : 0 < size t :=
  Nat.pos_of_ne_zero fun hz ↦ h (size_eq_zero_iff.mp hz)

/-- The two pieces at an offset make up the text. -/
@[simp] theorem takeBytes_append_dropBytes (n : Nat) (t : Text) :
    takeBytes n t ++ dropBytes n t = t := by
  induction t generalizing n with
  | nil => simp [takeBytes, dropBytes]
  | cons c t ih =>
      by_cases h : c.utf8Size ≤ n
      · simp [takeBytes, dropBytes, h, ih]
      · simp [takeBytes, dropBytes, h]

/-- Cutting right after the first part gives the first part. -/
@[simp] theorem takeBytes_size_append (a b : Text) : takeBytes (size a) (a ++ b) = a := by
  induction a with
  | nil =>
      cases b with
      | nil => rfl
      | cons c b =>
          have := Char.utf8Size_pos c
          simp [takeBytes]
          omega
  | cons c a ih => simp [takeBytes, ih]

/-- Cutting right after the first part leaves the second part. -/
@[simp] theorem dropBytes_size_append (a b : Text) : dropBytes (size a) (a ++ b) = b := by
  have h := takeBytes_append_dropBytes (size a) (a ++ b)
  rw [takeBytes_size_append] at h
  exact List.append_cancel_left h

/-- A text can be cut at an offset exactly when it has a first part of that size. -/
theorem splitAt?_eq_some_iff {t a b : Text} {n : Nat} :
    splitAt? t n = some (a, b) ↔ t = a ++ b ∧ n = size a := by
  constructor
  · intro h
    by_cases hn : IsBoundary t n
    · rw [splitAt?, if_pos hn] at h
      injection h with h
      injection h with ha hb
      subst ha hb
      exact ⟨(takeBytes_append_dropBytes n t).symm, Eq.symm hn⟩
    · rw [splitAt?, if_neg hn] at h
      cases h
  · rintro ⟨rfl, rfl⟩
    simp [splitAt?, IsBoundary]

/-- The boundaries of a text are the sizes of its first parts. -/
theorem isBoundary_iff {t : Text} {n : Nat} :
    IsBoundary t n ↔ ∃ a b, t = a ++ b ∧ n = size a := by
  constructor
  · intro h
    exact ⟨takeBytes n t, dropBytes n t, (takeBytes_append_dropBytes n t).symm, Eq.symm h⟩
  · rintro ⟨a, b, rfl, rfl⟩
    simp [IsBoundary]

/-- A slice whose ends are the ends of a part is that part. -/
theorem slice_append (a b c : Text) :
    slice (a ++ b ++ c) (size a) (size a + size b) = b := by
  simp [slice, List.append_assoc]

end Text

end MarkedEdits
