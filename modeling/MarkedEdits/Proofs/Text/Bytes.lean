import MarkedEdits.Proofs.Text.Search

/-!
# The bytes of a text

A text is held in memory as its UTF-8 form, so searches compare bytes and places are byte offsets.
No character has a form that begins another one's, and no byte within a character begins one. So
the offsets at which a text can be cut are told by the byte that stands there
(`isCharBoundary_bytes_iff`), and the bytes of a needle stand only where the needle occurs
(`occursAt_iff_bytes`). Searching the bytes therefore finds what searching the text does
(`findBytes_eq`, `rfindBytes_eq`).
-/

namespace MarkedEdits

namespace Text

/-- The UTF-8 form of the text. -/
def bytes (t : Text) : List UInt8 :=
  t.flatMap String.utf8EncodeChar

/-- Bytes can be cut into characters at the offset: they end there, or a byte stands there that
begins a character. -/
def IsCharBoundary (s : List UInt8) (n : Nat) : Prop :=
  n = s.length ∨ ∃ b ∈ s[n]?, b.IsUTF8FirstByte

/-- Being such an offset is decided by the byte that stands there. -/
instance (s : List UInt8) (n : Nat) : Decidable (IsCharBoundary s n) :=
  inferInstanceAs (Decidable (_ ∨ _))

/-- The bytes of the first character come first. -/
@[simp] theorem bytes_cons (c : Char) (t : Text) :
    bytes (c :: t) = String.utf8EncodeChar c ++ bytes t :=
  List.flatMap_cons

/-- The empty text has no bytes. -/
@[simp] theorem bytes_nil : bytes [] = [] := rfl

/-- Bytes follow each other as the texts do. -/
@[simp] theorem bytes_append (a b : Text) : bytes (a ++ b) = bytes a ++ bytes b :=
  List.flatMap_append

/-- The size of a text is the number of its bytes. -/
@[simp] theorem length_bytes (t : Text) : (bytes t).length = size t := by
  induction t with
  | nil => rfl
  | cons c t ih => rw [bytes_cons, List.length_append, String.length_utf8EncodeChar, ih, size_cons]

/-- Cutting the bytes at the end of a first part leaves the bytes of the rest. -/
theorem drop_bytes (a b : Text) : (bytes (a ++ b)).drop (size a) = bytes b := by
  rw [bytes_append, List.drop_left' (length_bytes a)]

/-- Cutting the bytes at the end of a first part gives the bytes of that part. -/
theorem take_bytes (a b : Text) : (bytes (a ++ b)).take (size a) = bytes a := by
  rw [bytes_append, List.take_left' (length_bytes a)]

/-! ## Boundaries -/

/-- A boundary is the start of a text or a boundary of what follows the first character. -/
theorem isBoundary_cons_iff {c : Char} {t : Text} {n : Nat} :
    IsBoundary (c :: t) n ↔ n = 0 ∨ c.utf8Size ≤ n ∧ IsBoundary t (n - c.utf8Size) := by
  have hpos := Char.utf8Size_pos c
  unfold IsBoundary
  rw [takeBytes]
  split
  · next hle =>
      rw [size_cons]
      constructor
      · intro h
        exact .inr ⟨hle, by omega⟩
      · rintro (hzero | ⟨-, hrest⟩)
        · omega
        · omega
  · next hlt =>
      rw [size_nil]
      constructor
      · intro h
        exact .inl h.symm
      · rintro (hzero | ⟨hle, -⟩)
        · exact hzero.symm
        · exact absurd hle hlt

/-- Within the bytes of a character only the first begins one. -/
theorem exists_firstByte_iff {c : Char} {s : List UInt8} {n : Nat} (h : n < c.utf8Size) :
    (∃ b ∈ (String.utf8EncodeChar c ++ s)[n]?, b.IsUTF8FirstByte) ↔ n = 0 := by
  have hn : n < (String.utf8EncodeChar c).length := by
    rwa [String.length_utf8EncodeChar]
  have hfirst : (String.utf8EncodeChar c)[n].IsUTF8FirstByte ↔ n = 0 :=
    UInt8.isUTF8FirstByte_getElem_utf8EncodeChar
  rw [List.getElem?_append_left hn, List.getElem?_eq_getElem hn, ← hfirst]
  simp

/-- The boundaries of a text can be told by its bytes. -/
theorem isCharBoundary_bytes_iff {t : Text} {n : Nat} :
    IsCharBoundary (bytes t) n ↔ IsBoundary t n := by
  induction t generalizing n with
  | nil => simp [IsCharBoundary, IsBoundary, takeBytes, eq_comm]
  | cons c t ih =>
      have hpos := Char.utf8Size_pos c
      rw [isBoundary_cons_iff, ← ih]
      unfold IsCharBoundary
      rw [length_bytes, length_bytes, size_cons, bytes_cons]
      by_cases hlt : n < c.utf8Size
      · rw [exists_firstByte_iff hlt]
        constructor
        · rintro (hend | hzero)
          · omega
          · exact .inl hzero
        · rintro (hzero | ⟨hle, -⟩)
          · exact .inr hzero
          · omega
      · have hle : c.utf8Size ≤ n := Nat.le_of_not_lt hlt
        have hlength := String.length_utf8EncodeChar c
        rw [List.getElem?_append_right (by omega), hlength]
        constructor
        · rintro (hend | hfirst)
          · exact .inr ⟨hle, .inl (by omega)⟩
          · exact .inr ⟨hle, .inr hfirst⟩
        · rintro (hzero | ⟨-, hend | hfirst⟩)
          · omega
          · exact .inl (by omega)
          · exact .inr hfirst

/-! ## Occurrences -/

/-- Characters with forms of which one begins the other are the same. -/
theorem eq_of_utf8EncodeChar_append {c d : Char} {x y : List UInt8}
    (h : String.utf8EncodeChar c ++ x = String.utf8EncodeChar d ++ y) : c = d := by
  have hc := ByteArray.utf8DecodeChar?_utf8EncodeChar_append (b := x.toByteArray) (c := c)
  have hd := ByteArray.utf8DecodeChar?_utf8EncodeChar_append (b := y.toByteArray) (c := d)
  rw [← List.toByteArray_append] at hc hd
  rw [h, hd] at hc
  exact (Option.some.inj hc).symm

/-- A text whose bytes come first in those of another comes first in that text. -/
theorem prefix_of_bytes_prefix {a b : Text} (h : bytes a <+: bytes b) : a <+: b := by
  induction a generalizing b with
  | nil => exact List.nil_prefix
  | cons c a ih =>
      obtain ⟨rest, hrest⟩ := h
      rw [bytes_cons, List.append_assoc] at hrest
      cases b with
      | nil =>
          have hlength := congrArg List.length hrest
          have hpos := Char.utf8Size_pos c
          simp only [List.length_append, String.length_utf8EncodeChar, bytes_nil,
            List.length_nil] at hlength
          omega
      | cons d b =>
          rw [bytes_cons] at hrest
          obtain rfl := eq_of_utf8EncodeChar_append hrest
          exact List.cons_prefix_cons.mpr ⟨rfl, ih ⟨rest, List.append_cancel_left hrest⟩⟩

/-- A needle occurs where its bytes stand. -/
theorem occursAt_iff_bytes {t needle : Text} (hne : needle ≠ []) {i : Nat} :
    OccursAt t needle i ↔ bytes needle <+: (bytes t).drop i := by
  constructor
  · rintro ⟨before, after, rfl, rfl⟩
    rw [List.append_assoc, drop_bytes, bytes_append]
    exact List.prefix_append _ _
  · intro h
    obtain ⟨first, more, rfl⟩ := List.exists_cons_of_ne_nil hne
    -- the first byte of the needle begins a character wherever it stands
    have hboundary : IsBoundary t i := by
      obtain ⟨rest, hrest⟩ := h
      have hfirst := (exists_firstByte_iff (s := bytes more ++ rest)
        (Char.utf8Size_pos first)).mpr rfl
      rw [← List.append_assoc, ← bytes_cons, hrest, List.getElem?_drop, Nat.add_zero] at hfirst
      exact isCharBoundary_bytes_iff.mp (.inr hfirst)
    obtain ⟨before, rest, rfl, rfl⟩ := isBoundary_iff.mp hboundary
    rw [drop_bytes] at h
    obtain ⟨after, rfl⟩ := prefix_of_bytes_prefix h
    exact ⟨before, after, by simp, rfl⟩

/-- No other character has a newline byte in its form. -/
theorem newline_not_mem_utf8EncodeChar {c : Char} (hc : c ≠ '\n') :
    '\n'.toUInt8 ∉ String.utf8EncodeChar c := by
  intro hmem
  obtain ⟨i, hi, hbyte⟩ := List.getElem_of_mem hmem
  -- the byte begins a character, so it is the first one of the form
  have hfirst : (String.utf8EncodeChar c)[i].IsUTF8FirstByte ↔ i = 0 :=
    UInt8.isUTF8FirstByte_getElem_utf8EncodeChar
  obtain rfl : i = 0 := by
    rw [← hfirst, hbyte]
    decide
  have hprefix : bytes ['\n'] <+: bytes [c] := by
    refine ⟨(String.utf8EncodeChar c).tail, ?_⟩
    rw [bytes_cons c, bytes_nil, List.append_nil,
      ← List.cons_head_tail (List.ne_nil_of_mem hmem), List.head_eq_getElem, hbyte]
    rfl
  obtain ⟨rest, hrest⟩ := prefix_of_bytes_prefix hprefix
  exact hc (List.cons.inj hrest).1.symm

/-- The newline bytes are the newlines of the text. -/
theorem count_newline_bytes (t : Text) : (bytes t).count '\n'.toUInt8 = t.count '\n' := by
  induction t with
  | nil => rfl
  | cons c t ih =>
      rw [bytes_cons, List.count_append, ih]
      by_cases hc : c = '\n'
      · rw [hc, List.count_cons_self, Nat.add_comm]
        rfl
      · rw [List.count_eq_zero_of_not_mem (newline_not_mem_utf8EncodeChar hc),
          List.count_cons_of_ne hc, Nat.zero_add]

/-- The occurrences in a first part of a text are those in the text that end with that part. -/
theorem occursAt_append_iff {a b needle : Text} {i : Nat} :
    OccursAt a needle i ↔ OccursAt (a ++ b) needle i ∧ i + size needle ≤ size a := by
  constructor
  · rintro ⟨before, after, rfl, rfl⟩
    refine ⟨⟨before, after ++ b, by simp, rfl⟩, ?_⟩
    simp only [size_append]
    omega
  · rintro ⟨⟨before, after, hab, rfl⟩, hle⟩
    obtain ⟨between, ha, -⟩ := exists_between hab.symm (by simpa using hle)
    exact ⟨before, between, ha, rfl⟩

/-! ## Searches -/

/-- The first offset at which the needle stands. -/
def firstOffset (needle s : List UInt8) : Option Nat :=
  (List.range (s.length + 1)).find? fun i ↦ needle.isPrefixOf (s.drop i)

/-- The last offset at which the needle stands. -/
def lastOffset (needle s : List UInt8) : Option Nat :=
  (List.range (s.length + 1)).reverse.find? fun i ↦ needle.isPrefixOf (s.drop i)

/-- The offset at which the bytes of the needle first stand at or after `start`; none when `start`
is no boundary. -/
def findBytes (t needle : Text) (start : Nat) : Option Nat :=
  if IsCharBoundary (bytes t) start then
    (firstOffset (bytes needle) ((bytes t).drop start)).map (start + ·)
  else none

/-- The last offset at which the bytes of the needle stand before `bound`; none when `bound` is no
boundary. -/
def rfindBytes (t needle : Text) (bound : Nat) : Option Nat :=
  if IsCharBoundary (bytes t) bound then lastOffset (bytes needle) ((bytes t).take bound) else none

/-- A needle that is not empty stands only within the bytes. -/
theorem lt_of_prefix_drop {needle s : List UInt8} (hne : needle ≠ []) {i : Nat}
    (h : needle <+: s.drop i) : i < s.length := by
  have hpos := List.length_pos_iff.mpr hne
  have hle := h.length_le
  rw [List.length_drop] at hle
  omega

/-- The first offset is where the needle stands and does not stand before. -/
theorem firstOffset_eq_some_iff {needle s : List UInt8} (hne : needle ≠ []) {i : Nat} :
    firstOffset needle s = some i ↔
      needle <+: s.drop i ∧ ∀ j, needle <+: s.drop j → i ≤ j := by
  unfold firstOffset
  rw [List.find?_range_eq_some]
  simp only [List.isPrefixOf_iff_prefix, List.mem_range, Bool.not_eq_true',
    ← Bool.not_eq_true]
  constructor
  · rintro ⟨hstands, -, hbefore⟩
    exact ⟨hstands, fun j hj ↦ Nat.le_of_not_lt fun hlt ↦ hbefore j hlt hj⟩
  · rintro ⟨hstands, hleast⟩
    exact ⟨hstands, Nat.lt_succ_of_lt (lt_of_prefix_drop hne hstands),
      fun j hlt hj ↦ absurd (hleast j hj) (Nat.not_le_of_lt hlt)⟩

/-- Searching backwards among the numbers below a bound finds the greatest one. -/
theorem find?_reverse_range_eq_some_iff {p : Nat → Bool} {n i : Nat} :
    (List.range n).reverse.find? p = some i ↔
      (i < n ∧ p i = true) ∧ ∀ j < n, p j = true → j ≤ i := by
  induction n with
  | zero => simp
  | succ n ih =>
      rw [List.range_succ, List.reverse_concat, List.find?_cons]
      split
      · next hlast =>
          constructor
          · intro h
            rw [← Option.some.inj h]
            exact ⟨⟨Nat.lt_succ_self n, hlast⟩, fun j hj _ ↦ Nat.le_of_lt_succ hj⟩
          · rintro ⟨⟨hi, -⟩, hgreatest⟩
            have hle := hgreatest n (Nat.lt_succ_self n) hlast
            rw [Nat.le_antisymm hle (Nat.le_of_lt_succ hi)]
      · next hlast =>
          have hother : ∀ j, p j = true → j ≠ n := by
            rintro j hj rfl
            exact absurd hj (by simp [hlast])
          rw [ih]
          constructor
          · rintro ⟨⟨hi, hpi⟩, hgreatest⟩
            refine ⟨⟨Nat.lt_succ_of_lt hi, hpi⟩, fun j hj hpj ↦ hgreatest j ?_ hpj⟩
            have hne := hother j hpj
            omega
          · rintro ⟨⟨hi, hpi⟩, hgreatest⟩
            have hne := hother i hpi
            exact ⟨⟨by omega, hpi⟩, fun j hj ↦ hgreatest j (Nat.lt_succ_of_lt hj)⟩

/-- The last offset is where the needle stands and does not stand behind. -/
theorem lastOffset_eq_some_iff {needle s : List UInt8} (hne : needle ≠ []) {i : Nat} :
    lastOffset needle s = some i ↔
      needle <+: s.drop i ∧ ∀ j, needle <+: s.drop j → j ≤ i := by
  unfold lastOffset
  rw [find?_reverse_range_eq_some_iff]
  simp only [List.isPrefixOf_iff_prefix]
  constructor
  · rintro ⟨⟨-, hstands⟩, hgreatest⟩
    exact ⟨hstands, fun j hj ↦ hgreatest j (Nat.lt_succ_of_lt (lt_of_prefix_drop hne hj)) hj⟩
  · rintro ⟨hstands, hgreatest⟩
    exact ⟨⟨Nat.lt_succ_of_lt (lt_of_prefix_drop hne hstands), hstands⟩,
      fun j _ hj ↦ hgreatest j hj⟩

/-- A needle that is not empty has bytes. -/
theorem bytes_ne_nil {t : Text} (hne : t ≠ []) : bytes t ≠ [] := by
  rw [← List.length_pos_iff, length_bytes]
  exact size_pos hne

/-- Searching the bytes forwards finds what searching the text does. -/
theorem findBytes_eq {t needle : Text} (hne : needle ≠ []) (start : Nat) :
    findBytes t needle start = findFrom t needle start := by
  refine Option.ext fun i ↦ ?_
  unfold findBytes
  rw [findFrom_eq_some_iff, ← isCharBoundary_bytes_iff]
  split
  · next hboundary =>
      simp only [Option.map_eq_some_iff, firstOffset_eq_some_iff (bytes_ne_nil hne),
        List.drop_drop, ← occursAt_iff_bytes hne]
      constructor
      · rintro ⟨k, ⟨hocc, hleast⟩, rfl⟩
        refine ⟨hboundary, Nat.le_add_right _ _, hocc, fun j hj hocc' ↦ ?_⟩
        have hbehind := hleast (j - start) (by rwa [Nat.add_sub_of_le hj])
        omega
      · rintro ⟨-, hle, hocc, hleast⟩
        refine ⟨i - start, ⟨by rwa [Nat.add_sub_of_le hle], fun j hocc' ↦ ?_⟩,
          Nat.add_sub_of_le hle⟩
        have hbehind := hleast (start + j) (Nat.le_add_right _ _) hocc'
        omega
  · next hinside =>
      constructor
      · intro h
        cases h
      · exact fun h ↦ absurd h.1 hinside

/-- Searching the bytes backwards finds what searching the text does. -/
theorem rfindBytes_eq {t needle : Text} (hne : needle ≠ []) (bound : Nat) :
    rfindBytes t needle bound = rfindWithin t needle bound := by
  refine Option.ext fun i ↦ ?_
  unfold rfindBytes
  rw [rfindWithin_eq_some_iff, ← isCharBoundary_bytes_iff]
  split
  · next hboundary =>
      obtain ⟨front, rest, rfl, rfl⟩ := isBoundary_iff.mp (isCharBoundary_bytes_iff.mp hboundary)
      have hfront : ∀ j, OccursAt front needle j ↔
          OccursAt (front ++ rest) needle j ∧ j + size needle ≤ size front :=
        fun j ↦ occursAt_append_iff
      rw [take_bytes, lastOffset_eq_some_iff (bytes_ne_nil hne)]
      simp only [← occursAt_iff_bytes hne, hfront, hboundary, true_and, and_imp, and_assoc]
  · next hinside =>
      constructor
      · intro h
        cases h
      · exact fun h ↦ absurd h.1 hinside

end Text

end MarkedEdits
