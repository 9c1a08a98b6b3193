import MarkedEdits.Proofs.Steps
import MarkedEdits.Version.Basic

/-!
# Reading back what is rendered

Every part of a version is read back from its rendered form, whatever follows, as long as what
follows cannot belong to the part: a number (`readNumber_digitsOf`), a dotted identifier
(`readIdentifier_join`) and an identifier behind its sign (`readMarked_renderMarked`). So parsing
gives a valid version back from its text (`parse_render`), and the valid versions are the ones that
parsing can give (`exists_parse_iff`).
-/

namespace MarkedEdits

open Text

namespace Text

/-- Reading as long as characters are of a class stops where the class ends. -/
theorem span_append {p : Char → Bool} {front rest : Text} (hfront : ∀ c ∈ front, p c = true)
    (hrest : ∀ c ∈ rest.head?, p c = false) :
    (front ++ rest).takeWhile p = front ∧ (front ++ rest).dropWhile p = rest := by
  rw [List.takeWhile_append_of_pos hfront, List.dropWhile_append_of_pos hfront]
  cases rest with
  | nil => simp
  | cons c rest => simp [hrest c rfl]

end Text

namespace Version

/-! ## Valid versions -/

/-- The segment may stand in the identifier. A numeric segment of a pre-release has no leading
zero. -/
structure IsSegment (part : Part) (segment : Text) : Prop where
  ne_nil : segment ≠ []
  legal : ∀ c ∈ segment, isIdentifierChar c = true
  unpadded : part = .pre → (∀ c ∈ segment, c.isDigit = true) → segment.head? = some '0' →
    segment = ['0']

/-- The numbers of the version are below the bound, and its identifiers are made up of segments that
may stand in them. -/
structure Valid (version : Version) : Prop where
  major_lt : version.major < numberBound
  minor_lt : version.minor < numberBound
  patch_lt : version.patch < numberBound
  pre : ∀ segment ∈ version.pre, IsSegment .pre segment
  build : ∀ segment ∈ version.build, IsSegment .build segment

/-! ## Numbers -/

/-- A number is written with digits. -/
theorem isDigit_of_mem_digitsOf {n : Nat} {c : Char} (h : c ∈ digitsOf n) : c.isDigit = true :=
  Nat.isDigit_of_mem_toDigits (by decide) (by decide) h

/-- A number is written with at least one digit. -/
theorem digitsOf_ne_nil (n : Nat) : digitsOf n ≠ [] :=
  Nat.toDigits_ne_nil

/-- The digits of a number denote the number. -/
theorem numberOf_digitsOf (n : Nat) : numberOf (digitsOf n) = n :=
  Nat.ofDigitChars_ten_toDigits

/-- Only zero is written with a zero in front. -/
theorem head?_digitsOf {n : Nat} (hpos : 0 < n) : (digitsOf n).head? ≠ some '0' := by
  induction n using Nat.strongRecOn with
  | _ n ih =>
      unfold digitsOf at ih ⊢
      by_cases hsmall : n < 10
      · have hdigit : ∀ m < 10, 0 < m → [m.digitChar].head? ≠ some '0' := by decide
        rw [Nat.toDigits_of_lt_base hsmall]
        exact hdigit n hsmall hpos
      · have hrest := ih (n / 10) (by omega) (by omega)
        have hfront : Nat.toDigits 10 (n / 10) ≠ [] := Nat.toDigits_ne_nil
        rw [Nat.toDigits_of_base_le (by decide) (by omega), List.head?_append]
        simpa [List.head?_eq_some_head hfront] using hrest

/-- A number that is written is read, if no digit follows. -/
theorem readNumber_digitsOf (part : Part) {n : Nat} (hn : n < numberBound) {rest : Text}
    (hrest : ∀ c ∈ rest.head?, c.isDigit = false) :
    readNumber part (digitsOf n ++ rest) = .ok (n, rest) := by
  obtain ⟨htake, hdrop⟩ := span_append (p := Char.isDigit)
    (fun c ↦ isDigit_of_mem_digitsOf) hrest
  have hnumber := numberOf_digitsOf n
  have hzero : ∀ more, digitsOf n = '0' :: more → more = [] := by
    intro more hdigits
    rcases Nat.eq_zero_or_pos n with rfl | hpos
    · exact (List.cons.inj hdigits).2.symm
    · exact absurd (by rw [hdigits]; rfl) (head?_digitsOf hpos)
  unfold readNumber
  rw [htake, hdrop]
  cases hdigits : digitsOf n with
  | nil => exact absurd hdigits (digitsOf_ne_nil n)
  | cons first more =>
      rw [hdigits] at hnumber hzero
      have hpadded : ¬ (first = '0' ∧ more ≠ []) := by
        rintro ⟨rfl, hmore⟩
        exact hmore (hzero more rfl)
      simp only [hpadded, if_false, hnumber, Nat.not_le_of_lt hn]

/-! ## Identifiers -/

/-- A separator of segments is no character of a segment. -/
theorem IsSegment.dot_not_mem {part : Part} {segment : Text} (h : IsSegment part segment) :
    '.' ∉ segment := by
  intro hmem
  have hlegal := h.legal '.' hmem
  revert hlegal
  decide

/-- Nothing is wrong with a segment that may stand in the identifier. -/
theorem IsSegment.segmentFault? {part : Part} {segment : Text} (h : IsSegment part segment) :
    segmentFault? part segment = none := by
  unfold Version.segmentFault?
  rw [if_neg h.ne_nil, if_neg]
  rintro ⟨hpre, hdigits, hlong, hzero⟩
  have hsingle := h.unpadded hpre (by simpa using hdigits) hzero
  rw [hsingle] at hlong
  exact absurd hlong (by decide)

/-- What follows an identifier cannot belong to it. -/
def EndsIdentifier (rest : Text) : Prop :=
  ∀ c ∈ rest.head?, (isIdentifierChar c || c == '.') = false

/-- Segments that are written with dots between them are read, if the identifier ends there. -/
theorem readIdentifier_join {part : Part} {segments : List Text} (hne : segments ≠ [])
    (hsegments : ∀ segment ∈ segments, IsSegment part segment) {rest : Text}
    (hrest : EndsIdentifier rest) :
    readIdentifier part (join '.' segments ++ rest) = .ok (segments, rest) := by
  have hfront : ∀ c ∈ join '.' segments, (isIdentifierChar c || c == '.') = true := by
    intro c hc
    rcases mem_join hc with rfl | ⟨segment, hsegment, hmem⟩
    · decide
    · rw [(hsegments segment hsegment).legal c hmem, Bool.true_or]
  obtain ⟨htake, hdrop⟩ := span_append hfront hrest
  have hsplit : splitOn '.' (join '.' segments) = segments :=
    splitOn_join hne fun segment hsegment ↦ (hsegments segment hsegment).dot_not_mem
  have hfault : segments.findSome? (segmentFault? part) = none :=
    List.findSome?_eq_none_iff.mpr fun segment hsegment ↦
      (hsegments segment hsegment).segmentFault?
  unfold readIdentifier
  simp only [htake, hdrop, hsplit, hfault]

/-- An identifier that is written behind its sign is read, if it ends there and no other one with
the sign follows. -/
theorem readMarked_renderMarked {sign : Char} {part : Part} {segments : List Text}
    (hsegments : ∀ segment ∈ segments, IsSegment part segment) {rest : Text}
    (hrest : EndsIdentifier rest) (hsign : sign ∉ rest.head?) :
    readMarked sign part (renderMarked sign segments ++ rest) = .ok (segments, rest) := by
  unfold renderMarked
  split
  · next hnil =>
      rw [hnil, List.nil_append]
      cases rest with
      | nil => rfl
      | cons c rest =>
          have hc : c ≠ sign := fun hsame ↦ hsign (by simp [hsame])
          simp [readMarked, hc]
  · next hne =>
      rw [List.cons_append, readMarked, if_pos rfl]
      exact readIdentifier_join hne hsegments hrest

/-! ## Versions -/

/-- What follows the numbers of a version. -/
def suffix (version : Version) : Text :=
  renderMarked '-' version.pre ++ renderMarked '+' version.build

/-- An identifier begins with its sign, if there is one. -/
theorem head?_renderMarked {sign c : Char} {segments : List Text}
    (h : c ∈ (renderMarked sign segments).head?) : c = sign := by
  unfold renderMarked at h
  split at h
  · cases h
  · exact (Option.some.inj h).symm

/-- A suffix begins with a sign. -/
theorem head?_suffix {version : Version} {c : Char} (h : c ∈ version.suffix.head?) :
    c = '-' ∨ c = '+' := by
  unfold suffix at h
  cases hpre : renderMarked '-' version.pre with
  | nil =>
      rw [hpre, List.nil_append] at h
      exact .inr (head?_renderMarked h)
  | cons sign rest =>
      rw [hpre, List.cons_append] at h
      have hsign : c ∈ (renderMarked '-' version.pre).head? := by
        rw [hpre]
        exact h
      exact .inl (head?_renderMarked hsign)

/-- The version is written as its three numbers with dots between them and the suffix. -/
theorem render_eq (version : Version) :
    version.render =
      join '.' [digitsOf version.major, digitsOf version.minor, digitsOf version.patch] ++
        version.suffix := by
  simp [render, suffix, join]

/-- A valid version is read back from its text. -/
theorem parse_render {version : Version} (h : version.Valid) :
    parse version.render = .ok version := by
  have hdot : ∀ rest : Text, ∀ c ∈ ('.' :: rest).head?, c.isDigit = false := by
    intro rest c hc
    rw [← Option.some.inj hc]
    decide
  have hsign : ∀ c ∈ version.suffix.head?, c.isDigit = false := by
    intro c hc
    rcases head?_suffix hc with rfl | rfl <;> decide
  have hmajor : ∀ rest, readNumber .major (digitsOf version.major ++ '.' :: rest) =
      .ok (version.major, '.' :: rest) := fun rest ↦
    readNumber_digitsOf .major h.major_lt (hdot rest)
  have hminor : ∀ rest, readNumber .minor (digitsOf version.minor ++ '.' :: rest) =
      .ok (version.minor, '.' :: rest) := fun rest ↦
    readNumber_digitsOf .minor h.minor_lt (hdot rest)
  have hpatch : readNumber .patch (digitsOf version.patch ++ version.suffix) =
      .ok (version.patch, version.suffix) :=
    readNumber_digitsOf .patch h.patch_lt hsign
  have hpre : readMarked '-' .pre version.suffix =
      .ok (version.pre, renderMarked '+' version.build) := by
    refine readMarked_renderMarked h.pre (fun c hc ↦ ?_) fun hc ↦ ?_
    · rw [head?_renderMarked hc]
      decide
    · exact absurd (head?_renderMarked hc) (by decide)
  have hbuild : readMarked '+' .build (renderMarked '+' version.build) =
      .ok (version.build, []) := by
    have hall : readMarked '+' .build (renderMarked '+' version.build ++ []) =
        .ok (version.build, []) :=
      readMarked_renderMarked h.build (fun c hc ↦ by cases hc) (by simp)
    rwa [List.append_nil] at hall
  have hne : version.render ≠ [] := by
    simp [render, digitsOf_ne_nil]
  have htext : version.render = digitsOf version.major ++ '.' ::
      (digitsOf version.minor ++ '.' :: (digitsOf version.patch ++ version.suffix)) := by
    simp [render, suffix]
  unfold parse
  rw [if_neg hne, htext]
  simp only [hmajor, hminor, hpatch, hpre, hbuild, readDot, if_true, bind, Except.bind, pure,
    Except.pure]

/-! ## What parsing can give -/

/-- A number that is read is below the bound. -/
theorem lt_of_readNumber {part : Part} {t rest : Text} {n : Nat}
    (h : readNumber part t = .ok (n, rest)) : n < numberBound := by
  unfold readNumber at h
  dsimp only at h
  split at h
  · cases h
  · cases h
  · split at h
    · cases h
    · split at h
      · cases h
      · next hlt =>
          rw [← (Prod.mk.inj (Except.ok.inj h)).1]
          exact Nat.lt_of_not_le hlt

/-- The segments of an identifier that is read may stand in it. -/
theorem isSegment_of_readIdentifier {part : Part} {t rest : Text} {segments : List Text}
    (h : readIdentifier part t = .ok (segments, rest)) :
    ∀ segment ∈ segments, IsSegment part segment := by
  intro segment hsegment
  unfold readIdentifier at h
  dsimp only at h
  split at h
  · cases h
  · next hfaults =>
      rw [← (Prod.mk.inj (Except.ok.inj h)).1] at hsegment
      have hfault := List.findSome?_eq_none_iff.mp hfaults segment hsegment
      unfold segmentFault? at hfault
      split at hfault
      · cases hfault
      · next hne =>
          split at hfault
          · cases hfault
          · next hpadded =>
              refine ⟨hne, fun c hc ↦ ?_, fun hpre hdigits hzero ↦ ?_⟩
              · have hmem := List.all_eq_true.mp List.all_takeWhile c
                  (mem_of_mem_splitOn hsegment hc)
                have hdot : c ≠ '.' := ne_of_mem_of_not_mem hc (not_mem_of_mem_splitOn hsegment)
                simpa [hdot] using hmem
              · have hshort : ¬ 1 < segment.length := fun hlong ↦
                  hpadded ⟨hpre, List.all_eq_true.mpr hdigits, hlong, hzero⟩
                obtain ⟨first, more, rfl⟩ := List.exists_cons_of_ne_nil hne
                have hmore : more = [] := by
                  simpa using hshort
                rw [hmore, Option.some.inj hzero]

/-- The segments of an identifier behind its sign may stand in it. -/
theorem isSegment_of_readMarked {sign : Char} {part : Part} {t rest : Text} {segments : List Text}
    (h : readMarked sign part t = .ok (segments, rest)) :
    ∀ segment ∈ segments, IsSegment part segment := by
  unfold readMarked at h
  split at h
  · split at h
    · exact isSegment_of_readIdentifier h
    · rw [← (Prod.mk.inj (Except.ok.inj h)).1]
      simp
  · rw [← (Prod.mk.inj (Except.ok.inj h)).1]
    simp

/-- The valid versions are the ones that parsing can give. -/
theorem exists_parse_iff {version : Version} : (∃ t, parse t = .ok version) ↔ version.Valid := by
  constructor
  · rintro ⟨t, h⟩
    unfold parse at h
    split at h
    · cases h
    · simp only [bind_ok_iff] at h
      obtain ⟨⟨major, rest⟩, hmajor, rest, -, ⟨minor, rest⟩, hminor, rest, -, ⟨patch, rest⟩, hpatch,
        ⟨pre, rest⟩, hpre, ⟨build, rest⟩, hbuild, hend⟩ := h
      split at hend
      · rw [← pure_ok_iff.mp hend]
        exact ⟨lt_of_readNumber hmajor, lt_of_readNumber hminor, lt_of_readNumber hpatch,
          isSegment_of_readMarked hpre, isSegment_of_readMarked hbuild⟩
      · cases hend
  · intro h
    exact ⟨version.render, parse_render h⟩

end Version

end MarkedEdits
