import Mathlib.Data.List.DropRight
import MarkedEdits.Proofs.Version.Parsing
import MarkedEdits.Version.Gate

/-!
# The normal form of a version

A target may tell its version with blanks around it, with letters `v` in front, with numbers left
out or with further components behind the third number. The normal form is the same in all these
cases, and the suffix stays as it is, whatever dots and signs it holds (`normalize_told`). So the
target is taken to have the version that it tells (`target_version_told`).
-/

namespace MarkedEdits

open Text

namespace Text

/-- Trimming takes the blanks off a text that begins with visible characters and does not end with a
blank. -/
theorem trim_eq {front stem tail behind : Text} (hfront : ∀ c ∈ front, isBlank c = true)
    (hbehind : ∀ c ∈ behind, isBlank c = true) (hne : stem ≠ [])
    (hstem : ∀ c ∈ stem, isBlank c = false) (htail : ∀ c ∈ tail.getLast?, isBlank c = false) :
    trim (front ++ (stem ++ tail) ++ behind) = stem ++ tail := by
  have hbegin : ∀ c ∈ (stem ++ tail ++ behind).head?, isBlank c = false := by
    intro c hc
    rw [List.append_assoc, List.head?_append_of_ne_nil _ hne] at hc
    exact hstem c (List.mem_of_mem_head? hc)
  have hend : ∀ c ∈ (stem ++ tail).reverse.head?, isBlank c = false := by
    intro c hc
    rw [List.head?_reverse, List.getLast?_append, Option.mem_def, Option.or_eq_some_iff] at hc
    rcases hc with hc | ⟨-, hc⟩
    · exact htail c hc
    · exact hstem c (List.mem_of_getLast? hc)
  have hreverse : ∀ c ∈ behind.reverse, isBlank c = true := by
    simpa using hbehind
  have hleft := (span_append hfront hbegin).2
  have hright := (span_append hreverse hend).2
  rw [trim, List.append_assoc, hleft, List.reverse_append, hright, List.reverse_reverse]

end Text

namespace Version

/-! ## The characters of a version -/

/-- The characters of written numbers and the dots between them. -/
def isNumeral (c : Char) : Bool :=
  c.isDigit || c == '.'

/-- Numbers are written with numerals. -/
theorem isNumeral_of_mem_join {numbers : List Nat} {c : Char}
    (h : c ∈ join '.' (numbers.map digitsOf)) : isNumeral c = true := by
  rcases mem_join h with rfl | ⟨piece, hpiece, hc⟩
  · rfl
  · obtain ⟨n, -, rfl⟩ := List.mem_map.mp hpiece
    rw [isNumeral, isDigit_of_mem_digitsOf hc, Bool.true_or]

/-- A numeral is neither blank nor a letter `v`, and it starts no suffix. -/
theorem isNumeral_spec {c : Char} (h : isNumeral c = true) :
    isBlank c = false ∧ (c == 'v') = false ∧ startsSuffix c = false := by
  rcases Bool.or_eq_true_iff.mp h with hdigit | hdot
  · have hvisible := visible_of_isAlphanum (c := c) (by simp [Char.isAlphanum, hdigit])
    refine ⟨not_isBlank_of_visible hvisible, ?_, ?_⟩
    · rw [beq_eq_false_iff_ne]
      rintro rfl
      exact absurd hdigit (by decide)
    · rw [startsSuffix, Bool.or_eq_false_iff, beq_eq_false_iff_ne, beq_eq_false_iff_ne]
      constructor
      all_goals
        rintro rfl
        exact absurd hdigit (by decide)
  · rw [eq_of_beq hdot]
    decide

/-- An identifier behind its sign has no blank characters. -/
theorem not_isBlank_of_mem_renderMarked {sign : Char} {part : Part} {segments : List Text}
    (hsign : isBlank sign = false) (h : ∀ segment ∈ segments, IsSegment part segment) {c : Char}
    (hc : c ∈ renderMarked sign segments) : isBlank c = false := by
  unfold renderMarked at hc
  split at hc
  · cases hc
  · rcases List.mem_cons.mp hc with rfl | hc
    · exact hsign
    · rcases mem_join hc with rfl | ⟨segment, hsegment, hmem⟩
      · decide
      · have hlegal := (h segment hsegment).legal c hmem
        rcases Bool.or_eq_true_iff.mp hlegal with halphanum | hhyphen
        · exact not_isBlank_of_visible (visible_of_isAlphanum halphanum)
        · rw [eq_of_beq hhyphen]
          decide

/-- The suffix of a valid version has no blank characters. -/
theorem Valid.not_isBlank_of_mem_suffix {version : Version} (h : version.Valid) {c : Char}
    (hc : c ∈ version.suffix) : isBlank c = false := by
  rcases List.mem_append.mp hc with hpre | hbuild
  · exact not_isBlank_of_mem_renderMarked (by decide) h.pre hpre
  · exact not_isBlank_of_mem_renderMarked (by decide) h.build hbuild

/-! ## The normal form -/

section Told

variable {numbers : List Nat} {extras : List Text}

/-- Further components, taken up to a place in them, are nothing or begin with a dot, and they have
no sign of a suffix. -/
theorem prefix_extras {kept : Text} (hextras : ∀ extra ∈ extras, '-' ∉ extra ∧ '+' ∉ extra)
    (hkept : kept <+: extras.flatMap ('.' :: ·)) :
    (kept = [] ∨ extras ≠ [] ∧ ∃ more, kept = '.' :: more) ∧
      ∀ c ∈ kept, startsSuffix c = false := by
  constructor
  · cases kept with
    | nil => exact .inl rfl
    | cons c more =>
        cases extras with
        | nil => simp at hkept
        | cons extra rest =>
            rw [List.flatMap_cons, List.cons_append, List.cons_prefix_cons] at hkept
            exact .inr ⟨List.cons_ne_nil _ _, more, by rw [hkept.1]⟩
  · intro c hc
    obtain ⟨extra, hextra, hmem⟩ := List.mem_flatMap.mp (hkept.subset hc)
    obtain ⟨hminus, hplus⟩ := hextras extra hextra
    rcases List.mem_cons.mp hmem with rfl | hmem
    · decide
    · simp [startsSuffix, ne_of_mem_of_not_mem hmem hminus, ne_of_mem_of_not_mem hmem hplus]

/-- Blanks at the end of the last component count to what stands behind the text, if there is no
suffix in between. -/
theorem exists_kept (components : Text) {suffix behind : Text}
    (hsuffix : ∀ c ∈ suffix, isBlank c = false) (hbehind : ∀ c ∈ behind, isBlank c = true) :
    ∃ kept blanks, components ++ suffix ++ behind = kept ++ suffix ++ blanks ∧
      kept <+: components ∧ (∀ c ∈ blanks, isBlank c = true) ∧
      ∀ c ∈ (kept ++ suffix).getLast?, isBlank c = false := by
  rcases List.eq_nil_or_concat suffix with rfl | ⟨more, last, rfl⟩
  · refine ⟨components.rdropWhile isBlank, components.rtakeWhile isBlank ++ behind, ?_,
      List.rdropWhile_prefix _ _, ?_, ?_⟩
    · rw [List.append_nil, List.append_nil, ← List.append_assoc,
        List.rdropWhile_append_rtakeWhile]
    · intro c hc
      rcases List.mem_append.mp hc with hc | hc
      · exact List.mem_rtakeWhile_imp hc
      · exact hbehind c hc
    · intro c hc
      rw [List.append_nil] at hc
      obtain ⟨hne, hlast⟩ := List.mem_getLast?_eq_getLast hc
      rw [hlast]
      exact Bool.eq_false_iff.mpr (List.rdropWhile_last_not _ _ hne)
  · refine ⟨components, behind, rfl, List.prefix_rfl, hbehind, fun c hc ↦ ?_⟩
    rw [List.concat_eq_append, ← List.append_assoc, List.getLast?_concat] at hc
    exact hsuffix c (by rw [← Option.some.inj hc]; simp)

/-- The numbers are the first three components, whatever stands behind a third one. -/
theorem firstThree_splitOn (hnumbers : numbers ≠ []) {kept : Text}
    (hkept : kept = [] ∨ 3 ≤ numbers.length ∧ ∃ more, kept = '.' :: more) :
    firstThree (splitOn '.' (join '.' (numbers.map digitsOf) ++ kept)) =
      firstThree (numbers.map digitsOf) := by
  have hne : numbers.map digitsOf ≠ [] := by simpa using hnumbers
  have hdots : ∀ piece ∈ numbers.map digitsOf, '.' ∉ piece := by
    intro piece hpiece hdot
    obtain ⟨n, -, rfl⟩ := List.mem_map.mp hpiece
    exact absurd (isDigit_of_mem_digitsOf hdot) (by decide)
  rcases hkept with rfl | ⟨hthree, more, rfl⟩
  · rw [List.append_nil, splitOn_join hne hdots]
  · have hlength : 3 ≤ (numbers.map digitsOf).length := by rwa [List.length_map]
    rw [splitOn_join_append hne hdots, firstThree, firstThree, List.append_assoc,
      List.take_append_of_le_length hlength, List.take_append_of_le_length hlength]

/-- Written numbers have a first digit. -/
theorem join_digitsOf_ne_nil (hnumbers : numbers ≠ []) : join '.' (numbers.map digitsOf) ≠ [] := by
  obtain ⟨n, rest, rfl⟩ := List.exists_cons_of_ne_nil hnumbers
  simp [join_cons, digitsOf_ne_nil]

/-- When letters `v` and a core are left in front of the suffix, the normal form has the first three
components of the core. -/
theorem normalize_of_trim {value core suffix : Text} {letters : Nat}
    (htrim : trim value = List.replicate letters 'v' ++ (core ++ suffix)) (hne : core ≠ [])
    (hhead : ∀ c ∈ core.head?, (c == 'v') = false) (hcore : ∀ c ∈ core, startsSuffix c = false)
    (hsign : ∀ c ∈ suffix.head?, startsSuffix c = true) :
    normalize value = join '.' (firstThree (splitOn '.' core)) ++ suffix := by
  have hletter : ∀ c ∈ List.replicate letters 'v', (c == 'v') = true := by
    intro c hc
    rw [List.eq_of_mem_replicate hc]
    rfl
  have hfirst : ∀ c ∈ (core ++ suffix).head?, (c == 'v') = false := by
    rwa [List.head?_append_of_ne_nil _ hne]
  have hplain : ∀ c ∈ core, (!startsSuffix c) = true := by
    intro c hc
    rw [hcore c hc, Bool.not_false]
  have hstop : ∀ c ∈ suffix.head?, (!startsSuffix c) = false := by
    intro c hc
    rw [hsign c hc, Bool.not_true]
  have hletters := (span_append hletter hfirst).2
  obtain ⟨htake, hdrop⟩ := span_append hplain hstop
  unfold normalize
  rw [htrim]
  simp only [hletters, htake, hdrop]

/-- The text of a version has the normal form of its first three numbers with its suffix, whatever
blanks stand around it, whatever letters `v` in front and whatever components behind a third
number. -/
theorem normalize_told {suffix front behind : Text} (letters : Nat) (hnumbers : numbers ≠ [])
    (hextras : ∀ extra ∈ extras, '-' ∉ extra ∧ '+' ∉ extra)
    (hthree : extras ≠ [] → 3 ≤ numbers.length)
    (hsign : ∀ c ∈ suffix.head?, startsSuffix c = true)
    (hsuffix : ∀ c ∈ suffix, isBlank c = false) (hfront : ∀ c ∈ front, isBlank c = true)
    (hbehind : ∀ c ∈ behind, isBlank c = true) :
    normalize (front ++ List.replicate letters 'v' ++
        join '.' (numbers.map digitsOf ++ extras) ++ suffix ++ behind) =
      join '.' (firstThree (numbers.map digitsOf)) ++ suffix := by
  have hdigits := join_digitsOf_ne_nil hnumbers
  have hne : numbers.map digitsOf ≠ [] := by simpa using hnumbers
  obtain ⟨kept, blanks, htail, hpart, hblanks, hlast⟩ :=
    exists_kept (extras.flatMap ('.' :: ·)) hsuffix hbehind
  obtain ⟨hdot, hplain⟩ := prefix_extras hextras hpart
  have hkept : kept = [] ∨ 3 ≤ numbers.length ∧ ∃ more, kept = '.' :: more :=
    hdot.imp_right fun ⟨hne, hmore⟩ ↦ ⟨hthree hne, hmore⟩
  have hstem : ∀ c ∈ List.replicate letters 'v' ++ join '.' (numbers.map digitsOf),
      isBlank c = false := by
    intro c hc
    rcases List.mem_append.mp hc with hletter | hnumeral
    · rw [List.eq_of_mem_replicate hletter]
      decide
    · exact (isNumeral_spec (isNumeral_of_mem_join hnumeral)).1
  have htrim : trim (front ++ List.replicate letters 'v' ++
      join '.' (numbers.map digitsOf ++ extras) ++ suffix ++ behind) =
      List.replicate letters 'v' ++ (join '.' (numbers.map digitsOf) ++ kept ++ suffix) := by
    have htext := trim_eq hfront hblanks (by simp [hdigits]) hstem hlast
    rw [join_append hne]
    simp only [List.append_assoc] at htext htail ⊢
    rw [htail, htext]
  have hhead : ∀ c ∈ (join '.' (numbers.map digitsOf) ++ kept).head?, (c == 'v') = false := by
    intro c hc
    rw [List.head?_append_of_ne_nil _ hdigits] at hc
    exact (isNumeral_spec (isNumeral_of_mem_join (List.mem_of_mem_head? hc))).2.1
  have hcore : ∀ c ∈ join '.' (numbers.map digitsOf) ++ kept, startsSuffix c = false := by
    intro c hc
    rcases List.mem_append.mp hc with hnumeral | hc
    · exact (isNumeral_spec (isNumeral_of_mem_join hnumeral)).2.2
    · exact hplain c hc
  rw [normalize_of_trim htrim (by simp [hdigits]) hhead hcore hsign,
    firstThree_splitOn hnumbers hkept]

/-- A target has the valid version whose numbers are the first three that it tells and whose suffix
it has. -/
theorem parseTarget_told {version : Version} (h : version.Valid) (letters : Nat)
    (numbers : List Nat) {front behind : Text} (hnumbers : numbers ≠ [])
    (hfirst : firstThree (numbers.map digitsOf) =
      [digitsOf version.major, digitsOf version.minor, digitsOf version.patch])
    (hextras : ∀ extra ∈ extras, '-' ∉ extra ∧ '+' ∉ extra)
    (hthree : extras ≠ [] → 3 ≤ numbers.length) (hfront : ∀ c ∈ front, isBlank c = true)
    (hbehind : ∀ c ∈ behind, isBlank c = true) :
    parseTarget (front ++ List.replicate letters 'v' ++
      join '.' (numbers.map digitsOf ++ extras) ++ version.suffix ++ behind) = .ok version := by
  have hsign : ∀ c ∈ version.suffix.head?, startsSuffix c = true := by
    intro c hc
    rcases head?_suffix hc with rfl | rfl <;> rfl
  have hform := normalize_told letters hnumbers hextras hthree hsign
    (fun c ↦ h.not_isBlank_of_mem_suffix) hfront hbehind
  rw [hfirst, ← render_eq] at hform
  rw [parseTarget, hform, parse_render h]
  rfl

end Told

/-- A target has the version that it tells, whatever letters `v` stand in front, blanks around and
further components behind the third number. Numbers that are left out count as zero. The suffix is
kept as it is. -/
theorem target_version_told {version : Version} (h : version.Valid) (letters : Nat)
    {extras : List Text} {front behind : Text}
    (hextras : ∀ extra ∈ extras, '-' ∉ extra ∧ '+' ∉ extra)
    (hfront : ∀ c ∈ front, isBlank c = true) (hbehind : ∀ c ∈ behind, isBlank c = true) :
    let tell := fun pieces ↦
      front ++ List.replicate letters 'v' ++ join '.' pieces ++ version.suffix ++ behind
    let major := digitsOf version.major
    let minor := digitsOf version.minor
    let patch := digitsOf version.patch
    let zero := digitsOf 0
    parseTarget (tell ([major, minor, patch] ++ extras)) = .ok version ∧
      parseTarget (tell [major, minor]) = .ok { version with patch := 0 } ∧
      parseTarget (tell [major, minor, zero]) = .ok { version with patch := 0 } ∧
      parseTarget (tell [major]) = .ok { version with minor := 0, patch := 0 } ∧
      parseTarget (tell [major, zero, zero]) = .ok { version with minor := 0, patch := 0 } ∧
      parseTarget version.render = .ok version := by
  intro tell major minor patch zero
  have hpos : 0 < numberBound := by decide
  have hzero : digitsOf 0 = ['0'] := Nat.toDigits_zero 10
  have hnone : ∀ extra ∈ ([] : List Text), '-' ∉ extra ∧ '+' ∉ extra := by simp
  have hpatch : Valid { version with patch := 0 } := { h with patch_lt := hpos }
  have hminor : Valid { version with minor := 0, patch := 0 } :=
    { h with minor_lt := hpos, patch_lt := hpos }
  refine ⟨?_, ?_, ?_, ?_, ?_, ?_⟩
  · exact parseTarget_told h letters [version.major, version.minor, version.patch] (by simp) rfl
      hextras (by simp) hfront hbehind
  · exact parseTarget_told hpatch letters [version.major, version.minor] (by simp)
      (by rw [hzero]; rfl) hnone (by simp) hfront hbehind
  · exact parseTarget_told hpatch letters [version.major, version.minor, 0] (by simp) rfl hnone
      (by simp) hfront hbehind
  · exact parseTarget_told hminor letters [version.major] (by simp) (by rw [hzero]; rfl) hnone
      (by simp) hfront hbehind
  · exact parseTarget_told hminor letters [version.major, 0, 0] (by simp) rfl hnone (by simp) hfront
      hbehind
  · have hblank : ∀ c ∈ ([] : Text), isBlank c = true := by simp
    have htext := parseTarget_told h 0 [version.major, version.minor, version.patch] (by simp) rfl
      hnone (by simp) hblank hblank
    rw [List.append_nil, List.append_nil] at htext
    rw [render_eq]
    exact htext

/-- Letters, blanks and further components, and a suffix with dots and hyphens in both
identifiers. -/
theorem target_version_told_suffix :
    let version : Version :=
      { major := 1, minor := 8, patch := 38, pre := ["beta".toList, "2-x".toList],
        build := ["007".toList, "a-b".toList] }
    let short : Version := { version with patch := 0 }
    let bare : Version := { version with minor := 0, patch := 0 }
    version.Valid ∧
      parseTarget " \tvv1.8.38.1..4x-beta.2-x+007.a-b\n".toList = .ok version ∧
      parseTarget " \tvv1.8-beta.2-x+007.a-b\n".toList = .ok short ∧
      parseTarget " \tvv1-beta.2-x+007.a-b\n".toList = .ok bare ∧
      parseTarget version.render = .ok version := by
  intro version short bare
  have hvalid : version.Valid := by
    refine ⟨by decide, by decide, by decide, ?_, ?_⟩
    all_goals
      intro segment hsegment
      simp only [version, List.mem_cons, List.not_mem_nil, or_false] at hsegment
      rcases hsegment with rfl | rfl
      all_goals refine ⟨by decide, List.all_eq_true.mp (by decide), ?_⟩
    · exact fun _ _ hzero ↦ absurd hzero (by decide)
    · exact fun _ _ hzero ↦ absurd hzero (by decide)
    · exact fun hpart ↦ absurd hpart (by decide)
    · exact fun hpart ↦ absurd hpart (by decide)
  have hextras : ∀ extra ∈ [['1'], [], "4x".toList], '-' ∉ extra ∧ '+' ∉ extra := by decide
  have hfront : ∀ c ∈ " \t".toList, isBlank c = true := List.all_eq_true.mp (by decide)
  have hbehind : ∀ c ∈ ['\n'], isBlank c = true := List.all_eq_true.mp (by decide)
  have htold := target_version_told hvalid 2 hextras hfront hbehind
  have hdigits : digitsOf 1 = ['1'] ∧ digitsOf 8 = ['8'] ∧ digitsOf 38 = ['3', '8'] := by
    decide
  simp only [version, hdigits] at htold
  obtain ⟨hfull, hshort, -, hbare, -, hrender⟩ := htold
  exact ⟨hvalid, hfull, hshort, hbare, hrender⟩

end Version

end MarkedEdits
