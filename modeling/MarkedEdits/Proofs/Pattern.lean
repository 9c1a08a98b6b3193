import MarkedEdits.Proofs.Marker

/-!
# Line patterns

A pattern is a row of pieces, each of which takes some characters from the front of a text: none at
the start of a line, a literal text, any number of characters of a class, or one character that may
be missing. A piece takes as many as it can, the first piece chooses first, and a choice is given up
only when the pieces behind it cannot match. A search takes the leftmost match and goes on from
where it ends.

The pattern `markedLine` is a marker at the start of a line and all that follows up to the end of
the line. Its matches are the lines that begin with the marker (`cuts_markedLine`), so stripping a
marker is removing all matches of the pattern (`Marker.strip_removes_matches`).
-/

namespace MarkedEdits

open Text

/-- A piece of a pattern. -/
inductive Piece where
  | lineStart
  | literal (t : Text)
  | many (allowed : Char → Bool)
  | optional (c : Char)

/-- A row of pieces, which match one behind the other. -/
abbrev Pattern := List Piece

/-- A part of a text that is searched for a pattern: a character that no match holds, or a match. -/
inductive Cut where
  | passed (c : Char)
  | matched (t : Text)
  deriving DecidableEq, Repr

/-- The character, unless the part is a match. -/
def Cut.char? : Cut → Option Char
  | passed c => some c
  | matched _ => none

/-- The match, unless the part is a character that was passed. -/
def Cut.match? : Cut → Option Text
  | passed _ => none
  | matched t => some t

/-- How many characters the piece may take from `rest`, which stands behind `front`. The choices are
in the order of preference. -/
def Piece.choices (front rest : Text) : Piece → List Nat
  | lineStart => if front = [] ∨ endsWithNewline front = true then [0] else []
  | literal t => if t <+: rest then [t.length] else []
  | many allowed => (List.range ((rest.takeWhile allowed).length + 1)).reverse
  | optional c => if [c] <+: rest then [1, 0] else [0]

namespace Pattern

/-- How many characters the pattern may take from `rest`, which stands behind `front`, in the order
of preference. -/
def choices (front rest : Text) : Pattern → List Nat
  | [] => [0]
  | piece :: pieces =>
      (piece.choices front rest).flatMap fun n ↦
        (choices (front ++ rest.take n) (rest.drop n) pieces).map (n + ·)

/-- The length of the match that begins between `front` and `rest`, if there is one. -/
def matchAt? (pattern : Pattern) (front rest : Text) : Option Nat :=
  (choices front rest pattern).head?

/-- The parts of `rest`, which stands behind `front`. An empty match does not count where the match
before it ends, which the flag tells. -/
def cutsFrom (pattern : Pattern) (atMatch : Bool) (front rest : Text) : List Cut :=
  match rest with
  | [] =>
      match pattern.matchAt? front [] with
      | none => []
      | some _ => if atMatch then [] else [.matched []]
  | c :: rest =>
      match pattern.matchAt? front (c :: rest) with
      | none => .passed c :: cutsFrom pattern false (front ++ [c]) rest
      | some 0 =>
          (if atMatch then [] else [.matched []]) ++
            .passed c :: cutsFrom pattern false (front ++ [c]) rest
      | some (n + 1) =>
          let found := (c :: rest).take (n + 1)
          .matched found :: cutsFrom pattern true (front ++ found) ((c :: rest).drop (n + 1))
termination_by rest.length

/-- The parts of the text. -/
def cuts (pattern : Pattern) (t : Text) : List Cut :=
  pattern.cutsFrom false [] t

/-- The matches in the text, from left to right. -/
def findAll (pattern : Pattern) (t : Text) : List Text :=
  (pattern.cuts t).filterMap Cut.match?

/-- The text without the matches. -/
def removeAll (pattern : Pattern) (t : Text) : Text :=
  (pattern.cuts t).filterMap Cut.char?

/-! ## Matches at one place -/

variable {front rest : Text} {piece : Piece} {pieces : Pattern}

/-- A piece without a choice lets nothing match. -/
theorem matchAt?_of_none (h : piece.choices front rest = []) :
    matchAt? (piece :: pieces) front rest = none := by
  simp [matchAt?, choices, h]

/-- A piece takes what it prefers when the pieces behind it match there. -/
theorem matchAt?_of_some {n m : Nat} {others : List Nat}
    (hpiece : piece.choices front rest = n :: others)
    (hpieces : matchAt? pieces (front ++ rest.take n) (rest.drop n) = some m) :
    matchAt? (piece :: pieces) front rest = some (n + m) := by
  unfold matchAt? at hpieces
  obtain ⟨worse, hchoices⟩ := List.head?_eq_some_iff.mp hpieces
  simp [matchAt?, choices, hpiece, hchoices]

end Pattern

/-- A marker at the start of a line and what follows it up to the end of the line. -/
def Pattern.markedLine (marker : Text) : Pattern :=
  [.lineStart, .literal marker, .many (· != '\n'), .optional '\n']

namespace Pattern

variable {marker front rest body behind : Text}

/-- The rest of a line is taken together with its newline, if it has one. -/
theorem matchAt?_lineRest (hbody : '\n' ∉ body) {ending : Text}
    (hending : ending = ['\n'] ∨ ending = [] ∧ behind = []) :
    matchAt? [.many (· != '\n'), .optional '\n'] front (body ++ (ending ++ behind)) =
      some (body.length + ending.length) := by
  have htake : (body ++ (ending ++ behind)).takeWhile (· != '\n') = body := by
    have hall : ∀ c ∈ body, (c != '\n') = true := by
      intro c hc
      simpa using ne_of_mem_of_not_mem hc hbody
    rw [List.takeWhile_append_of_pos hall]
    rcases hending with rfl | ⟨rfl, rfl⟩ <;> simp
  have hmany : (Piece.many (· != '\n')).choices front (body ++ (ending ++ behind)) =
      body.length :: (List.range body.length).reverse := by
    rw [Piece.choices, htake, List.range_succ, List.reverse_append]
    rfl
  refine matchAt?_of_some hmany ?_
  rw [List.drop_left]
  rcases hending with rfl | ⟨rfl, rfl⟩ <;> simp [matchAt?, choices, Piece.choices]

/-- At the start of a line that begins with the marker the line matches as a whole. -/
theorem matchAt?_markedLine_of_marked (hstart : AtLineStart front) (hbody : '\n' ∉ body)
    {ending : Text} (hending : ending = ['\n'] ∨ ending = [] ∧ behind = []) :
    (markedLine marker).matchAt? front (marker ++ body ++ ending ++ behind) =
      some (marker ++ body ++ ending).length := by
  have hfirst : Piece.lineStart.choices front (marker ++ body ++ ending ++ behind) = [0] :=
    if_pos hstart
  have hmarker : (Piece.literal marker).choices front (marker ++ body ++ ending ++ behind) =
      [marker.length] := by
    refine if_pos ?_
    simp [List.append_assoc]
  have hrest : (marker ++ body ++ ending ++ behind).drop marker.length =
      body ++ (ending ++ behind) := by
    simp [List.append_assoc]
  have hmatch := matchAt?_of_some hmarker (hrest ▸ matchAt?_lineRest hbody hending)
  have hall : (markedLine marker).matchAt? front (marker ++ body ++ ending ++ behind) =
      some (0 + (marker.length + (body.length + ending.length))) :=
    matchAt?_of_some hfirst (by simpa using hmatch)
  rw [hall]
  simp

/-- Elsewhere nothing matches. -/
theorem matchAt?_markedLine_of_unmarked (h : ¬ (AtLineStart front ∧ marker <+: rest)) :
    (markedLine marker).matchAt? front rest = none := by
  by_cases hstart : AtLineStart front
  · have hmarker : (Piece.literal marker).choices front rest = [] :=
      if_neg fun hpre ↦ h ⟨hstart, hpre⟩
    have hfirst : Piece.lineStart.choices front rest = [0] := if_pos hstart
    simp [matchAt?, markedLine, choices, hfirst, hmarker]
  · exact matchAt?_of_none (if_neg hstart)

/-! ## Searches -/

/-- A character is passed where nothing matches. -/
theorem cutsFrom_of_none {pattern : Pattern} {c : Char} (atMatch : Bool)
    (h : pattern.matchAt? front (c :: rest) = none) :
    pattern.cutsFrom atMatch front (c :: rest) =
      .passed c :: pattern.cutsFrom false (front ++ [c]) rest := by
  rw [cutsFrom, h]

/-- A match that is not empty is followed by the parts behind it. -/
theorem cutsFrom_of_some {pattern : Pattern} {found : Text} (hne : found ≠ []) (atMatch : Bool)
    (h : pattern.matchAt? front (found ++ behind) = some found.length) :
    pattern.cutsFrom atMatch front (found ++ behind) =
      .matched found :: pattern.cutsFrom true (front ++ found) behind := by
  obtain ⟨c, found, rfl⟩ := List.exists_cons_of_ne_nil hne
  rw [List.cons_append] at h ⊢
  rw [cutsFrom, h]
  simp

variable (hne : marker ≠ [])

include hne

/-- Behind the text there is no marked line. -/
theorem cutsFrom_markedLine_nil (atMatch : Bool) :
    (markedLine marker).cutsFrom atMatch front [] = [] := by
  rw [cutsFrom, matchAt?_markedLine_of_unmarked]
  rintro ⟨-, hpre⟩
  exact hne (List.prefix_nil.mp hpre)

omit hne in
/-- A line that does not begin with the marker is passed. -/
theorem cutsFrom_markedLine_of_unmarked {line : Text} (hline : line ≠ [])
    (hnewline : '\n' ∉ line.dropLast)
    (h : ¬ (AtLineStart front ∧ marker <+: line ++ behind)) (atMatch : Bool) :
    (markedLine marker).cutsFrom atMatch front (line ++ behind) =
      line.map .passed ++ (markedLine marker).cutsFrom false (front ++ line) behind := by
  induction line generalizing front atMatch with
  | nil => exact absurd rfl hline
  | cons c line ih =>
      rw [List.cons_append] at h ⊢
      rw [cutsFrom_of_none atMatch (matchAt?_markedLine_of_unmarked h)]
      by_cases hlast : line = []
      · simp [hlast]
      · -- behind a character that is no newline there is no start of a line
        rw [List.dropLast_cons_of_ne_nil hlast] at hnewline
        obtain ⟨hc, hrest⟩ := not_or.mp (mt List.mem_cons.mpr hnewline)
        have hinside : ¬ AtLineStart (front ++ [c]) := by
          rintro (hnil | hend)
          · simp at hnil
          · simp [endsWithNewline, Ne.symm hc] at hend
        rw [ih hlast hrest (fun hstart ↦ hinside hstart.1)]
        simp

/-- From the start of a line on the lines that begin with the marker are the matches, and the others
are passed. -/
theorem cutsFrom_markedLine (hmarker : '\n' ∉ marker) (hstart : AtLineStart front)
    (atMatch : Bool) (t : Text) :
    (markedLine marker).cutsFrom atMatch front t =
      (lines t).flatMap fun line ↦
        if marker <+: line then [.matched line] else line.map .passed := by
  induction t using line_induction generalizing front atMatch with
  | nil => exact cutsFrom_markedLine_nil hne atMatch
  | last body hbody hsome =>
      rw [lines_body hbody hsome, List.flatMap_singleton]
      split
      · next hpre =>
          obtain ⟨tail, rfl⟩ := hpre
          have htail : '\n' ∉ tail := fun h ↦ hbody (List.mem_append_right _ h)
          have hmatch : (markedLine marker).matchAt? front (marker ++ tail ++ [] ++ []) = _ :=
            matchAt?_markedLine_of_marked hstart htail (.inr ⟨rfl, rfl⟩)
          have hcuts : (markedLine marker).cutsFrom atMatch front (marker ++ tail ++ []) = _ :=
            cutsFrom_of_some hsome atMatch (by simpa using hmatch)
          rw [cutsFrom_markedLine_nil hne] at hcuts
          simpa using hcuts
      · next hpre =>
          have hinside : '\n' ∉ body.dropLast := fun h ↦ hbody (List.dropLast_subset body h)
          have hcuts : (markedLine marker).cutsFrom atMatch front (body ++ []) = _ :=
            cutsFrom_markedLine_of_unmarked hsome hinside (by simpa using fun _ ↦ hpre) atMatch
          rw [cutsFrom_markedLine_nil hne] at hcuts
          simpa using hcuts
  | cons body rest hbody ih =>
      have hbegin : AtLineStart (front ++ (body ++ ['\n'])) :=
        hstart.append (.inr (endsWithNewline_iff.mpr ⟨body, rfl⟩))
      have hline : marker <+: body ++ ['\n'] ↔ marker <+: body :=
        Marker.prefix_line_iff hmarker body []
      rw [lines_body_cons hbody, List.flatMap_cons,
        show body ++ '\n' :: rest = body ++ ['\n'] ++ rest by simp]
      split
      · next hpre =>
          obtain ⟨tail, rfl⟩ := hline.mp hpre
          have htail : '\n' ∉ tail := fun h ↦ hbody (List.mem_append_right _ h)
          rw [← ih hbegin true]
          exact cutsFrom_of_some (by simp) atMatch
            (matchAt?_markedLine_of_marked hstart htail (.inl rfl))
      · next hpre =>
          rw [← ih hbegin false]
          refine cutsFrom_markedLine_of_unmarked (by simp) (by simpa using hbody) ?_ atMatch
          rintro ⟨-, hpre'⟩
          have hfirst := Marker.prefix_line_iff hmarker body rest
          rw [List.append_assoc] at hpre'
          exact hpre (hline.mpr (hfirst.mp hpre'))

/-- A text is cut into the lines that begin with the marker and the characters of the others. -/
theorem cuts_markedLine (hmarker : '\n' ∉ marker) (t : Text) :
    (markedLine marker).cuts t =
      (lines t).flatMap fun line ↦
        if marker <+: line then [.matched line] else line.map .passed :=
  cutsFrom_markedLine hne hmarker (.inl rfl) false t

/-- The matches are the lines that begin with the marker. -/
theorem findAll_markedLine (hmarker : '\n' ∉ marker) (t : Text) :
    (markedLine marker).findAll t = (lines t).filter (marker <+: ·) := by
  have hpassed : Cut.match? ∘ Cut.passed = fun _ ↦ none := rfl
  rw [findAll, cuts_markedLine hne hmarker]
  induction lines t with
  | nil => rfl
  | cons line rest ih =>
      rw [List.flatMap_cons, List.filterMap_append, ih]
      by_cases hpre : marker <+: line <;> simp [hpre, hpassed, Cut.match?]

/-- Without the matches the other lines are left. -/
theorem removeAll_markedLine (hmarker : '\n' ∉ marker) (t : Text) :
    (markedLine marker).removeAll t =
      ((lines t).filter fun line ↦ ¬ marker <+: line).flatten := by
  have hpassed : Cut.char? ∘ Cut.passed = some := rfl
  rw [removeAll, cuts_markedLine hne hmarker]
  induction lines t with
  | nil => rfl
  | cons line rest ih =>
      rw [List.flatMap_cons, List.filterMap_append, ih]
      by_cases hpre : marker <+: line <;> simp [hpre, hpassed, Cut.char?]

end Pattern

namespace Marker

variable {marker : Text}

/-- Stripping a marker removes the matches of the pattern for its lines. These are the lines that
begin with the marker, which are counted, and the other lines are left in their order. So nothing is
left to strip or to count. -/
theorem strip_removes_matches (hne : marker ≠ []) (hmarker : '\n' ∉ marker) (t : Text) :
    let pattern := Pattern.markedLine marker
    strip marker t = pattern.removeAll t ∧
      strip marker t = ((lines t).filter fun line ↦ ¬ marker <+: line).flatten ∧
      pattern.findAll t = (lines t).filter (marker <+: ·) ∧
      countMarked marker t = (pattern.findAll t).length ∧
      strip marker (strip marker t) = strip marker t ∧
      countMarked marker (strip marker t) = 0 := by
  intro pattern
  have hfound : pattern.findAll t = _ := Pattern.findAll_markedLine hne hmarker t
  have hremoved : pattern.removeAll t = _ := Pattern.removeAll_markedLine hne hmarker t
  have hstrip := strip_eq_filter hne hmarker t
  refine ⟨hstrip.trans hremoved.symm, hstrip, hfound, ?_, ?_, ?_⟩
  · rw [countMarked_eq_countP hne hmarker, hfound, List.countP_eq_length_filter]
  · rw [strip_eq_filter hne hmarker (strip marker t), hstrip, lines_flatten_filter,
      List.filter_filter]
    simp
  · rw [countMarked_eq_countP hne hmarker, hstrip, lines_flatten_filter, List.countP_eq_zero]
    simp

/-- Lines that stand one behind the other, with a carriage return or with another line break in
them, are matched each as a whole, and so is a last line that is not ended. A marker within a line
is not matched, and the characters of a marker stand for themselves. -/
theorem strip_removes_matches_literal :
    let marker := ".* ".toList
    let pattern := Pattern.markedLine marker
    let t := ".* a\r\n.* \u2028b\nx.* c\n\nz* d\n.* e".toList
    marker ≠ [] ∧ '\n' ∉ marker ∧ strip marker t = "x.* c\n\nz* d\n".toList ∧
      pattern.removeAll t = "x.* c\n\nz* d\n".toList ∧
      pattern.findAll t = [".* a\r\n".toList, ".* \u2028b\n".toList, ".* e".toList] ∧
      countMarked marker t = 3 := by
  intro marker pattern t
  have hne : marker ≠ [] := by decide
  have hmarker : '\n' ∉ marker := by decide
  obtain ⟨hstrip, hfilter, hfound, hcount, -, -⟩ := strip_removes_matches hne hmarker t
  have hleft : ((lines t).filter fun line ↦ ¬ marker <+: line).flatten =
      "x.* c\n\nz* d\n".toList := by decide +kernel
  have hmarked : (lines t).filter (marker <+: ·) =
      [".* a\r\n".toList, ".* \u2028b\n".toList, ".* e".toList] := by decide +kernel
  have hall := hfound.trans hmarked
  exact ⟨hne, hmarker, hfilter.trans hleft, hstrip.symm.trans (hfilter.trans hleft), hall,
    hcount.trans (congrArg List.length hall)⟩

end Marker

end MarkedEdits
