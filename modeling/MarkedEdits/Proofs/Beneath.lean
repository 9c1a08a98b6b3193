import MarkedEdits.Proofs.Isolation
import MarkedEdits.Proofs.Session.Basic

/-!
# What lies beneath markers

Editors of different styles do not see each other's markers, so one of them may disable a line that
another has inserted or disabled, and marker comes to stand before marker. What is left of a line
when they are all taken off, one after the other, is what lies beneath it (`Markers.beneath`). It is
the same before and after every step of the editors, if no line begins with markers of two of them.
So a text that they have worked on is always over the original (`Over`), and it is the original
itself when no line is marked (`Over.eq_iff`). If the guards of all editors see the markers of all,
marker never stands before marker (`Flat`), and every marker goes when its editor reverts.
-/

namespace MarkedEdits

open Text

namespace Markers

/-- What is left of a line when the markers before it are taken off one after the other: nothing, if
one of them is an insert marker. A marker that is empty is not taken off. -/
def beneath (all : List Markers) (line : Text) : Option Text :=
  match all.find? (·.Marks line) with
  | none => some line
  | some markers =>
      if markers.insert <+: line then none
      else if _h : (line.drop markers.delete.length).length < line.length then
        beneath all (line.drop markers.delete.length)
      else some line
termination_by line.length
decreasing_by assumption

/-- Markers of which no two begin a common line. -/
structure Apart (all : List Markers) : Prop where
  sound : ∀ markers ∈ all, markers.Sound
  unique : ∀ a ∈ all, ∀ b ∈ all, ∀ line, a.Marks line → b.Marks line → a = b

variable {all : List Markers} {markers : Markers}

/-- An unmarked line lies beneath itself. -/
theorem beneath_of_not_marks {line : Text} (h : ∀ markers ∈ all, ¬ markers.Marks line) :
    beneath all line = some line := by
  have hnone : all.find? (·.Marks line) = none := by
    simpa using h
  rw [beneath, hnone]

namespace Apart

variable (h : Apart all) (hmem : markers ∈ all)

include h hmem

/-- The marker that is found before a line is the one that stands there. -/
theorem find?_eq {line : Text} (hmarks : markers.Marks line) :
    all.find? (·.Marks line) = some markers := by
  cases hfind : all.find? (·.Marks line) with
  | none => exact absurd hmarks (by simpa using List.find?_eq_none.mp hfind markers hmem)
  | some found =>
      have hfound : found.Marks line := by simpa using List.find?_some hfind
      rw [h.unique found (List.mem_of_find?_eq_some hfind) markers hmem line hfound hmarks]

/-- Nothing lies beneath an inserted line. -/
theorem beneath_insert (line : Text) : beneath all (markers.insert ++ line) = none := by
  have hpre : markers.insert <+: markers.insert ++ line := List.prefix_append _ _
  rw [beneath, h.find?_eq hmem (.inl hpre)]
  simp only [hpre, if_true]

/-- What lies beneath a disabled line lies beneath the line itself. -/
theorem beneath_delete (line : Text) :
    beneath all (markers.delete ++ line) = beneath all line := by
  have hsound := h.sound markers hmem
  have hshorter : line.length < (markers.delete ++ line).length := by
    have hpos := List.length_pos_iff.mpr hsound.delete_ne_nil
    rw [List.length_append]
    omega
  rw [beneath, h.find?_eq hmem (.inr (List.prefix_append _ _))]
  simp only [hsound.not_insert_prefix_delete line, if_false, List.drop_left, hshorter, dite_true]

/-- The same lies beneath a line and beneath what reverting leaves of it. -/
theorem beneath_release (line : Text) :
    (markers.release line).bind (beneath all) = beneath all line := by
  by_cases hmarks : markers.Marks line
  · rcases hmarks with ⟨rest, rfl⟩ | ⟨rest, rfl⟩
    · rw [release_insert, h.beneath_insert hmem]
      rfl
    · rw [(h.sound markers hmem).release_delete, h.beneath_delete hmem]
      rfl
  · rw [release_of_not_marks hmarks]
    rfl

end Apart

/-- Nothing but an empty line lies beneath an empty line. -/
theorem Apart.beneath_nil (h : Apart all) : beneath all [] = some [] := by
  refine beneath_of_not_marks fun markers hmem hmarks ↦ ?_
  rcases hmarks with hpre | hpre
  · exact (h.sound markers hmem).insert_ne_nil (List.prefix_nil.mp hpre)
  · exact (h.sound markers hmem).delete_ne_nil (List.prefix_nil.mp hpre)

end Markers

/-- A line with a marker of a built-in style begins with the first character of that style. -/
theorem Style.head?_of_marks {style : Style} {owner : Namespace} {line : Text}
    (h : (style.markers owner).Marks line) :
    (style = .block → line.head? = some '/') ∧ (style = .hash → line.head? = some '#') := by
  have hstem : stem style.insert <+: line ∨ stem style.delete <+: line :=
    h.imp (stem_prefix_fill style.insert owner.name).trans
      (stem_prefix_fill style.delete owner.name).trans
  constructor
  all_goals
    rintro rfl
    rcases hstem with ⟨rest, rfl⟩ | ⟨rest, rfl⟩ <;> rfl

/-- Editors of built-in styles whose markers begin a common line have the same markers. -/
theorem Editor.markers_eq_of_marks {a b : Editor} (ha : a.style = .block ∨ a.style = .hash)
    (hb : b.style = .block ∨ b.style = .hash) {line : Text} (hline : a.markers.Marks line)
    (hline' : b.markers.Marks line) : a.markers = b.markers := by
  have hstyle : a.style = b.style := by
    obtain ⟨hblock, hhash⟩ := Style.head?_of_marks hline
    obtain ⟨hblock', hhash'⟩ := Style.head?_of_marks hline'
    rcases ha with ha | ha <;> rcases hb with hb | hb
    · rw [ha, hb]
    · exact absurd ((hblock ha).symm.trans (hhash' hb)) (by decide)
    · exact absurd ((hhash ha).symm.trans (hblock' hb)) (by decide)
    · rw [ha, hb]
  by_cases howner : a.owner = b.owner
  · simp only [Editor.markers, hstyle, howner]
  · have hisolates := (Style.delimited_of_built_in ha).terminated.isolates a.usable
    rw [Editor.markers, ← hstyle] at hline'
    exact absurd hline (hisolates.not_marks howner hline')

/-- Editors have markers that are apart if those that begin a common line are the same. -/
theorem Markers.apart_of_editors {editors : List Editor}
    (h : ∀ a ∈ editors, ∀ b ∈ editors, ∀ line,
      a.markers.Marks line → b.markers.Marks line → a.markers = b.markers) :
    Apart (editors.map (·.markers)) where
  sound := by
    intro markers hmarkers
    obtain ⟨editor, -, rfl⟩ := List.mem_map.mp hmarkers
    exact editor.markers_sound
  unique := by
    intro _ ha _ hb
    obtain ⟨a, hmem, rfl⟩ := List.mem_map.mp ha
    obtain ⟨b, hmem', rfl⟩ := List.mem_map.mp hb
    exact h a hmem b hmem'

/-- Beneath the lines of the text lie the lines of the original, and the text ends as the original
does. -/
structure Over (all : List Markers) (original t : Text) : Prop where
  beneath : (bodies t).filterMap (Markers.beneath all) = bodies original
  ending : endsWithNewline t = endsWithNewline original

namespace Over

variable {all : List Markers} {original t : Text}

/-- The lines of an unmarked text lie beneath themselves. -/
theorem filterMap_beneath_eq
    (hunmarked : ∀ body ∈ bodies t, ∀ markers ∈ all, ¬ markers.Marks body) :
    (bodies t).filterMap (Markers.beneath all) = bodies t := by
  rw [List.filterMap_congr fun body hbody ↦ Markers.beneath_of_not_marks (hunmarked body hbody)]
  exact List.filterMap_some

/-- An unmarked text is over itself. -/
theorem refl (hunmarked : ∀ body ∈ bodies t, ∀ markers ∈ all, ¬ markers.Marks body) :
    Over all t t :=
  ⟨filterMap_beneath_eq hunmarked, rfl⟩

/-- A text over an unmarked original is the original exactly if no line of it is marked. -/
theorem eq_iff (h : Over all original t)
    (horiginal : ∀ body ∈ bodies original, ∀ markers ∈ all, ¬ markers.Marks body) :
    t = original ↔ ∀ body ∈ bodies t, ∀ markers ∈ all, ¬ markers.Marks body := by
  constructor
  · rintro rfl
    exact horiginal
  · intro hunmarked
    have hbodies : bodies t = bodies original :=
      (filterMap_beneath_eq hunmarked).symm.trans h.beneath
    rw [← assemble_bodies t, ← assemble_bodies original, hbodies, h.ending]

section Steps

variable (hapart : Markers.Apart all) {editor : Editor} (hmem : editor.markers ∈ all)

include hapart hmem

/-- The same lies beneath the lines of a text and beneath what reverting leaves of them. -/
theorem filterMap_release (h : Over all original t) :
    ((bodies t).filterMap editor.markers.release).filterMap (Markers.beneath all) =
      bodies original := by
  rw [← h.beneath, List.filterMap_filterMap]
  exact congrArg (List.filterMap · (bodies t)) (funext (hapart.beneath_release hmem))

/-- Reverting leaves no empty line that is not ended. -/
theorem getLast?_release_ne (h : Over all original t) (hopen : endsWithNewline t = false) :
    ((bodies t).filterMap editor.markers.release).getLast? ≠ some [] := by
  intro hlast
  obtain ⟨front, hfront⟩ := List.getLast?_eq_some_iff.mp hlast
  -- such a line would lie beneath itself, and the original would end with it
  have hbodies := h.filterMap_release hapart hmem
  rw [hfront, List.filterMap_append, List.filterMap_cons, hapart.beneath_nil] at hbodies
  apply getLast?_bodies_ne (h.ending ▸ hopen)
  rw [← hbodies]
  simp

/-- Reverting a text that is over an original leaves of every line what is left of it. -/
theorem revert_eq (h : Over all original t) :
    editor.revert t =
      assemble (endsWithNewline t) ((bodies t).filterMap editor.markers.release) := by
  have hrows : ∀ body ∈ bodies t, '\n' ∉ body := fun body ↦ newline_not_mem_of_mem_bodies
  conv_lhs => rw [← assemble_bodies t]
  refine editor.revert_assemble hrows getLast?_bodies_ne fun hopen hnil ↦ ?_
  obtain ⟨last, hlast, hrelease⟩ := Option.bind_eq_some_iff.mp hnil
  obtain ⟨front, hfront⟩ := List.getLast?_eq_some_iff.mp hlast
  apply h.getLast?_release_ne hapart hmem hopen
  rw [hfront, List.filterMap_append, List.filterMap_cons, hrelease]
  simp

/-- The lines of a reverted text are what is left of the lines before. -/
theorem bodies_revert (h : Over all original t) :
    bodies (editor.revert t) = (bodies t).filterMap editor.markers.release := by
  rw [h.revert_eq hapart hmem]
  refine bodies_assemble (fun left hleft ↦ ?_) (h.getLast?_release_ne hapart hmem)
  obtain ⟨body, hbody, hrelease⟩ := List.mem_filterMap.mp hleft
  exact Markers.newline_not_mem_release (newline_not_mem_of_mem_bodies hbody) hrelease

/-- Reverting keeps what lies beneath. -/
theorem revert (h : Over all original t) : Over all original (editor.revert t) := by
  refine ⟨?_, ?_⟩
  · rw [h.bodies_revert hapart hmem, h.filterMap_release hapart hmem]
  · rw [h.revert_eq hapart hmem, ← h.ending]
    refine endsWithNewline_assemble (fun left hleft ↦ ?_) (fun hclosed hnil ↦ ?_)
      (h.getLast?_release_ne hapart hmem)
    · obtain ⟨body, hbody, hrelease⟩ := List.mem_filterMap.mp hleft
      exact Markers.newline_not_mem_release (newline_not_mem_of_mem_bodies hbody) hrelease
    · -- an original without lines has no newline at its end
      have hbodies := h.filterMap_release hapart hmem
      rw [hnil, List.filterMap_nil] at hbodies
      rw [h.ending, bodies_eq_nil_iff.mp hbodies.symm] at hclosed
      cases hclosed

/-- An edit keeps what lies beneath. -/
theorem compose {edits : List Edit} {composed : Text} (h : Over all original t)
    (hcompose : (editor.evaluate t edits).1 = .ok composed) : Over all original composed := by
  obtain ⟨sheet, rfl, -, howned, -⟩ := Editor.exists_sheet_of_evaluate hcompose
  refine ⟨?_, (sheet.endsWithNewline_text editor.usable).trans h.ending⟩
  have hrow : ∀ row ∈ sheet.rows, Markers.beneath all (row.written editor.style) =
      row.original?.bind (Markers.beneath all) := by
    intro row hrow
    cases row with
    | bare line => rfl
    | disabled owner line =>
        obtain rfl := List.mem_singleton.mp (howned _ hrow owner rfl)
        exact hapart.beneath_delete hmem line
    | inserted owner line =>
        obtain rfl := List.mem_singleton.mp (howned _ hrow owner rfl)
        exact hapart.beneath_insert hmem line
  rw [sheet.bodies_text editor.usable, List.filterMap_map, ← h.beneath, ← sheet.originals,
    List.filterMap_filterMap]
  exact List.filterMap_congr hrow

end Steps

end Over

/-- No marker stands behind a delete marker, and only markers that are left stand before lines. -/
structure Flat (all left : List Markers) (t : Text) : Prop where
  single : ∀ body ∈ bodies t, ∀ markers ∈ all, ∀ line, body = markers.delete ++ line →
    ∀ other ∈ all, ¬ other.Marks line
  owned : ∀ body ∈ bodies t, ∀ markers ∈ all, markers.Marks body → markers ∈ left

namespace Flat

variable {all left : List Markers} {original t : Text}

/-- An unmarked text is flat. -/
theorem of_unmarked (left : List Markers)
    (hunmarked : ∀ body ∈ bodies t, ∀ markers ∈ all, ¬ markers.Marks body) : Flat all left t where
  single := by
    rintro body hbody markers hmem line rfl
    exact absurd (.inr (List.prefix_append _ _)) (hunmarked _ hbody markers hmem)
  owned := fun body hbody markers hmem hmarks ↦ absurd hmarks (hunmarked body hbody markers hmem)

/-- More markers may be left. -/
theorem mono {more : List Markers} (h : Flat all left t) (hsub : ∀ markers ∈ left, markers ∈ more) :
    Flat all more t :=
  ⟨h.single, fun body hbody markers hmem hmarks ↦ hsub _ (h.owned body hbody markers hmem hmarks)⟩

/-- When no markers are left, no line is marked. -/
theorem unmarked (h : Flat all [] t) : ∀ body ∈ bodies t, ∀ markers ∈ all, ¬ markers.Marks body :=
  fun body hbody markers hmem hmarks ↦ List.not_mem_nil (h.owned body hbody markers hmem hmarks)

section Steps

variable (hapart : Markers.Apart all) {editor : Editor} (hmem : editor.markers ∈ all)

include hapart hmem

/-- The markers of an editor go when it reverts. -/
theorem revert (h : Flat all (editor.markers :: left) t) (hover : Over all original t) :
    Flat all left (editor.revert t) := by
  have hleft : ∀ body ∈ bodies (editor.revert t),
      (∀ markers ∈ all, ¬ markers.Marks body) ∨
        (body ∈ bodies t ∧ ¬ editor.markers.Marks body) := by
    intro found hfound
    rw [hover.bodies_revert hapart hmem] at hfound
    obtain ⟨body, hbody, hrelease⟩ := List.mem_filterMap.mp hfound
    by_cases hmarks : editor.markers.Marks body
    · rcases hmarks with ⟨rest, rfl⟩ | ⟨rest, rfl⟩
      · rw [Markers.release_insert] at hrelease
        cases hrelease
      · rw [editor.markers_sound.release_delete] at hrelease
        obtain rfl : rest = found := Option.some.inj hrelease
        exact .inl (h.single _ hbody _ hmem rest rfl)
    · rw [Markers.release_of_not_marks hmarks] at hrelease
      cases hrelease
      exact .inr ⟨hbody, hmarks⟩
  constructor
  · intro body hbody markers hmarkers line hline
    rcases hleft body hbody with hunmarked | ⟨hold, -⟩
    · exact absurd (.inr ⟨line, hline.symm⟩) (hunmarked markers hmarkers)
    · exact h.single body hold markers hmarkers line hline
  · intro body hbody markers hmarkers hmarks
    rcases hleft body hbody with hunmarked | ⟨hold, hnot⟩
    · exact absurd hmarks (hunmarked markers hmarkers)
    · rcases List.mem_cons.mp (h.owned body hold markers hmarkers hmarks) with rfl | hrest
      · exact absurd hmarks hnot
      · exact hrest

/-- An edit disables only unmarked lines, if the guards of the editor see all markers. -/
theorem compose (hsees : ∀ line, editor.style.StemFree line → ∀ markers ∈ all, ¬ markers.Marks line)
    (hleft : editor.markers ∈ left) {edits : List Edit} {composed : Text} (h : Flat all left t)
    (hcompose : (editor.evaluate t edits).1 = .ok composed) : Flat all left composed := by
  obtain ⟨sheet, rfl, -, howned, hdisabled⟩ := Editor.exists_sheet_of_evaluate hcompose
  have hrows : ∀ body ∈ bodies (sheet.text editor.style), body ∈ bodies t ∨
      (∃ line, body = editor.markers.insert ++ line) ∨
      ∃ line, body = editor.markers.delete ++ line ∧ editor.style.StemFree line := by
    intro body hbody
    rw [sheet.bodies_text editor.usable] at hbody
    obtain ⟨row, hrow, rfl⟩ := List.mem_map.mp hbody
    cases row with
    | bare line => exact .inl (Sheet.mem_bodies_of_bare hrow)
    | disabled owner line =>
        obtain rfl := List.mem_singleton.mp (howned _ hrow owner rfl)
        exact .inr (.inr ⟨line, rfl, hdisabled _ line hrow⟩)
    | inserted owner line =>
        obtain rfl := List.mem_singleton.mp (howned _ hrow owner rfl)
        exact .inr (.inl ⟨line, rfl⟩)
  constructor
  · rintro body hbody markers hmarkers line rfl
    rcases hrows _ hbody with hold | ⟨rest, hrest⟩ | ⟨rest, hrest, hfree⟩
    · exact h.single _ hold markers hmarkers line rfl
    · -- a line has a marker of one kind
      obtain rfl := hapart.unique _ hmem _ hmarkers (markers.delete ++ line)
        (.inl ⟨rest, hrest.symm⟩) (.inr (List.prefix_append _ _))
      exact absurd ⟨rest, hrest.symm⟩ (editor.markers_sound.not_insert_prefix_delete line)
    · obtain rfl := hapart.unique _ hmem _ hmarkers (markers.delete ++ line)
        (.inr ⟨rest, hrest.symm⟩) (.inr (List.prefix_append _ _))
      rw [List.append_cancel_left hrest]
      exact hsees rest hfree
  · intro body hbody markers hmarkers hmarks
    rcases hrows body hbody with hold | ⟨rest, hrest⟩ | ⟨rest, hrest, -⟩
    · exact h.owned body hold markers hmarkers hmarks
    · rwa [← hapart.unique _ hmem _ hmarkers body (.inl ⟨rest, hrest.symm⟩) hmarks]
    · rwa [← hapart.unique _ hmem _ hmarkers body (.inr ⟨rest, hrest.symm⟩) hmarks]

end Steps

end Flat

/-! ## Runs of editors -/

/-- The guards of an editor see the markers of another one: a line without stems of its style does
not begin with them. -/
def Editor.Sees (a b : Editor) : Prop :=
  ∀ line, a.style.StemFree line → ¬ b.markers.Marks line

/-- Editors of one style see each other. -/
theorem Editor.sees_of_style_eq {a b : Editor} (h : a.style = b.style) : a.Sees b := by
  intro line hfree
  rw [h] at hfree
  exact hfree.not_marks b.owner

section Runs

variable {editors : List Editor} {original : Text}
  (hapart : Markers.Apart (editors.map (·.markers)))
  (hfree : ∀ editor ∈ editors, editor.style.StemFree original)

include hfree

/-- No line of a text without stems is marked. -/
theorem not_marks_of_stemFree :
    ∀ body ∈ bodies original, ∀ markers ∈ editors.map (·.markers), ¬ markers.Marks body := by
  intro body hbody markers hmarkers
  obtain ⟨editor, heditor, rfl⟩ := List.mem_map.mp hmarkers
  exact ((hfree editor heditor).of_mem_bodies hbody).not_marks editor.owner

omit hfree in
/-- A text is not marked for any of the editors when no line of it is. -/
theorem forall_unmarked_iff {t : Text} :
    (∀ editor ∈ editors, editor.markers.Unmarked t) ↔
      ∀ body ∈ bodies t, ∀ markers ∈ editors.map (·.markers), ¬ markers.Marks body := by
  simp only [List.forall_mem_map]
  constructor
  · intro h body hbody editor heditor
    exact editor.markers_sound.unmarked_iff.mp (h editor heditor) body hbody
  · intro h editor heditor
    exact editor.markers_sound.unmarked_iff.mpr fun body hbody ↦ h body hbody editor heditor

include hapart

/-- Steps of the editors keep what lies beneath. -/
theorem over_run {steps : List Step} (hsteps : ∀ step ∈ steps, step.editor ∈ editors) :
    Over (editors.map (·.markers)) original (run original steps) := by
  refine run_induction (.refl (not_marks_of_stemFree hfree)) ?_ ?_
  · intro step hstep t h
    exact h.revert hapart (List.mem_map_of_mem (hsteps step hstep))
  · intro step hstep t edits composed h hcompose
    have hmem := List.mem_map_of_mem (f := (·.markers)) (hsteps step hstep)
    exact (h.revert hapart hmem).compose hapart hmem hcompose

/-- Steps of editors that see each other put no marker before another. -/
theorem flat_run (hsees : ∀ a ∈ editors, ∀ b ∈ editors, a.Sees b) {steps : List Step}
    (hsteps : ∀ step ∈ steps, step.editor ∈ editors) :
    Flat (editors.map (·.markers)) (editors.map (·.markers)) (run original steps) := by
  have hunmarked := not_marks_of_stemFree hfree
  refine (run_induction
    (motive := fun t ↦ Over (editors.map (·.markers)) original t ∧
      Flat (editors.map (·.markers)) (editors.map (·.markers)) t)
    ⟨.refl hunmarked, .of_unmarked _ hunmarked⟩ ?_ ?_).2
  · intro step hstep t h
    have hmem := List.mem_map_of_mem (f := (·.markers)) (hsteps step hstep)
    have hmore := h.2.mono fun markers ↦ List.mem_cons_of_mem step.editor.markers
    exact ⟨h.1.revert hapart hmem, hmore.revert hapart hmem h.1⟩
  · intro step hstep t edits composed h hcompose
    have hmem := List.mem_map_of_mem (f := (·.markers)) (hsteps step hstep)
    have hmore := h.2.mono fun markers ↦ List.mem_cons_of_mem step.editor.markers
    have hover := h.1.revert hapart hmem
    refine ⟨hover.compose hapart hmem hcompose,
      (hmore.revert hapart hmem h.1).compose hapart hmem ?_ hmem hcompose⟩
    intro line hline markers hmarkers
    obtain ⟨other, hother, rfl⟩ := List.mem_map.mp hmarkers
    exact hsees step.editor (hsteps step hstep) other hother line hline

end Runs

section Reverts

variable {all : List Markers} {original t : Text} (hapart : Markers.Apart all)

include hapart

/-- Editors that revert one after the other keep what lies beneath. -/
theorem Over.foldl_revert (h : Over all original t) {order : List Editor}
    (horder : ∀ editor ∈ order, editor.markers ∈ all) :
    Over all original (order.foldl (fun t editor ↦ editor.revert t) t) :=
  List.foldlRecOn order _ h fun _ h editor hmem ↦ h.revert hapart (horder editor hmem)

/-- No marker is left after every editor has reverted. -/
theorem Flat.foldl_revert (hover : Over all original t) {order : List Editor}
    (horder : ∀ editor ∈ order, editor.markers ∈ all)
    (h : Flat all (order.map (·.markers)) t) :
    Flat all [] (order.foldl (fun t editor ↦ editor.revert t) t) := by
  induction order generalizing t with
  | nil => exact h
  | cons editor rest ih =>
      obtain ⟨hmem, hrest⟩ := List.forall_mem_cons.mp horder
      exact ih (hover.revert hapart hmem) hrest (h.revert hapart hmem hover)

end Reverts

/-- Editors that have worked on a text without stems and then revert, each at its turn, get the
text back exactly if no line of theirs is left, and always if they see each other. -/
theorem foldl_revert_run (editors : List Editor)
    (hapart : Markers.Apart (editors.map (·.markers))) {original : Text}
    (hfree : ∀ editor ∈ editors, editor.style.StemFree original) {steps : List Step}
    (hsteps : ∀ step ∈ steps, step.editor ∈ editors) :
    let last := editors.foldl (fun t editor ↦ editor.revert t) (run original steps)
    (last = original ↔ ∀ editor ∈ editors, editor.markers.Unmarked last) ∧
      ((∀ a ∈ editors, ∀ b ∈ editors, a.Sees b) → last = original) := by
  intro last
  have hmem : ∀ editor ∈ editors, editor.markers ∈ editors.map (·.markers) :=
    fun editor ↦ List.mem_map_of_mem
  have hunmarked := not_marks_of_stemFree hfree
  have hover := over_run hapart hfree hsteps
  have hlast : Over (editors.map (·.markers)) original last := hover.foldl_revert hapart hmem
  refine ⟨(hlast.eq_iff hunmarked).trans forall_unmarked_iff.symm, fun hsees ↦ ?_⟩
  have hflat := (flat_run hapart hfree hsees hsteps).foldl_revert hapart hover hmem
  exact (hlast.eq_iff hunmarked).mpr hflat.unmarked

end MarkedEdits
