import MarkedEdits.Proofs.Scope.Blame
import MarkedEdits.Proofs.Scope.File

/-!
# What the errors of an editor are about

The guards stand behind the edits in one list, so an error in that list may name a guard. No such
error leaves the editor: it is put down to the markers of other namespaces, and their lines are then
counted in a scan of its own. `Editor.errors_attributed` says that every error of a patch is about
the edits that were given, or counts the lines that hold a stem.

The scan and the guards look for stems in different ways. That the scan finds a line whenever a
guard is named rests on `Editor.exists_onLine_of_foreignMarkers`: in a text without stems the guards
claim nothing, so they are in nobody's way.
-/

namespace MarkedEdits

open Text

/-! ## The scan for lines -/

section Scan

variable {α : Type}

/-- The scan lists as many entries as satisfy the predicate. -/
theorem length_filterMap_zipIdx (p : α → Bool) (l : List α) (n : Nat) :
    ((l.zipIdx n).filterMap fun (a, k) ↦ if p a then some k else none).length = l.countP p := by
  induction l generalizing n with
  | nil => rfl
  | cons a l ih =>
      rw [List.zipIdx_cons, List.countP_cons, ← ih (n + 1)]
      cases hp : p a <;> simp [hp]

/-- The scan lists the first entry first that satisfies the predicate. -/
theorem headD_filterMap_zipIdx {p : α → Bool} {before after : List α} {a : α}
    (hbefore : ∀ b ∈ before, p b = false) (ha : p a = true) (n d : Nat) :
    (((before ++ a :: after).zipIdx n).filterMap fun (a, k) ↦
      if p a then some k else none).headD d = n + before.length := by
  induction before generalizing n with
  | nil => simp [List.zipIdx_cons, ha]
  | cons b before ih =>
      obtain ⟨hb, hrest⟩ := List.forall_mem_cons.mp hbefore
      rw [List.cons_append, List.zipIdx_cons, List.filterMap_cons]
      simp only [hb, Bool.false_eq_true, if_false]
      rw [ih hrest, List.length_cons]
      omega

end Scan

/-! ## What errors say -/

/-- The error is about `count` edits on the text: the positions that it names are among theirs, and
when it reports lines that hold a stem, it gives their number and the number of the first. -/
def EditError.Attributed (style : Style) (t : Text) (count : Nat) : EditError → Prop
  | noMatch index _ | multipleMatches index _ => index < count
  | collision index other _ | overlap index other _ => index < count ∧ other < count
  | foreignMarkers found first =>
      1 ≤ found ∧ found = (lines t).countP (fun line ↦ ¬ style.StemFree line) ∧
        ∃ before line after, lines t = before ++ line :: after ∧
          (∀ other ∈ before, style.StemFree other) ∧ ¬ style.StemFree line ∧
          first = before.length + 1 ∧ first = lineNumber t (size before.flatten)
  | invalidEdit _ _ | invalidNamespace _ _ | invalidStyle _ | unwritten _ _ => False

/-- Edits that do not fit are to blame themselves when the error names no others. -/
theorem EditError.attributed_of_isMisfit {style : Style} {t : Text} {count : Nat}
    {error : EditError} (hmisfit : error.isMisfit = true)
    (hnamed : ∀ k ∈ error.named, k < count) : error.Attributed style t count := by
  cases error with
  | noMatch index hint => exact hnamed index (List.mem_singleton_self index)
  | multipleMatches index found => exact hnamed index (List.mem_singleton_self index)
  | collision index other start =>
      exact ⟨hnamed index List.mem_cons_self,
        hnamed other (List.mem_cons_of_mem _ List.mem_cons_self)⟩
  | overlap index other start =>
      exact ⟨hnamed index List.mem_cons_self,
        hnamed other (List.mem_cons_of_mem _ List.mem_cons_self)⟩
  | _ => cases hmisfit

namespace Editor

variable {editor : Editor} {t : Text} {edits : List Edit}

/-- The line holds a stem when it is not free of stems. -/
theorem onLine_eq (editor : Editor) :
    editor.markers.onLine = fun line ↦ decide (¬ editor.style.StemFree line) := by
  funext line
  rw [Bool.eq_iff_iff, onLine_iff_exists_stem, decide_eq_true_eq]
  simp [Style.StemFree]

/-- A text holds a stem when one of its lines does. -/
theorem exists_onLine_of_not_stemFree (h : ¬ editor.style.StemFree t) :
    ∃ line ∈ lines t, editor.markers.onLine line = true := by
  simp only [Style.StemFree, not_forall, not_not] at h
  obtain ⟨stem, hstem, hinfix⟩ := h
  obtain ⟨hne, hnewline⟩ := Style.stem_spec editor.usable hstem
  obtain ⟨j, hocc⟩ := contains_iff_exists_occursAt.mp (contains_iff.mpr hinfix)
  obtain ⟨p, hp, -, -, hheld⟩ := hocc.exists_placed hnewline hne
  exact ⟨p.line, line_mem_lines hp, onLine_iff_exists_stem.mpr ⟨stem, hstem, hheld⟩⟩

/-- When the markers of other namespaces are reported, a line holds a stem. -/
theorem exists_onLine_of_foreignMarkers {count first : Nat}
    (h : (editor.evaluate t edits).1 = .error (.foreignMarkers count first)) :
    ∃ line ∈ lines t, editor.markers.onLine line = true := by
  obtain ⟨plan, hplan⟩ := exists_plan_of_foreignMarkers h
  refine exists_onLine_of_not_stemFree fun hfree ↦ ?_
  -- without stems there is no line that an edit could touch or where guards could collide
  have hnone : ∀ line ∈ lines t, ¬ editor.markers.onLine line = true :=
    fun line ↦ not_onLine_of_stemFree hfree
  have havoids : plan.Avoids t editor.markers :=
    fun span _ p hp hline ↦ absurd hline (hnone p.line (line_mem_lines hp))
  have hunmixed : editor.markers.Unmixed t :=
    fun line hline hmixed ↦ hnone line hline (Markers.onLine_iff.mpr (.inl hmixed.1))
  exact not_foreignMarkers_of_avoids hplan havoids hunmixed
    (fun _ guard ↦ matchesOf_of_stemFree hfree) count first h

/-- The lines that hold a stem are counted, and the first of them is numbered. -/
theorem attributed_foreignError (h : ∃ line ∈ lines t, editor.markers.onLine line = true)
    (count : Nat) : (editor.markers.foreignError t).Attributed editor.style t count := by
  obtain ⟨line, hfound⟩ := Option.isSome_iff_exists.mp (List.find?_isSome.mpr h)
  obtain ⟨hline, before, after, hlines, hbefore⟩ := List.find?_eq_some_iff_append.mp hfound
  have hnone : ∀ other ∈ before, editor.markers.onLine other = false := by simpa using hbefore
  have hcount : (editor.markers.foreignLines t).length =
      (lines t).countP editor.markers.onLine := length_filterMap_zipIdx ..
  have hfirst : (editor.markers.foreignLines t).headD 0 = before.length + 1 := by
    rw [Markers.foreignLines, hlines, headD_filterMap_zipIdx hnone hline, Nat.add_comm]
  refine ⟨?_, ?_, before, line, after, hlines, ?_, ?_, hfirst, ?_⟩
  · rw [hcount]
    exact List.countP_pos_iff.mpr h
  · rw [hcount, onLine_eq]
  · simpa [onLine_eq] using hnone
  · simpa [onLine_eq] using hline
  · rw [hfirst, lineNumber_of_lines hlines]

/-- When a patch fails, its error names none but the edits that were given, which do not fit, or it
reports the lines of the reverted text that hold a stem: how many there are, at least one, and the
number of the first. -/
theorem errors_attributed (editor : Editor) (t : Text) (edits : List Edit) {error : EditError}
    (h : editor.patch t edits = .error error) :
    error.Attributed editor.style (editor.revert t) edits.length := by
  have heval := patch_error_iff.mp h
  rcases evaluate_error_cases heval with rfl | ⟨hmisfit, hnamed⟩
  · exact attributed_foreignError (exists_onLine_of_foreignMarkers heval) edits.length
  · exact EditError.attributed_of_isMisfit hmisfit hnamed

/-- An edit reaches into a line of another namespace, and that line is counted. -/
theorem errors_attributed_overlap :
    let editor : Editor :=
      { owner := ⟨['b'], by simp, List.forall_mem_singleton.mpr rfl⟩, style := .hash
        usable := by decide, scope := .span }
    let edit : Edit :=
      { anchors := [['w'], ['x']], anchors_ne_nil := by simp, anchor_ne_nil := by simp
        after := ['z'] }
    let t := "v\nw\n# + PL:a + # y\nx\n".toList
    editor.patch t [edit] = .error (.foreignMarkers 1 3) ∧
      (EditError.foreignMarkers 1 3).Attributed editor.style (editor.revert t) 1 := by
  intro editor edit t
  have hpatch : editor.patch t [edit] = .error (.foreignMarkers 1 3) := by
    simp only [t, editor, edit]
    decide +kernel
  exact ⟨hpatch, errors_attributed editor t [edit] hpatch⟩

end Editor

end MarkedEdits
