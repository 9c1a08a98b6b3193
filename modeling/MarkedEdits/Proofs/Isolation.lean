import Mathlib.Data.List.Basic
import MarkedEdits.Proofs.Revert

/-!
# Isolation of namespaces

A style isolates namespaces when no marker of one namespace begins a marker of another
(`Style.Isolates`). Then reverting for one namespace keeps every line that begins with a marker of
another (`Style.Spares`). Not every usable style isolates: both properties hold exactly when in both
templates a character that no namespace can hold stands behind the placeholder
(`Style.isolation_iff`), and a style can be usable without it (`Style.not_isolation_open_ended`).
-/

namespace MarkedEdits

open Text

open scoped List

/-- What a filter keeps is part of what a partial map makes of a list, when the map keeps it as it
is. -/
theorem filter_sublist_filterMap {α : Type} {keep : α → Bool} {f : α → Option α} {l : List α}
    (h : ∀ x ∈ l, keep x = true → f x = some x) : l.filter keep <+ l.filterMap f := by
  have hsame : l.filter keep = (l.filter keep).filterMap f := by
    rw [List.filterMap_congr fun x hx ↦ h x (List.mem_filter.mp hx).1 (List.mem_filter.mp hx).2]
    exact List.filterMap_some.symm
  rw [hsame]
  exact List.filter_sublist.filterMap f

namespace Editor

/-- Reverting leaves of the bodies what `release` says, except for empty lines at the end of a text
that ends without a newline. -/
theorem filter_bodies_revert (editor : Editor) (t : Text) :
    (bodies (editor.revert t)).filter (· ≠ []) =
      ((bodies t).filterMap editor.markers.release).filter (· ≠ []) := by
  have hrows : ∀ row ∈ bodies t, '\n' ∉ row := fun row ↦ newline_not_mem_of_mem_bodies
  have hleft : ∀ row ∈ (bodies t).filterMap editor.markers.release, '\n' ∉ row := by
    intro row hrow
    obtain ⟨body, hbody, hrel⟩ := List.mem_filterMap.mp hrow
    exact Markers.newline_not_mem_release (hrows body hbody) hrel
  by_cases hstart : AtLineStart t
  · have ht : unlines (bodies t) = t := by rw [unlines_bodies, close_of_atLineStart hstart]
    have hrevert := editor.revert_unlines hrows
    rw [ht] at hrevert
    rw [hrevert]
    exact filter_bodies_assemble true hleft
  · obtain ⟨front, last, hbodies, ht, hne⟩ := exists_open_last hstart
    rw [hbodies, List.filterMap_append] at hleft
    rw [hbodies] at hrows ⊢
    have hfront : ∀ row ∈ front, '\n' ∉ row := fun row hrow ↦ hrows row (by simp [hrow])
    have hrevert := editor.revert_unlines_append hfront (hrows last (by simp)) hne
    -- the last line leaves a line, an empty one or nothing
    have hlast : ∀ row ∈ bodies ((editor.markers.release last).getD []), '\n' ∉ row :=
      fun row ↦ newline_not_mem_of_mem_bodies
    rw [← ht] at hrevert
    rw [hrevert, filter_bodies_assemble false, List.filterMap_append, List.filter_append,
      List.filter_append]
    · congr 1
      cases hrel : editor.markers.release last with
      | none => simp [hrel]
      | some left =>
          by_cases hnil : left = []
          · simp [hrel, hnil]
          · have hbody := hleft left (by simp [hrel])
            simp [hrel, bodies_body hbody hnil]
    · exact List.forall_mem_append.mpr ⟨fun row hrow ↦ hleft row (by simp [hrow]), hlast⟩

end Editor

namespace Markers

/-- The two markers. -/
def both (markers : Markers) : List Text :=
  [markers.insert, markers.delete]

variable {markers : Markers}

/-- A line is marked when one of the markers begins it. -/
theorem marks_iff {line : Text} :
    markers.Marks line ↔ ∃ marker ∈ markers.both, marker <+: line := by
  simp [Marks, both]

namespace Sound

variable (h : markers.Sound)

include h

/-- A marker is a body of its own. -/
theorem both_spec {marker : Text} (hmarker : marker ∈ markers.both) :
    marker ≠ [] ∧ '\n' ∉ marker := by
  simp only [both, List.mem_cons, List.not_mem_nil, or_false] at hmarker
  rcases hmarker with rfl | rfl
  · exact ⟨h.insert_ne_nil, h.newline_not_mem_insert⟩
  · exact ⟨h.delete_ne_nil, h.newline_not_mem_delete⟩

/-- A marked line is not left as it is. -/
theorem release_ne_self {line : Text} (hline : markers.Marks line) :
    markers.release line ≠ some line := by
  rcases hline with ⟨rest, rfl⟩ | ⟨rest, rfl⟩
  · rw [release_insert]
    exact Option.some_ne_none _ ∘ Eq.symm
  · rw [h.release_delete]
    intro hsame
    exact h.delete_ne_nil (List.self_eq_append_left.mp (Option.some.inj hsame))

end Sound

end Markers

namespace Style

variable {style : Style}

/-- No marker of a namespace begins a marker of another one. -/
def Isolates (style : Style) : Prop :=
  ∀ a b : Namespace, a ≠ b →
    ∀ marker ∈ (style.markers a).both, ∀ other ∈ (style.markers b).both, ¬ marker <+: other

/-- Reverting keeps the lines that begin with a marker of another namespace, in their order. Only
the newline at the end of the text is left out of account. -/
def Spares (style : Style) : Prop :=
  ∀ editor : Editor, editor.style = style → ∀ other : Namespace, other ≠ editor.owner →
    ∀ t : Text, (lines (close t)).filter (fun line ↦ (style.markers other).Marks line) <+
      lines (close (editor.revert t))

/-! ## Isolation and reverting -/

/-- In a style that isolates, no line has markers of two namespaces. -/
theorem Isolates.not_marks (h : style.Isolates) {a b : Namespace} (hne : a ≠ b) {line : Text}
    (hb : (style.markers b).Marks line) : ¬ (style.markers a).Marks line := by
  intro ha
  obtain ⟨marker, hmarker, hpre⟩ := Markers.marks_iff.mp ha
  obtain ⟨other, hother, hpre'⟩ := Markers.marks_iff.mp hb
  -- of two markers that begin one line, the shorter one begins the other
  rcases List.prefix_or_prefix_of_prefix hpre hpre' with hshort | hshort
  · exact h a b hne marker hmarker other hother hshort
  · exact h b a hne.symm other hother marker hmarker hshort

/-- In a style that isolates, reverting keeps the lines of the other namespaces. -/
theorem Isolates.spares (h : style.Isolates) : style.Spares := by
  rintro editor rfl other hother t
  have hsound := markers_sound editor.usable other
  have hkept : ∀ body ∈ bodies t, decide ((editor.style.markers other).Marks body) = true →
      editor.markers.release body = some body := by
    intro body _ hmarks
    exact Markers.release_of_not_marks (h.not_marks hother.symm (of_decide_eq_true hmarks))
  have hsome : ∀ body ∈ (bodies t).filter fun body ↦ (editor.style.markers other).Marks body,
      decide (body ≠ []) = true := by
    intro body hbody
    obtain ⟨-, hmarks⟩ := List.mem_filter.mp hbody
    obtain ⟨marker, hmarker, hpre⟩ := Markers.marks_iff.mp (of_decide_eq_true hmarks)
    have hne := (hsound.both_spec hmarker).1
    exact decide_eq_true (hpre.ne_nil hne)
  have hbodies : (bodies t).filter (fun body ↦ (editor.style.markers other).Marks body) <+
      bodies (editor.revert t) := by
    calc (bodies t).filter (fun body ↦ (editor.style.markers other).Marks body)
        = ((bodies t).filter fun body ↦ (editor.style.markers other).Marks body).filter
            (· ≠ []) := (List.filter_eq_self.mpr hsome).symm
      _ <+ ((bodies t).filterMap editor.markers.release).filter (· ≠ []) :=
          (filter_sublist_filterMap hkept).filter _
      _ = (bodies (editor.revert t)).filter (· ≠ []) := (editor.filter_bodies_revert t).symm
      _ <+ bodies (editor.revert t) := List.filter_sublist
  rw [lines_close, lines_close, List.filter_map]
  refine List.Sublist.map _ ?_
  simpa only [Function.comp_def, hsound.marks_line_iff] using hbodies

/-- A style in which reverting keeps the lines of the other namespaces isolates. -/
theorem Spares.isolates (h : style.Spares) (hstyle : style.fault? = none) : style.Isolates := by
  intro a b hne marker hmarker other hother hpre
  let editor : Editor := { owner := a, style, usable := hstyle }
  obtain ⟨hnil, hline⟩ := (markers_sound hstyle b).both_spec hother
  -- the longer marker alone is a text whose only line has to be kept
  have hmarks : (style.markers b).Marks (other ++ ['\n']) :=
    Markers.marks_iff.mpr ⟨other, hother, List.prefix_append _ _⟩
  have hown : other ++ ['\n'] ∈ lines (close other) := by
    rw [lines_close, bodies_body hline hnil]
    exact List.mem_singleton_self _
  have hkept := (h editor rfl b hne.symm other).subset
    (List.mem_filter.mpr ⟨hown, decide_eq_true hmarks⟩)
  rw [lines_close] at hkept
  obtain ⟨body, hbody, hsame⟩ := List.mem_map.mp hkept
  rw [List.append_cancel_right hsame] at hbody
  have hmem : other ∈ (bodies (editor.revert other)).filter (· ≠ []) :=
    List.mem_filter.mpr ⟨hbody, decide_eq_true hnil⟩
  rw [editor.filter_bodies_revert, bodies_body hline hnil] at hmem
  have hleft : editor.markers.release other = some other := by
    simpa using (List.mem_filter.mp hmem).1
  exact editor.markers_sound.release_ne_self
    (Markers.marks_iff.mpr ⟨marker, hmarker, hpre⟩) hleft

/-! ## Which styles isolate -/

/-- When every character behind the placeholder can stand in a namespace, one namespace can be
extended to another in such a way that its marker is extended too. -/
theorem exists_prefix_of_not_terminates {kind : MarkerKind} {template : Text}
    (hfault : templateFault? kind template = none) (h : ¬ Terminates template) :
    ∃ a b : Namespace, a ≠ b ∧ fill template a.name <+: fill template b.name := by
  obtain ⟨before, after, hs, -, -⟩ := exists_parts hfault
  have hlegal : ∀ c ∈ after, isNamespaceChar c = true := by
    intro c hc
    by_contra hillegal
    exact h ⟨before, after, hs, c, hc, Bool.eq_false_iff.mpr hillegal⟩
  let a : Namespace := ⟨['a'], by simp, List.forall_mem_singleton.mpr rfl⟩
  let b : Namespace := ⟨'a' :: (after ++ ['a']), by simp, by
    intro c hc
    simp only [List.mem_cons, List.mem_append, List.not_mem_nil, or_false] at hc
    rcases hc with rfl | hc | rfl
    · rfl
    · exact hlegal c hc
    · rfl⟩
  refine ⟨a, b, ?_, ?_⟩
  · intro heq
    have hname := congrArg Namespace.name heq
    simp [a, b] at hname
  · simp only [fill, hs]
    exact ⟨'a' :: after, by simp [a, b]⟩

/-- A style isolates when the end of a namespace can be told in both templates. -/
theorem Terminated.isolates (h : style.Terminated) (hstyle : style.fault? = none) :
    style.Isolates := by
  intro a b hne marker hmarker other hother hpre
  have hmarks : (style.markers a).Marks other := Markers.marks_iff.mpr ⟨marker, hmarker, hpre⟩
  simp only [Markers.both, List.mem_cons, List.not_mem_nil, or_false] at hother
  rw [← List.append_nil other] at hmarks
  rcases hother with rfl | rfl
  · exact h.not_marks_insert hstyle hne hmarks
  · exact h.not_marks_delete hstyle hne hmarks

/-- Only styles in which the end of a namespace can be told in both templates isolate. -/
theorem Isolates.terminated (h : style.Isolates) (hstyle : style.fault? = none) :
    style.Terminated := by
  obtain ⟨hinsert, hdelete, -⟩ := fault?_eq_none_iff.mp hstyle
  constructor
  · by_contra hopen
    obtain ⟨a, b, hne, hpre⟩ := exists_prefix_of_not_terminates hinsert hopen
    exact h a b hne _ List.mem_cons_self _ List.mem_cons_self hpre
  · by_contra hopen
    obtain ⟨a, b, hne, hpre⟩ := exists_prefix_of_not_terminates hdelete hopen
    have hmem : ∀ owner, fill style.delete owner.name ∈ (style.markers owner).both :=
      fun owner ↦ List.mem_cons_of_mem _ List.mem_cons_self
    exact h a b hne _ (hmem a) _ (hmem b) hpre

/-- A usable style isolates namespaces exactly when in both templates a character that cannot stand
in a namespace comes behind the placeholder, and these are also the styles in which reverting keeps
the lines of all other namespaces. -/
theorem isolation_iff (hstyle : style.fault? = none) :
    (style.Isolates ↔ style.Terminated) ∧ (style.Spares ↔ style.Terminated) := by
  have hisolates : style.Isolates ↔ style.Terminated :=
    ⟨fun h ↦ h.terminated hstyle, fun h ↦ h.isolates hstyle⟩
  have hspares : style.Spares ↔ style.Isolates :=
    ⟨fun h ↦ h.isolates hstyle, fun h ↦ h.spares⟩
  exact ⟨hisolates, hspares.trans hisolates⟩

/-- Letters may follow the placeholder, as long as something after them ends the name. -/
theorem isolation_iff_lettered :
    let style : Style :=
      { insert := "<in-".toList ++ placeholder ++ "-in>".toList
        delete := "<out-".toList ++ placeholder ++ "-out>".toList }
    style.fault? = none ∧ style.Terminated ∧ style.Isolates ∧ style.Spares := by
  intro style
  have hstyle : style.fault? = none := by decide
  have hterminated : style.Terminated := {
    insert := ⟨"<in-".toList, "-in>".toList, by decide, '>', by decide, by decide⟩
    delete := ⟨"<out-".toList, "-out>".toList, by decide, '>', by decide, by decide⟩ }
  obtain ⟨hisolates, hspares⟩ := isolation_iff hstyle
  exact ⟨hstyle, hterminated, hisolates.mpr hterminated, hspares.mpr hterminated⟩

/-- A style whose templates end with the placeholder is usable. In it the namespace `app` deletes
the inserted lines of the namespace `app-test` when it reverts. -/
theorem not_isolation_open_ended :
    let style : Style :=
      { insert := "# + ".toList ++ placeholder, delete := "# - ".toList ++ placeholder }
    let app : Editor :=
      { owner := ⟨"app".toList, by simp, List.all_eq_true.mp rfl⟩, style, usable := by decide }
    let test : Namespace := ⟨"app-test".toList, by simp, List.all_eq_true.mp rfl⟩
    let line := "# + app-test y".toList
    style.fault? = none ∧ app.owner ≠ test ∧
      app.markers.insert <+: (style.markers test).insert ∧ (style.markers test).Marks line ∧
      app.revert (line ++ "\nx\n".toList) = "x\n".toList ∧ ¬ style.Isolates ∧ ¬ style.Spares := by
  intro style app test line
  have hne : app.owner ≠ test := by decide
  have hpre : app.markers.insert <+: (style.markers test).insert := by decide
  have hmixed : ¬ style.Isolates := fun h ↦
    h app.owner test hne _ List.mem_cons_self _ List.mem_cons_self hpre
  have hrevert : app.revert (line ++ "\nx\n".toList) = "x\n".toList := by decide +kernel
  exact ⟨app.usable, hne, hpre, by decide, hrevert, hmixed, fun h ↦ hmixed (h.isolates app.usable)⟩

end Style

end MarkedEdits
