import MarkedEdits.Proofs.Codec
import MarkedEdits.Proofs.Scope.Sightings

/-!
# Lines of the two kinds

A revert deletes the inserted lines and enables the disabled ones, so a disabled line that is taken
for an inserted one is lost. In a usable style neither stem occurs in the other, so no text begins
with an insert marker and with a delete marker, whatever their namespaces are. Read
`Style.kinds_apart` first: stripping the inserted lines of one namespace keeps the disabled lines of
every namespace, and the guards of every editor match the lines of both kinds.
-/

namespace MarkedEdits

open Text Marker

namespace Markers

/-- The marker of the kind. -/
def ofKind (markers : Markers) : MarkerKind → Text
  | .insert => markers.insert
  | .delete => markers.delete

/-- The stem of the kind. -/
def stemOf (markers : Markers) : MarkerKind → Text
  | .insert => markers.insertStem
  | .delete => markers.deleteStem

/-- All namespaces share the stems of a style. -/
theorem stemOf_markers (style : Style) (a b : Namespace) (kind : MarkerKind) :
    (style.markers a).stemOf kind = (style.markers b).stemOf kind := by
  cases kind <;> rfl

/-- A marker begins with the stem of its kind. -/
theorem Sound.stemOf_prefix {markers : Markers} (h : markers.Sound) (kind : MarkerKind) :
    markers.stemOf kind <+: markers.ofKind kind := by
  cases kind with
  | insert => exact h.stem_begins_insert
  | delete => exact h.stem_begins_delete

/-- A marker is not empty and holds no newline. -/
theorem Sound.ofKind_spec {markers : Markers} (h : markers.Sound) (kind : MarkerKind) :
    markers.ofKind kind ≠ [] ∧ '\n' ∉ markers.ofKind kind := by
  cases kind with
  | insert => exact ⟨h.insert_ne_nil, h.newline_not_mem_insert⟩
  | delete => exact ⟨h.delete_ne_nil, h.newline_not_mem_delete⟩

end Markers

/-! ## Stripping lines of one kind -/

namespace Marker

variable {marker other : Text} (hne : marker ≠ []) (hmarker : '\n' ∉ marker)

include hne hmarker

/-- A text can be stripped in two parts, the second of which begins on a new line. -/
theorem strip_append {front : Text} (h : AtLineStart front) (rest : Text) :
    strip marker (front ++ rest) = strip marker front ++ strip marker rest := by
  simp only [strip_eq_filter hne hmarker, lines_append h, List.filter_append, List.flatten_append]

variable (hapart : ∀ t, marker <+: t → ¬ other <+: t)

include hapart

/-- Nothing of a commented text is stripped when no text begins with both markers. -/
theorem strip_comment_of_apart (hother : '\n' ∉ other) (t : Text) :
    strip marker (comment other t) = comment other t := by
  have hkept : ∀ line ∈ lines (comment other t), decide (¬ marker <+: line) = true :=
    fun line hline ↦ decide_eq_true fun hpre ↦
      hapart line hpre (prefix_of_mem_lines_comment hother hline)
  rw [strip_eq_filter hne hmarker, List.filter_eq_self.mpr hkept, flatten_lines]

/-- Stripping keeps the lines that begin with the other marker, in their order. -/
theorem filter_lines_strip (u : Text) :
    (lines (strip marker u)).filter (other <+: ·) = (lines u).filter (other <+: ·) := by
  rw [strip_eq_filter hne hmarker, lines_flatten_filter, List.filter_filter]
  refine List.filter_congr fun line _ ↦ ?_
  by_cases hpre : other <+: line
  · have hnot : ¬ marker <+: line := fun h ↦ hapart line h hpre
    simp [hpre, hnot]
  · simp [hpre]

end Marker

/-! ## Guards -/

namespace Editor

variable {editor : Editor} {u : Text}

/-- A line that holds the stem of a kind is matched by the guard for that kind. -/
theorem exists_guard_match (kind : MarkerKind) {p : PlacedLine} (hp : p ∈ placed u)
    (hpart : editor.markers.stemOf kind <:+: p.line) :
    ∃ guard ∈ editor.guards, guard.anchors = [editor.markers.stemOf kind] ∧
      ⟨p.start, p.stop, p.line⟩ ∈ Plan.matchesOf u guard := by
  obtain ⟨hne, hline, hguard⟩ : ∃ hne : editor.markers.stemOf kind ≠ [],
      '\n' ∉ editor.markers.stemOf kind ∧ guardFor _ hne ∈ editor.guards := by
    cases kind with
    | insert => exact ⟨editor.stems_ne_nil.1, editor.newline_not_mem_stems.1, List.mem_cons_self⟩
    | delete =>
        exact ⟨editor.stems_ne_nil.2, editor.newline_not_mem_stems.2,
          List.mem_cons_of_mem _ List.mem_cons_self⟩
  obtain ⟨found, hfound, hstart, hstop⟩ :=
    exists_match_of_placed hne hline hp (contains_iff.mpr hpart)
  have htext : found.text = p.line := by
    rw [Plan.text_of_mem_matchesOf hfound, hstart, hstop, slice_placed hp]
  refine ⟨_, hguard, rfl, ?_⟩
  rwa [← hstart, ← hstop, ← htext]

end Editor

namespace Style

/-- In a usable style the two kinds of lines cannot be taken for each other, whatever namespaces
they belong to. The markers are not empty, hold no newline and begin with the stems of their kinds,
and no text begins with an insert marker and a delete marker. So stripping the inserted lines of a
namespace keeps what has been commented with a delete marker, and all lines that begin with one.
What has been commented with any of the markers is lines that begin with a stem, and wherever such a
line stands, ended or not, a guard of every editor of the style matches it. -/
theorem kinds_apart {style : Style} (hstyle : style.fault? = none) (a b : Namespace) :
    let insert := (style.markers a).insert
    let delete := (style.markers b).delete
    (∀ owner ∈ [a, b], ∀ kind,
      let marker := (style.markers owner).ofKind kind
      marker ≠ [] ∧ '\n' ∉ marker ∧ (style.markers owner).stemOf kind <+: marker) ∧
    (∀ t, ¬ (insert <+: t ∧ delete <+: t)) ∧
    (∀ front t rest, AtLineStart front →
      strip insert (front ++ comment delete t ++ rest) =
        strip insert front ++ comment delete t ++ strip insert rest) ∧
    (∀ u, (lines (strip insert u)).filter (delete <+: ·) = (lines u).filter (delete <+: ·)) ∧
    ∀ owner ∈ [a, b], ∀ kind t,
      ∀ line ∈ lines (comment ((style.markers owner).ofKind kind) t),
        (style.markers owner).stemOf kind <+: line ∧
        ∀ editor : Editor, editor.style = style → ∀ u, ∀ p ∈ placed u, terminated p.line = line →
          ∃ guard ∈ editor.guards, guard.anchors = [(style.markers owner).stemOf kind] ∧
            ⟨p.start, p.stop, p.line⟩ ∈ Plan.matchesOf u guard := by
  intro insert delete
  have ha := markers_sound hstyle a
  have hb := markers_sound hstyle b
  have hapart : ∀ t, insert <+: t → ¬ delete <+: t := fun t hinsert hdelete ↦
    ha.stems_apart t (ha.stem_begins_insert.trans hinsert) (hb.stem_begins_delete.trans hdelete)
  refine ⟨fun owner _ kind ↦ ?_, fun t h ↦ hapart t h.1 h.2, fun front t rest hfront ↦ ?_,
    filter_lines_strip ha.insert_ne_nil ha.newline_not_mem_insert hapart,
    fun owner _ kind t line hline ↦ ?_⟩
  · have hsound := markers_sound hstyle owner
    obtain ⟨hne, hnewline⟩ := hsound.ofKind_spec kind
    exact ⟨hne, hnewline, hsound.stemOf_prefix kind⟩
  · have hsplit : ∀ {first : Text}, AtLineStart first → ∀ second : Text,
        strip insert (first ++ second) = strip insert first ++ strip insert second :=
      strip_append ha.insert_ne_nil ha.newline_not_mem_insert
    rw [hsplit (hfront.append (atLineStart_comment delete t)), hsplit hfront,
      strip_comment_of_apart ha.insert_ne_nil ha.newline_not_mem_insert hapart
        hb.newline_not_mem_delete]
  · have hsound := markers_sound hstyle owner
    have hnewline := (hsound.ofKind_spec kind).2
    have hstem := hsound.stemOf_prefix kind
    have hpre := hstem.trans (prefix_of_mem_lines_comment hnewline hline)
    refine ⟨hpre, fun editor heditor u p hp hended ↦ ?_⟩
    subst heditor
    -- the newline of the line is not a part of the stem
    have hpart : (editor.style.markers owner).stemOf kind <:+: p.line := by
      rw [← hended, terminated] at hpre
      split at hpre
      · exact hpre.isInfix
      · exact (infix_line_iff fun hmem ↦ hnewline (hstem.subset hmem)).mp hpre.isInfix
    rw [Markers.stemOf_markers editor.style owner editor.owner kind] at hpart ⊢
    exact Editor.exists_guard_match kind hp hpart

/-- In this style nothing ends the name, so stripping for `app` deletes an inserted line of
`app-test` as well. It keeps the disabled line, and the guards of a third namespace match that line
and the last one, which is not ended. -/
theorem kinds_apart_open_ended :
    let style : Style :=
      { insert := "+ ".toList ++ placeholder, delete := "- ".toList ++ placeholder }
    let app : Namespace := ⟨"app".toList, by simp, List.all_eq_true.mp rfl⟩
    let test : Namespace := ⟨"app-test".toList, by simp, List.all_eq_true.mp rfl⟩
    let u := "+ app x\n- app-test y\n+ app-test z".toList
    let third : Editor :=
      { owner := ⟨['t'], by simp, List.forall_mem_singleton.mpr rfl⟩, style, usable := by decide }
    style.fault? = none ∧
      strip (style.markers app).insert u = "- app-test y\n".toList ∧
      (lines (strip (style.markers app).insert u)).filter ((style.markers test).delete <+: ·) =
        ["- app-test y\n".toList] ∧
      (∃ guard ∈ third.guards, ⟨8, 21, "- app-test y\n".toList⟩ ∈ Plan.matchesOf u guard) ∧
      ∃ guard ∈ third.guards, ⟨21, 33, "+ app-test z".toList⟩ ∈ Plan.matchesOf u guard := by
  intro style app test u third
  have hstyle : style.fault? = none := by decide
  obtain ⟨-, -, -, hkept, hguards⟩ := kinds_apart hstyle app test
  have hstrip : strip (style.markers app).insert u = "- app-test y\n".toList := by decide +kernel
  have hlines : (lines u).filter ((style.markers test).delete <+: ·) =
      ["- app-test y\n".toList] := by
    decide +kernel
  have hmatch : ∀ kind t, ∀ p ∈ placed u,
      terminated p.line ∈ lines (comment ((style.markers test).ofKind kind) t) →
      ∃ guard ∈ third.guards, ⟨p.start, p.stop, p.line⟩ ∈ Plan.matchesOf u guard := by
    intro kind t p hp hline
    obtain ⟨-, hmatched⟩ := hguards test (by simp) kind t _ hline
    obtain ⟨guard, hguard, -, hfound⟩ := hmatched third rfl u p hp rfl
    exact ⟨guard, hguard, hfound⟩
  refine ⟨hstyle, hstrip, (hkept u).trans hlines, ?_, ?_⟩
  · exact hmatch .delete " y".toList ⟨8, "- app-test y\n".toList⟩ (by decide) (by decide)
  · exact hmatch .insert " z".toList ⟨21, "+ app-test z".toList⟩ (by decide) (by decide)

end Style

end MarkedEdits
