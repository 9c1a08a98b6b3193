import MarkedEdits.Proofs.Marker
import MarkedEdits.Proofs.Text.Search
import MarkedEdits.Style

/-!
# Markers of a usable style

The markers of a usable style begin with their stems, hold no newline, and no text begins with
stems of both kinds (`Style.markers_sound`). So a line belongs to one kind of marker at most.

When in both templates a character that no namespace can hold stands behind the placeholder, a line
belongs to one namespace at most as well (`Style.Terminates.owner_eq`). The built-in styles are of
this sort.
-/

namespace MarkedEdits

/-- What the markers of a usable style are like. -/
structure Markers.Sound (markers : Markers) : Prop where
  stem_begins_insert : markers.insertStem <+: markers.insert
  stem_begins_delete : markers.deleteStem <+: markers.delete
  insertStem_ne_nil : markers.insertStem ≠ []
  deleteStem_ne_nil : markers.deleteStem ≠ []
  newline_not_mem_insert : '\n' ∉ markers.insert
  newline_not_mem_delete : '\n' ∉ markers.delete
  stems_apart : ∀ t, markers.insertStem <+: t → ¬ markers.deleteStem <+: t

/-- The line begins with one of the markers. -/
def Markers.Marks (markers : Markers) (line : Text) : Prop :=
  markers.insert <+: line ∨ markers.delete <+: line

/-- Whether a line is marked is decided by its first characters. -/
instance (markers : Markers) (line : Text) : Decidable (markers.Marks line) :=
  inferInstanceAs (Decidable (_ ∨ _))

namespace Markers.Sound

variable {markers : Markers}

/-- The insert marker is not empty. -/
theorem insert_ne_nil (h : markers.Sound) : markers.insert ≠ [] := by
  intro hnil
  have := h.stem_begins_insert
  rw [hnil] at this
  exact h.insertStem_ne_nil (List.prefix_nil.mp this)

/-- The delete marker is not empty. -/
theorem delete_ne_nil (h : markers.Sound) : markers.delete ≠ [] := by
  intro hnil
  have := h.stem_begins_delete
  rw [hnil] at this
  exact h.deleteStem_ne_nil (List.prefix_nil.mp this)

/-- A line that begins with the delete marker does not begin with the insert marker. -/
theorem not_insert_prefix_delete (h : markers.Sound) (line : Text) :
    ¬ markers.insert <+: markers.delete ++ line := by
  intro hpre
  refine h.stems_apart (markers.delete ++ line) (h.stem_begins_insert.trans hpre) ?_
  exact h.stem_begins_delete.trans (List.prefix_append _ _)

/-- A line that begins with the insert marker does not begin with the delete marker. -/
theorem not_delete_prefix_insert (h : markers.Sound) (line : Text) :
    ¬ markers.delete <+: markers.insert ++ line := by
  intro hpre
  refine h.stems_apart (markers.insert ++ line) ?_ (h.stem_begins_delete.trans hpre)
  exact h.stem_begins_insert.trans (List.prefix_append _ _)

end Markers.Sound

namespace Text

/-- A needle that occurs can be split off. -/
theorem splitFirst?_eq_none_iff {needle t : Text} :
    splitFirst? needle t = none ↔ occurrences needle t = 0 := by
  induction t with
  | nil =>
      simp only [splitFirst?, occurrences]
      split <;> simp
  | cons c t ih =>
      simp only [splitFirst?, occurrences]
      split <;> simp [ih]

end Text

namespace Style

/-- A sound template is a front, the placeholder and a rest, without newlines. -/
theorem exists_parts {kind : MarkerKind} {template : Text}
    (h : templateFault? kind template = none) :
    ∃ before after, Text.splitFirst? placeholder template = some (before, after) ∧
      '\n' ∉ before ∧ '\n' ∉ after := by
  simp only [templateFault?] at h
  split at h
  · cases h
  · next hcount =>
      split at h
      · cases h
      · next hline =>
          have hne : Text.splitFirst? placeholder template ≠ none := by
            rw [Ne, Text.splitFirst?_eq_none_iff]
            omega
          obtain ⟨⟨before, after⟩, hs⟩ := Option.ne_none_iff_exists'.mp hne
          rw [Text.eq_of_splitFirst? hs] at hline
          simp only [List.mem_append, not_or] at hline
          exact ⟨before, after, hs, hline.1.1, hline.2⟩

/-- A namespace holds no newline. -/
theorem newline_not_mem_name (owner : Namespace) : '\n' ∉ owner.name := by
  intro h
  have := owner.name_legal '\n' h
  revert this
  decide

/-- The stem begins the filled template. -/
theorem stem_prefix_fill (template name : Text) : stem template <+: fill template name := by
  unfold stem fill
  split
  · simp [List.append_assoc]
  · exact List.prefix_refl _

/-- A sound template is filled without newlines. -/
theorem newline_not_mem_fill {kind : MarkerKind} {template : Text}
    (h : templateFault? kind template = none) (owner : Namespace) :
    '\n' ∉ fill template owner.name := by
  obtain ⟨before, after, hs, hbefore, hafter⟩ := exists_parts h
  simp [fill, hs, hbefore, hafter, newline_not_mem_name owner]

/-- Stems that do not hold each other begin no common text. -/
theorem stems_apart_of_stemsFault? {insertStem deleteStem : Text}
    (h : stemsFault? insertStem deleteStem = none) {t : Text} (hinsert : insertStem <+: t) :
    ¬ deleteStem <+: t := by
  intro hdelete
  unfold stemsFault? at h
  split at h
  · cases h
  · split at h
    · cases h
    · next hcontains =>
        simp only [Bool.or_eq_true, Text.contains_iff, not_or] at hcontains
        rcases List.prefix_or_prefix_of_prefix hinsert hdelete with hpre | hpre
        · exact hcontains.2 hpre.isInfix
        · exact hcontains.1 hpre.isInfix

/-- The markers of a usable style are sound. -/
theorem markers_sound {style : Style} (h : style.fault? = none) (owner : Namespace) :
    (style.markers owner).Sound := by
  obtain ⟨hinsert, hdelete, hstems⟩ := fault?_eq_none_iff.mp h
  obtain ⟨hinsertStem, hdeleteStem⟩ := ne_nil_of_stemsFault? hstems
  exact {
    stem_begins_insert := stem_prefix_fill style.insert owner.name
    stem_begins_delete := stem_prefix_fill style.delete owner.name
    insertStem_ne_nil := hinsertStem
    deleteStem_ne_nil := hdeleteStem
    newline_not_mem_insert := newline_not_mem_fill hinsert owner
    newline_not_mem_delete := newline_not_mem_fill hdelete owner
    stems_apart := fun _ hpre ↦ stems_apart_of_stemsFault? hstems hpre }

/-! ## Texts without stems -/

/-- The stems of both kinds of markers. All namespaces share them. -/
def stems (style : Style) : List Text :=
  [stem style.insert, stem style.delete]

/-- No stem occurs in the text. -/
def StemFree (style : Style) (t : Text) : Prop :=
  ∀ stem ∈ style.stems, ¬ stem <:+: t

/-- Whether a text holds a stem is decided by searching for both. -/
instance (style : Style) (t : Text) : Decidable (style.StemFree t) :=
  decidable_of_iff (∀ stem ∈ style.stems, ¬ Text.contains stem t = true)
    (forall₂_congr fun _ _ ↦ not_congr Text.contains_iff)

/-- A part of a text without stems has none either. -/
theorem StemFree.of_isInfix {style : Style} {part t : Text} (h : style.StemFree t)
    (hpart : part <:+: t) : style.StemFree part :=
  fun stem hstem hin ↦ h stem hstem (hin.trans hpart)

/-- The lines of a text without stems have none either. -/
theorem StemFree.of_mem_bodies {style : Style} {t body : Text} (h : style.StemFree t)
    (hbody : body ∈ Text.bodies t) : style.StemFree body := by
  obtain ⟨front, rest, rfl, -⟩ := Text.exists_of_mem_bodies hbody
  exact h.of_isInfix ⟨front, rest, rfl⟩

/-- A stem of a usable style is not empty and holds no newline. -/
theorem stem_spec {style : Style} (h : style.fault? = none) {stem : Text}
    (hstem : stem ∈ style.stems) : stem ≠ [] ∧ '\n' ∉ stem := by
  obtain ⟨hinsert, hdelete, hstems⟩ := fault?_eq_none_iff.mp h
  obtain ⟨hinsertStem, hdeleteStem⟩ := ne_nil_of_stemsFault? hstems
  have hline : ∀ {kind : MarkerKind} {template : Text}, templateFault? kind template = none →
      '\n' ∉ Style.stem template := by
    intro kind template htemplate
    obtain ⟨before, after, hs, hbefore, -⟩ := exists_parts htemplate
    simpa [Style.stem, hs] using hbefore
  simp only [stems, List.mem_cons, List.not_mem_nil, or_false] at hstem
  rcases hstem with rfl | rfl
  · exact ⟨hinsertStem, hline hinsert⟩
  · exact ⟨hdeleteStem, hline hdelete⟩

/-- A line without stems has no marker. -/
theorem StemFree.not_marks {style : Style} {line : Text} (h : style.StemFree line)
    (owner : Namespace) : ¬ (style.markers owner).Marks line := by
  rintro (hpre | hpre)
  · refine h (stem style.insert) (by simp [stems]) ?_
    exact ((stem_prefix_fill style.insert owner.name).trans hpre).isInfix
  · refine h (stem style.delete) (by simp [stems]) ?_
    exact ((stem_prefix_fill style.delete owner.name).trans hpre).isInfix

/-! ## Markers of different namespaces -/

/-- The character after the placeholder of the template cannot stand in a namespace. -/
def Delimits (template : Text) : Prop :=
  ∃ before c after, Text.splitFirst? placeholder template = some (before, c :: after) ∧
    isNamespaceChar c = false

/-- In both templates the end of a namespace can be told. -/
structure Delimited (style : Style) : Prop where
  insert : Delimits style.insert
  delete : Delimits style.delete

/-- In the built-in styles a blank follows the namespace. -/
theorem delimited_of_built_in {style : Style} (h : style = .block ∨ style = .hash) :
    style.Delimited := by
  rcases h with rfl | rfl
  · exact {
      insert := ⟨"/* + PL:".toList, ' ', "+ */ ".toList, by decide, by decide⟩
      delete := ⟨"/* - PL:".toList, ' ', "- /* ".toList, by decide, by decide⟩ }
  · exact {
      insert := ⟨"# + PL:".toList, ' ', "+ # ".toList, by decide, by decide⟩
      delete := ⟨"# - PL:".toList, ' ', "- # ".toList, by decide, by decide⟩ }

/-- What follows the placeholder of the template holds a character that cannot stand in a
namespace. -/
def Terminates (template : Text) : Prop :=
  ∃ before after, Text.splitFirst? placeholder template = some (before, after) ∧
    ∃ c ∈ after, isNamespaceChar c = false

/-- Both templates hold such a character. -/
structure Terminated (style : Style) : Prop where
  insert : Terminates style.insert
  delete : Terminates style.delete

/-- A delimiter right after the placeholder is such a character. -/
theorem Delimited.terminated {style : Style} (h : style.Delimited) : style.Terminated := by
  have hends : ∀ {template : Text}, Delimits template → Terminates template := by
    rintro template ⟨before, c, after, hs, hc⟩
    exact ⟨before, c :: after, hs, c, List.mem_cons_self, hc⟩
  exact ⟨hends h.insert, hends h.delete⟩

/-- Up to the first character that cannot stand in a namespace, a text does not depend on what
follows. -/
theorem takeWhile_name_append {after : Text} (h : ∃ c ∈ after, isNamespaceChar c = false)
    (rest : Text) :
    (after ++ rest).takeWhile isNamespaceChar = after.takeWhile isNamespaceChar := by
  obtain ⟨c, hc, hillegal⟩ := h
  rw [List.takeWhile_append, if_neg]
  intro hlength
  have hall : (after.takeWhile isNamespaceChar).all isNamespaceChar = true := List.all_takeWhile
  rw [(List.takeWhile_prefix isNamespaceChar).eq_of_length hlength] at hall
  have hlegal := List.all_eq_true.mp hall c hc
  rw [hillegal] at hlegal
  cases hlegal

/-- Where the end of a namespace can be told, a marker determines its namespace. -/
theorem Terminates.owner_eq {template : Text} (h : Terminates template) {a b : Namespace}
    {line : Text} (hpre : fill template a.name <+: fill template b.name ++ line) : a = b := by
  obtain ⟨before, after, hs, hends⟩ := h
  simp only [fill, hs] at hpre
  obtain ⟨rest, hrest⟩ := hpre
  simp only [List.append_assoc, List.append_cancel_left_eq] at hrest
  -- both sides begin with a name that is followed by the same legal characters and then an illegal
  have hname := congrArg (List.takeWhile isNamespaceChar) hrest
  rw [List.takeWhile_append_of_pos a.name_legal, List.takeWhile_append_of_pos b.name_legal,
    takeWhile_name_append hends, takeWhile_name_append hends] at hname
  have heq := List.append_cancel_right hname
  cases a
  cases b
  cases heq
  rfl

variable {style : Style} {a b : Namespace} {line : Text}

/-- A line that begins with the insert marker of a namespace has no marker of another. -/
theorem Terminated.not_marks_insert (h : style.Terminated) (hstyle : style.fault? = none)
    (hne : a ≠ b) : ¬ (style.markers a).Marks ((style.markers b).insert ++ line) := by
  rintro (hpre | hpre)
  · exact hne (h.insert.owner_eq hpre)
  · have hb := markers_sound hstyle b
    have ha := markers_sound hstyle a
    exact ha.stems_apart _ (hb.stem_begins_insert.trans (List.prefix_append _ _))
      (ha.stem_begins_delete.trans hpre)

/-- A line that begins with the delete marker of a namespace has no marker of another. -/
theorem Terminated.not_marks_delete (h : style.Terminated) (hstyle : style.fault? = none)
    (hne : a ≠ b) : ¬ (style.markers a).Marks ((style.markers b).delete ++ line) := by
  rintro (hpre | hpre)
  · have hb := markers_sound hstyle b
    have ha := markers_sound hstyle a
    exact ha.stems_apart _ (ha.stem_begins_insert.trans hpre)
      (hb.stem_begins_delete.trans (List.prefix_append _ _))
  · exact hne (h.delete.owner_eq hpre)

end Style

end MarkedEdits
