import MarkedEdits.Proofs.PatchSet.Steps
import MarkedEdits.Proofs.Session.History

/-!
# Applying a patch set and reverting it

When the files that a set aims at hold no line with a marker of the set, applying the set and then
reverting it leaves every file as it was, whatever became of the single files
(`PatchSet.apply_revert_restores`). Several names may lead to one file. Then a later step finds what
an earlier one has left there, but all that is left on the way reverts to the original text. That is
the invariant of both runs (`Undoable`). A file that the operating system does not let the first run
write is not written by the second one either.
-/

namespace MarkedEdits

/-- Every file is as in the original checkout, or it holds a text that reverts to the original one,
and the original one is unmarked. The files that must not be written are as in the original
checkout. -/
structure Undoable (editor : Editor) (original current : Checkout) : Prop where
  alike : current.Alike original
  file : ∀ path, current.fs.lookup path = original.fs.lookup path ∨
    ∃ t mode, current.fs.Holds path t mode ∧ original.fs.Holds path (editor.revert t) mode ∧
      editor.markers.Unmarked (editor.revert t)
  refused : ∀ path, original.fs.refusal? path ≠ none →
    current.fs.lookup path = original.fs.lookup path

namespace Undoable

variable {editor : Editor} {original current : Checkout} {path : Path} {name : Text}

/-- The original checkout is undoable. -/
theorem refl (editor : Editor) (original : Checkout) : Undoable editor original original :=
  ⟨.refl _, fun _ ↦ .inl rfl, fun _ _ ↦ rfl⟩

/-- If the original text is unmarked, the text that a file holds reverts to it. -/
theorem holds (h : Undoable editor original current)
    (hunmarked : ∀ first mode, original.fs.Holds path first mode → editor.markers.Unmarked first)
    {t : Text} {mode : Nat} (hholds : current.fs.Holds path t mode) :
    original.fs.Holds path (editor.revert t) mode ∧ editor.markers.Unmarked (editor.revert t) := by
  rcases h.file path with hsame | ⟨t', mode', hholds', horiginal, hfirst⟩
  · have horiginal : original.fs.Holds path t mode := hsame.symm.trans hholds
    rw [Editor.revert_of_unmarked (hunmarked t mode horiginal)]
    exact ⟨horiginal, hunmarked t mode horiginal⟩
  · obtain ⟨rfl, rfl⟩ := hholds.unique hholds'
    exact ⟨horiginal, hfirst⟩

/-- A step passes the invariant on if it makes only texts that revert to what the former ones revert
to. -/
theorem step {makes : Text → Text → Prop} {outcome : Except TargetError FileResult × Checkout}
    (h : Undoable editor original current) (heffect : Effect current name makes outcome)
    (hunmarked : ∀ path first mode, original.target? name = some path →
      original.fs.Holds path first mode → editor.markers.Unmarked first)
    (hmakes : ∀ former composed, editor.markers.Unmarked (editor.revert former) →
      makes former composed → editor.revert composed = editor.revert former) :
    Undoable editor original outcome.2 := by
  refine ⟨heffect.alike.trans h.alike, fun other ↦ ?_, fun path hrefusal ↦ ?_⟩
  · rcases heffect.leaves with kept | ⟨path, former, composed, target, made, rewritten⟩
    · rw [kept.fs]
      exact h.file other
    · by_cases hother : other = path
      · subst hother
        obtain ⟨mode, hformer, -⟩ := rewritten.file
        rw [h.alike.target?_eq] at target
        obtain ⟨horiginal, hfirst⟩ :=
          h.holds (fun first mode ↦ hunmarked other first mode target) hformer
        have hrevert := hmakes former composed hfirst made
        exact .inr ⟨composed, mode, rewritten.holds hformer, hrevert ▸ horiginal, hrevert ▸ hfirst⟩
      · have hlookup := rewritten.lookup_of_ne hother
        simp only [FileSystem.Holds, hlookup]
        exact h.file other
  · rw [heffect.lookup_of_refusal (h.alike.fs.refusal ▸ hrefusal)]
    exact h.refused path hrefusal

/-- Reverting the target of a name gives back the original file. -/
theorem lookup_of_revert {outcome : Except TargetError FileResult × Checkout}
    (h : Undoable editor original current)
    (heffect : Effect current name (fun former composed ↦ composed = editor.revert former) outcome)
    (hunmarked : ∀ first mode, original.fs.Holds path first mode → editor.markers.Unmarked first)
    (htarget : original.target? name = some path) :
    outcome.2.fs.lookup path = original.fs.lookup path := by
  rw [← h.alike.target?_eq] at htarget
  cases heffect with
  | failing error next kept unmade =>
      rw [kept.fs]
      rcases h.file path with hsame | ⟨t, mode, hholds, -⟩
      · exact hsame
      · exact absurd rfl (unmade path t _ mode htarget hholds)
  | unwritten path' former composed mode cause next target holds made new refusal kept =>
      obtain rfl : path' = path := Option.some.inj (target.symm.trans htarget)
      rw [kept.fs]
      refine h.refused path' ?_
      simp [← h.alike.fs.refusal, refusal]
  | composing path' former composed next target made allowed rewritten =>
      obtain rfl : path' = path := Option.some.inj (target.symm.trans htarget)
      obtain ⟨mode, hformer, -⟩ := rewritten.file
      obtain ⟨horiginal, -⟩ := h.holds hunmarked hformer
      rw [rewritten.holds hformer, horiginal, made]

end Undoable

namespace PatchSet

variable {set : PatchSet} {editor : Editor} {checkout : Checkout}

/-- The original texts of the files that the set aims at are unmarked. -/
def Fresh (set : PatchSet) (editor : Editor) (checkout : Checkout) : Prop :=
  ∀ name ∈ set.names, ∀ path first mode, checkout.target? name = some path →
    checkout.fs.Holds path first mode → editor.markers.Unmarked first

/-- The files that a run over names of the set has reached so far can be undone. -/
theorem undoable_forFiles (hfresh : set.Fresh editor checkout) {names : List Text}
    (hnames : ∀ name ∈ names, name ∈ set.names) :
    Undoable editor checkout
      (forFiles (set.applyFile editor false) checkout (set.grouped names)).2 := by
  refine forFiles_induction
    (motive := fun rest current ↦ (∀ group ∈ rest, group.1 ∈ set.names) ∧
      Undoable editor checkout current) ⟨forall_mem_grouped.mpr hnames, .refl _ _⟩ ?_ |>.2
  intro name indices rest current h
  obtain ⟨hnames, hundoable⟩ := h
  obtain ⟨hname, hrest⟩ := List.forall_mem_cons.mp hnames
  refine ⟨hrest, hundoable.step (applyFile_effect set editor current name indices)
    (hfresh name hname) ?_⟩
  intro former composed hfirst hcomposes
  obtain ⟨edits, -, heval⟩ := hcomposes
  exact Editor.revert_composed hfirst heval

/-- Applying a set can be undone, and keeps the files that it does not aim at. -/
theorem undoable_apply (hfresh : set.Fresh editor checkout) (heditor : set.editor? = .ok editor)
    (version : Option Text) :
    let applied := (set.apply checkout version false).2
    Undoable editor checkout applied ∧
      ∀ path, (∀ name ∈ set.names, checkout.target? name ≠ some path) →
        applied.fs.lookup path = checkout.fs.lookup path := by
  intro applied
  rcases apply_cases set checkout version with ⟨result, -, h⟩ | ⟨editor', heditor', h⟩
  · have happlied : applied = checkout := congrArg Prod.snd h
    rw [happlied]
    exact ⟨.refl editor checkout, fun _ _ ↦ rfl⟩
  · rw [heditor] at heditor'
    cases heditor'
    simp only [applied, h]
    refine ⟨undoable_forFiles hfresh fun _ ↦ id, fun path hpath ↦ ?_⟩
    exact lookup_forFiles (exists_effect_applyFile set editor) (forall_mem_grouped.mpr hpath)

/-- Reverting a set gives back the original file at every path, if other files than those that the
set aims at are as they were. -/
theorem lookup_revert (hfresh : set.Fresh editor checkout) (heditor : set.editor? = .ok editor)
    {applied : Checkout} (hundoable : Undoable editor checkout applied)
    (hspared : ∀ path, (∀ name ∈ set.names, checkout.target? name ≠ some path) →
      applied.fs.lookup path = checkout.fs.lookup path) (path : Path) :
    (set.revert applied false).2.fs.lookup path = checkout.fs.lookup path := by
  have hprepare : set.prepare = .ok editor := mapError_ok_iff.mpr heditor
  unfold revert
  simp only [hprepare, files_eq]
  -- what no further name leads to is as it was
  refine (forFiles_induction
    (motive := fun rest current ↦ (∀ group ∈ rest, group.1 ∈ set.names) ∧
      Undoable editor checkout current ∧
      ∀ path, (∀ group ∈ rest, checkout.target? group.1 ≠ some path) →
        current.fs.lookup path = checkout.fs.lookup path)
    ⟨forall_mem_grouped.mpr fun _ ↦ id, hundoable,
      fun path hpath ↦ hspared path (forall_mem_grouped.mp hpath)⟩ ?_).2.2 path (by simp)
  intro name indices rest current h
  obtain ⟨hnames, hundoable, hspared⟩ := h
  obtain ⟨hname, hrest⟩ := List.forall_mem_cons.mp hnames
  have heffect := revertFile_effect editor current name
  refine ⟨hrest, hundoable.step heffect (hfresh name hname) ?_, fun path hpath ↦ ?_⟩
  · intro former composed hfirst hmade
    rw [hmade]
    exact Editor.revert_of_unmarked hfirst
  · by_cases htarget : checkout.target? name = some path
    · exact hundoable.lookup_of_revert heffect
        (fun first mode ↦ hfresh name hname path first mode htarget) htarget
    · rw [heffect.lookup_of_ne (hundoable.alike.target?_eq name ▸ htarget)]
      exact hspared path (List.forall_mem_cons.mpr ⟨htarget, hpath⟩)

/-- Applying a patch set and then reverting it leaves every file as it was, provided that no file
that the set aims at holds a line with a marker of the set. So it does whichever files the operating
system does not let the runs write. -/
theorem apply_revert_restores (set : PatchSet) (checkout : Checkout) (version : Option Text)
    (hunmarked : ∀ editor, set.editor? = .ok editor → ∀ patch ∈ set.patches, ∀ t next,
      checkout.read patch.file = .ok (t, next) → editor.markers.Unmarked t) (path : Path) :
    let applied := (set.apply checkout version false).2
    (set.revert applied false).2.fs.lookup path = checkout.fs.lookup path := by
  intro applied
  cases heditor : set.editor? with
  | error cause =>
      -- without an editor neither run goes through the files
      have hprepare : set.prepare = .error (.invalidSet cause) := by
        unfold prepare
        rw [heditor]
        rfl
      have happlied : applied = checkout := by
        rcases apply_cases set checkout version with ⟨result, -, h⟩ | ⟨editor, heditor', -⟩
        · exact congrArg Prod.snd h
        · rw [heditor] at heditor'
          cases heditor'
      simp only [revert, hprepare, happlied]
  | ok editor =>
      have hfresh : set.Fresh editor checkout := by
        intro name hname path first mode htarget hholds
        obtain ⟨patch, hpatch, rfl⟩ := mem_names_iff.mp hname
        exact hunmarked editor heditor patch hpatch first _
          (Checkout.read_ok_iff.mpr ⟨path, mode, htarget, hholds, rfl⟩)
      obtain ⟨hundoable, hspared⟩ := undoable_apply hfresh heditor version
      exact lookup_revert hfresh heditor hundoable hspared path

/-- A line is inserted into a file that a link leads to, and taken away again. -/
theorem apply_revert_restores_link :
    let checkout : Checkout :=
      ⟨{ entries := [([['f']], .file (FileSystem.encode ['x']) 0o644), ([['g']], .link ['f'])] },
        ⟨[], fun _ ↦ 0, []⟩⟩
    let set : PatchSet :=
      { info := { owner := ['a'], style := .hash }
        patches := [{ file := ['g'], anchors := [['x']], after := ['z'] }] }
    let applied := (set.apply checkout none false).2
    (∀ editor, set.editor? = .ok editor → ∀ patch ∈ set.patches, ∀ t next,
        checkout.read patch.file = .ok (t, next) → editor.markers.Unmarked t) ∧
      applied.fs.Holds [['f']] "x\n# + PL:a + # z".toList 0o644 ∧
      (set.revert applied false).2.fs.lookup [['f']] =
        some (.file (FileSystem.encode ['x']) 0o644) := by
  intro checkout set applied
  let editor : Editor :=
    { owner := ⟨['a'], by simp, List.forall_mem_singleton.mpr rfl⟩, style := .hash
      usable := by decide, scope := .file }
  let edit : Edit :=
    { anchors := [['x']], anchors_ne_nil := by simp, anchor_ne_nil := by simp
      after := ['z'] }
  have htarget : checkout.target? ['g'] = some [['f']] := by
    simp [checkout, Checkout.target?, Workspace.resolve, FileSystem.resolve,
      FileSystem.resolveFor, FileSystem.walk, FileSystem.isDirectory, FileSystem.lookup,
      FileSystem.maxLinks, FileSystem.maxNameSize, FileSystem.maxPathSize, PathText.join,
      PathText.isAbsolute, Path.render, Text.splitOn, Char.utf8Size, Except.toOption]
  have hholds : checkout.fs.Holds [['f']] ['x'] 0o644 := rfl
  have hunmarked : ∀ editor, set.editor? = .ok editor → ∀ patch ∈ set.patches, ∀ t next,
      checkout.read patch.file = .ok (t, next) → editor.markers.Unmarked t := by
    rintro _ ⟨⟩ patch hpatch t next hread
    obtain ⟨path, mode, hpath, hheld, -⟩ := Checkout.read_ok_iff.mp hread
    rw [List.mem_singleton.mp hpatch, htarget] at hpath
    cases hpath
    obtain ⟨rfl, -⟩ := hheld.unique hholds
    decide +kernel
  refine ⟨hunmarked, ?_, ?_⟩
  · have hcomposes : set.Composes editor ['g'] [0] ['x'] "x\n# + PL:a + # z".toList := by
      refine ⟨[edit], rfl, ?_⟩
      simp only [editor, edit]
      decide +kernel
    obtain ⟨next, happly, hrewritten⟩ := applyFile_of_composes htarget hholds hcomposes (.inr rfl)
    have hnext : applied = next := congrArg Prod.snd happly
    exact hnext ▸ hrewritten.holds hholds
  · exact (apply_revert_restores set checkout none hunmarked [['f']]).trans hholds

end PatchSet

end MarkedEdits
