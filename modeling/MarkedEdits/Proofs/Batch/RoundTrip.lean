import MarkedEdits.Proofs.Batch.Entries
import MarkedEdits.Proofs.Beneath

/-!
# Applying sets and reverting them

A run that reverts takes the sets in the order in which they were applied. Whatever the sets have
done to a file, it comes back as it was exactly if no line of it begins with a marker of a set that
aims at it, and that is so if each of these sets sees the markers of the others
(`CommandLine.apply_revert_leaves`). Sets of different styles do not see each other: a line that one
set has inserted and the next one has disabled is still disabled when the first one reverts, and the
second one then leaves it there (`CommandLine.revert_leaves_line`).
-/

namespace MarkedEdits

/-! ## What a step leaves of a text -/

namespace Effect

variable {checkout : Checkout} {file t : Text} {makes : Text → Text → Prop} {path : Path}
  {mode : Nat} {outcome : Except TargetError FileResult × Checkout}

/-- A step leaves a text as it is, or it aims at the text and makes a new one out of it. -/
theorem holds_cases (h : Effect checkout file makes outcome)
    (hholds : checkout.fs.Holds path t mode) :
    ∃ last, outcome.2.fs.Holds path last mode ∧
      (last = t ∨ (checkout.target? file = some path ∧ makes t last)) := by
  rcases h.leaves with kept | ⟨target, former, composed, htarget, made, rewritten⟩
  · exact ⟨t, kept.fs ▸ hholds, .inl rfl⟩
  · by_cases hpath : path = target
    · subst hpath
      obtain ⟨mode', hformer, -⟩ := rewritten.file
      obtain ⟨rfl, rfl⟩ := hformer.unique hholds
      exact ⟨composed, rewritten.holds hformer, .inr ⟨htarget, made⟩⟩
    · exact ⟨t, (rewritten.lookup_of_ne hpath).trans hholds, .inl rfl⟩

/-- A step keeps what is no text. -/
theorem lookup_of_not_holds (h : Effect checkout file makes outcome)
    (hnone : ∀ t mode, ¬ checkout.fs.Holds path t mode) :
    outcome.2.fs.lookup path = checkout.fs.lookup path := by
  rcases h.leaves with kept | ⟨target, former, composed, -, -, rewritten⟩
  · rw [kept.fs]
  · refine rewritten.lookup_of_ne fun hpath ↦ ?_
    obtain ⟨mode, hformer, -⟩ := rewritten.file
    exact hnone former mode (hpath ▸ hformer)

end Effect

namespace Entry

variable {checkout : Checkout}

/-- Applying an entry keeps all files, or it has an effect of the editor of its set. -/
theorem apply_effect (version : Option Text) (entry : Entry) (checkout : Checkout) :
    (entry.apply version false checkout).2 = checkout ∨
      ∃ editor, entry.set.editor? = .ok editor ∧
        Effect checkout entry.file (entry.set.Composes editor entry.file entry.indices)
          (entry.apply version false checkout) := by
  rcases entry.apply_cases version false checkout with ⟨result, -, h⟩ | ⟨editor, hgate, h⟩
  · exact .inl (congrArg Prod.snd h)
  · exact .inr ⟨editor, PatchSet.editor_of_admission hgate, h ▸ PatchSet.applyFile_effect ..⟩

/-- Reverting an entry keeps all files when its set has no editor, and otherwise it has an effect of
that editor. -/
theorem revert_effect (entry : Entry) (checkout : Checkout) :
    ((∃ cause, entry.set.editor? = .error cause) ∧ (entry.revert false checkout).2 = checkout) ∨
      ∃ editor, entry.set.editor? = .ok editor ∧
        Effect checkout entry.file (fun former composed ↦ composed = editor.revert former)
          (entry.revert false checkout) := by
  unfold revert PatchSet.prepare
  cases entry.set.editor? with
  | error cause => exact .inl ⟨⟨cause, rfl⟩, rfl⟩
  | ok editor => exact .inr ⟨editor, rfl, PatchSet.revertFile_effect ..⟩

/-- Reverting an entry keeps where paths lead. -/
theorem alike_revert (entry : Entry) (checkout : Checkout) :
    (entry.revert false checkout).2.Alike checkout := by
  rcases entry.revert_effect checkout with ⟨-, hsame⟩ | ⟨editor, -, heffect⟩
  · rw [hsame]
    exact .refl checkout
  · exact heffect.alike

end Entry

namespace Batch

variable {version : Option Text} {checkout current : Checkout} {entries rest : List Entry}
  {path : Path} {first : Text} {mode : Nat}

/-- What is at the path is no text, or the operating system does not let it be written. -/
def Fixed (checkout : Checkout) (path : Path) : Prop :=
  (∀ t mode, ¬ checkout.fs.Holds path t mode) ∨ checkout.fs.refusal? path ≠ none

/-- A visit keeps what is fixed if every step keeps all files or has an effect. -/
theorem lookup_visit_of_fixed
    {step : Entry → Checkout → Except TargetError FileResult × Checkout}
    (hstep : ∀ entry current, (step entry current).2 = current ∨
      ∃ makes, Effect current entry.file makes (step entry current))
    (hfixed : Fixed checkout path) :
    (visit step checkout entries).2.fs.lookup path = checkout.fs.lookup path := by
  refine (visit_induction (motive := fun _ current ↦ current.Alike checkout ∧
    current.fs.lookup path = checkout.fs.lookup path) ⟨.refl _, rfl⟩ ?_).2
  rintro entry rest current ⟨halike, hsame⟩
  rcases hstep entry current with hkept | ⟨makes, heffect⟩
  · rw [hkept]
    exact ⟨halike, hsame⟩
  · refine ⟨heffect.alike.trans halike, Eq.trans ?_ hsame⟩
    rcases hfixed with hnone | hrefusal
    · exact heffect.lookup_of_not_holds fun t mode hholds ↦ hnone t mode (hsame.symm.trans hholds)
    · exact heffect.lookup_of_refusal (halike.fs.refusal ▸ hrefusal)

/-- A run keeps what is fixed. -/
theorem lookup_visit_apply_of_fixed (version : Option Text) (entries : List Entry)
    (hfixed : Fixed checkout path) :
    (visit (Entry.apply version false) checkout entries).2.fs.lookup path =
      checkout.fs.lookup path := by
  refine lookup_visit_of_fixed (fun entry current ↦ ?_) hfixed
  rcases entry.apply_effect version current with hkept | ⟨editor, -, heffect⟩
  · exact .inl hkept
  · exact .inr ⟨_, heffect⟩

/-- A run that reverts keeps what is fixed. -/
theorem lookup_visit_revert_of_fixed (entries : List Entry) (hfixed : Fixed checkout path) :
    (visit (Entry.revert false) checkout entries).2.fs.lookup path =
      checkout.fs.lookup path := by
  refine lookup_visit_of_fixed (fun entry current ↦ ?_) hfixed
  rcases entry.revert_effect current with ⟨-, hkept⟩ | ⟨editor, -, heffect⟩
  · exact .inl hkept
  · exact .inr ⟨_, heffect⟩

/-- The editors of the sets of which an entry aims at the file at the path. -/
def editorsAt (checkout : Checkout) (path : Path) (entries : List Entry) : List Editor :=
  entries.filterMap fun entry ↦
    if checkout.target? entry.file = some path then entry.set.editor?.toOption else none

/-- The editor of an entry is among those that aim at its target. -/
theorem mem_editorsAt {entry : Entry} {editor : Editor} (hentry : entry ∈ entries)
    (htarget : checkout.target? entry.file = some path) (heditor : entry.set.editor? = .ok editor) :
    editor ∈ editorsAt checkout path entries := by
  refine List.mem_filterMap.mpr ⟨entry, hentry, ?_⟩
  rw [if_pos htarget, heditor]
  rfl

/-- A run does to the text of a file what some steps of the editors do that aim at it. -/
theorem holds_visit_apply (version : Option Text) (entries : List Entry)
    (hholds : checkout.fs.Holds path first mode) :
    ∃ steps : List Step, (∀ step ∈ steps, step.editor ∈ editorsAt checkout path entries) ∧
      (visit (Entry.apply version false) checkout entries).2.fs.Holds path (run first steps)
        mode := by
  refine (visit_induction (motive := fun rest current ↦ (∀ entry ∈ rest, entry ∈ entries) ∧
    current.Alike checkout ∧ ∃ steps : List Step,
      (∀ step ∈ steps, step.editor ∈ editorsAt checkout path entries) ∧
      current.fs.Holds path (run first steps) mode)
    ⟨fun _ ↦ id, .refl _, [], by simp, hholds⟩ ?_).2.2
  rintro entry rest current ⟨hentries, halike, steps, hsteps, hcurrent⟩
  obtain ⟨hentry, hrest⟩ := List.forall_mem_cons.mp hentries
  refine ⟨hrest, (entry.alike_apply version current).trans halike, ?_⟩
  rcases entry.apply_effect version current with hkept | ⟨editor, heditor, heffect⟩
  · exact ⟨steps, hsteps, hkept.symm ▸ hcurrent⟩
  · obtain ⟨last, hlast, rfl | ⟨htarget, edits, -, heval⟩⟩ := heffect.holds_cases hcurrent
    · exact ⟨steps, hsteps, hlast⟩
    · -- the step on the entry is one more step on the text
      have hmem := mem_editorsAt hentry (halike.target?_eq _ ▸ htarget) heditor
      refine ⟨steps ++ [⟨editor, .patch edits⟩], ?_, ?_⟩
      · exact List.forall_mem_append.mpr ⟨hsteps, List.forall_mem_singleton.mpr hmem⟩
      · have hpatch := Editor.patch_ok_iff.mpr ⟨last, heval, rfl⟩
        have happly : Step.apply (run first steps) ⟨editor, .patch edits⟩ = last := by
          simp only [Step.apply, hpatch, Outcome.applied_between]
        rw [run, List.foldl_append, List.foldl_cons, List.foldl_nil]
        exact happly.symm ▸ hlast

/-- A run that reverts lets the editors that aim at a file revert its text one after the other, if
the operating system lets the file be written. -/
theorem holds_visit_revert (entries : List Entry) (halike : current.Alike checkout) {t : Text}
    (hholds : current.fs.Holds path t mode) (hallowed : checkout.fs.refusal? path = none) :
    (visit (Entry.revert false) current entries).2.fs.Holds path
      ((editorsAt checkout path entries).foldl (fun t editor ↦ editor.revert t) t) mode := by
  induction entries generalizing current t with
  | nil => exact hholds
  | cons entry rest ih =>
      have halike' := (entry.alike_revert current).trans halike
      rcases entry.revert_effect current with ⟨⟨cause, hnone⟩, hkept⟩ | ⟨editor, heditor, heffect⟩
      · have hat : editorsAt checkout path (entry :: rest) = editorsAt checkout path rest := by
          simp [editorsAt, hnone, Except.toOption]
        rw [hat]
        exact ih halike' (hkept.symm ▸ hholds)
      · by_cases htarget : checkout.target? entry.file = some path
        · have hat : editorsAt checkout path (entry :: rest) =
              editor :: editorsAt checkout path rest := by
            simp [editorsAt, htarget, heditor, Except.toOption]
          rcases heffect.cases_of_makes ((halike.target?_eq _).trans htarget) hholds rfl
            fun other hother ↦ hother with
            ⟨next, hnext, -, hrewritten⟩ | ⟨cause, next, -, -, hrefusal, -⟩
          · rw [hat]
            exact ih halike' (hnext ▸ hrewritten.holds hholds)
          · rw [halike.fs.refusal, hallowed] at hrefusal
            cases hrefusal
        · have hat : editorsAt checkout path (entry :: rest) = editorsAt checkout path rest := by
            simp [editorsAt, htarget]
          have hlookup : (entry.revert false current).2.fs.lookup path = current.fs.lookup path :=
            heffect.lookup_of_ne (halike.target?_eq _ ▸ htarget)
          rw [hat]
          exact ih halike' (hlookup.trans hholds)

end Batch

namespace CommandLine

/-- After sets have been applied to a text without stems of theirs and then reverted, the text has
come back exactly if no line of it begins with a marker of a set that aims at it. It has come back
if these sets see each other's markers. What is no text or cannot be written is kept. -/
theorem apply_revert_leaves (palette : Palette) (fs : FileSystem) (root : Path)
    (checkout : Checkout) (sets : List LoadedSet) (apply revert : Request) (path : Path)
    (hopen : openCheckout fs root = .ok checkout) (happly : apply.has .dryRun = false)
    (hrevert : revert.has .dryRun = false)
    (hclean : ∀ first mode, checkout.fs.Holds path first mode →
      ∀ editor ∈ Batch.editorsAt checkout path (Batch.entries sets), editor.style.StemFree first)
    (hapart : ∀ a ∈ Batch.editorsAt checkout path (Batch.entries sets),
      ∀ b ∈ Batch.editorsAt checkout path (Batch.entries sets), ∀ line,
        a.markers.Marks line → b.markers.Marks line → a.markers = b.markers) :
    let editors := Batch.editorsAt checkout path (Batch.entries sets)
    ∃ next, openCheckout (applyAndReport palette checkout sets apply).fs root = .ok next ∧
      let restored := (revertAndReport palette next sets revert).fs
      (Batch.Fixed checkout path → restored.lookup path = checkout.fs.lookup path) ∧
      ∀ first mode, checkout.fs.Holds path first mode →
        ∃ last, restored.Holds path last mode ∧
          (last = first ↔ ∀ editor ∈ editors, editor.markers.Unmarked last) ∧
          ((∀ a ∈ editors, ∀ b ∈ editors, a.Sees b) → last = first) := by
  intro editors
  have halike := Batch.alike_visit_apply (apply.get? .targetVersion) checkout (Batch.entries sets)
  obtain ⟨next, hnext, hkept⟩ := openCheckout_again hopen halike
  have halike' := hkept.alike.trans halike
  simp only [applyAndReport, revertAndReport, happly, hrevert, Batch.checkout_apply,
    Batch.checkout_revert]
  have hfixed : Batch.Fixed checkout path →
      (Batch.visit (Entry.revert false) next (Batch.entries sets)).2.fs.lookup path =
        checkout.fs.lookup path := by
    intro hfixed
    have happlied : next.fs.lookup path = checkout.fs.lookup path := by
      rw [hkept.fs]
      exact Batch.lookup_visit_apply_of_fixed _ _ hfixed
    refine (Batch.lookup_visit_revert_of_fixed _ (hfixed.imp ?_ ?_)).trans happlied
    · exact fun hnone t mode hholds ↦ hnone t mode (happlied.symm.trans hholds)
    · exact fun hrefusal ↦ halike'.fs.refusal ▸ hrefusal
  refine ⟨next, hnext, hfixed, fun first mode hfirst ↦ ?_⟩
  by_cases hallowed : checkout.fs.refusal? path = none
  · obtain ⟨steps, hsteps, hreached⟩ :=
      Batch.holds_visit_apply (apply.get? .targetVersion) (Batch.entries sets) hfirst
    have hlast := Batch.holds_visit_revert (Batch.entries sets) halike' (hkept.fs ▸ hreached)
      hallowed
    exact ⟨_, hlast, foldl_revert_run editors (Markers.apart_of_editors hapart)
      (hclean first mode hfirst) hsteps⟩
  · -- the text has never been written, and no line of it is marked to begin with
    have hunmarked : ∀ editor ∈ editors, editor.markers.Unmarked first :=
      forall_unmarked_iff.mpr (not_marks_of_stemFree (hclean first mode hfirst))
    exact ⟨first, (hfixed (.inr hallowed)).trans hfirst, ⟨fun _ ↦ hunmarked, fun _ ↦ rfl⟩,
      fun _ ↦ rfl⟩

/-- Two sets of one style work on a file, and both take back what they have done. -/
theorem apply_revert_leaves_two :
    let former := "x\nw\n".toList
    let checkout : Checkout := .single former
    let first : PatchSet :=
      { info := { owner := ['a'], style := .hash }
        patches := [{ file := ['f'], search := some ['x'], after := ['y'] }] }
    let second : PatchSet :=
      { info := { owner := ['b'], style := .hash, scope := .span }
        patches := [{ file := ['f'], search := some ['w'], before := ['z'] }] }
    let sets : List LoadedSet := [⟨"a.toml".toList, first⟩, ⟨"b.toml".toList, second⟩]
    let apply : Request := ⟨.apply, []⟩
    let revert : Request := ⟨.revert, []⟩
    let editors := Batch.editorsAt checkout [['f']] (Batch.entries sets)
    openCheckout checkout.fs [] = .ok checkout ∧ apply.has .dryRun = false ∧
      revert.has .dryRun = false ∧
      (∀ t mode, checkout.fs.Holds [['f']] t mode → ∀ editor ∈ editors, editor.style.StemFree t) ∧
      (∀ a ∈ editors, ∀ b ∈ editors, ∀ line,
        a.markers.Marks line → b.markers.Marks line → a.markers = b.markers) ∧
      ∃ next, openCheckout (applyAndReport ⟨false⟩ checkout sets apply).fs [] = .ok next ∧
        (revertAndReport ⟨false⟩ next sets revert).fs.Holds [['f']] former 0o644 := by
  intro former checkout first second sets apply revert editors
  let editor : Editor :=
    { owner := ⟨['a'], by simp, List.forall_mem_singleton.mpr rfl⟩, style := .hash
      usable := by decide, scope := .file }
  let editor' : Editor :=
    { owner := ⟨['b'], by simp, List.forall_mem_singleton.mpr rfl⟩, style := .hash
      usable := by decide, scope := .span }
  have heditors : editors = [editor, editor'] := by
    have htarget := Checkout.target?_single former
    simp only [editors, Batch.editorsAt]
    show List.filterMap _ [(⟨first, ['f'], [0]⟩ : Entry), ⟨second, ['f'], [0]⟩] = _
    simp only [List.filterMap_cons, List.filterMap_nil, checkout, htarget, if_true]
    rfl
  have hhash : ∀ editor ∈ editors, editor.style = .hash := by
    rw [heditors]
    exact List.forall_mem_cons.mpr ⟨rfl, List.forall_mem_singleton.mpr rfl⟩
  have hclean : ∀ t mode, checkout.fs.Holds [['f']] t mode →
      ∀ editor ∈ editors, editor.style.StemFree t := by
    intro t mode hholds editor heditor
    obtain ⟨rfl, -⟩ := hholds.unique (Checkout.holds_single former)
    rw [hhash editor heditor]
    decide
  have hunique : ∀ a ∈ editors, ∀ b ∈ editors, ∀ line,
      a.markers.Marks line → b.markers.Marks line → a.markers = b.markers :=
    fun a ha b hb _ ↦ Editor.markers_eq_of_marks (.inr (hhash a ha)) (.inr (hhash b hb))
  obtain ⟨next, hnext, -, hleaves⟩ := apply_revert_leaves ⟨false⟩ checkout.fs [] checkout sets
    apply revert [['f']] (openCheckout_single former) rfl rfl hclean hunique
  obtain ⟨last, hlast, -, hsame⟩ := hleaves former _ (Checkout.holds_single former)
  obtain rfl := hsame fun a ha b hb ↦
    Editor.sees_of_style_eq ((hhash a ha).trans (hhash b hb).symm)
  exact ⟨openCheckout_single former, rfl, rfl, hclean, hunique, next, hnext, hlast⟩

/-- A set disables the line that a set of another style has inserted. Its marker hides the one of
that set when that set reverts, and the line is left. -/
theorem revert_leaves_line :
    let former := "x\n".toList
    let left := "x\n/* + PL:a + */ y\n".toList
    let checkout : Checkout := .single former
    let first : PatchSet :=
      { info := { owner := ['a'] }
        patches := [{ file := ['f'], search := some ['x'], after := ['y'] }] }
    let second : PatchSet :=
      { info := { owner := ['b'], style := .hash }
        patches := [{ file := ['f'], search := some ['y'], replace := some (.flag true) }] }
    let sets : List LoadedSet := [⟨"a.toml".toList, first⟩, ⟨"b.toml".toList, second⟩]
    let apply : Request := ⟨.apply, []⟩
    let revert : Request := ⟨.revert, []⟩
    openCheckout checkout.fs [] = .ok checkout ∧ Style.block.StemFree former ∧
      Style.hash.StemFree former ∧ (applyAndReport ⟨false⟩ checkout sets apply).code = 0 ∧
      ∃ next, openCheckout (applyAndReport ⟨false⟩ checkout sets apply).fs [] = .ok next ∧
        (revertAndReport ⟨false⟩ next sets revert).code = 0 ∧
        (revertAndReport ⟨false⟩ next sets revert).fs.Holds [['f']] left 0o644 := by
  intro former left checkout first second sets apply revert
  let editor : Editor :=
    { owner := ⟨['a'], by simp, List.forall_mem_singleton.mpr rfl⟩, style := .block
      usable := by decide, scope := .file }
  let editor' : Editor :=
    { owner := ⟨['b'], by simp, List.forall_mem_singleton.mpr rfl⟩, style := .hash
      usable := by decide, scope := .file }
  let edit : Edit :=
    { anchors := [['x']], anchors_ne_nil := by simp, anchor_ne_nil := by simp
      after := ['y'] }
  let edit' : Edit :=
    { anchors := [['y']], anchors_ne_nil := by simp, anchor_ne_nil := by simp
      replacement := .disable }
  let inserted := "x\n/* + PL:a + */ y\n".toList
  let disabled := "x\n# - PL:b - # /* + PL:a + */ y\n# + PL:b + #  \n".toList
  have htarget := Checkout.target?_single former
  have hholds := Checkout.holds_single former
  have hfirst : first.Composes editor ['f'] [0] former inserted := by
    refine ⟨[edit], rfl, ?_⟩
    simp only [editor, edit, former, inserted]
    decide +kernel
  have hsecond : second.Composes editor' ['f'] [0] inserted disabled := by
    refine ⟨[edit'], rfl, ?_⟩
    simp only [editor', edit', inserted, disabled]
    decide +kernel
  obtain ⟨hresults, hdisabled, halike⟩ := Batch.apply_pair none "a.toml".toList "b.toml".toList
    rfl rfl rfl rfl hfirst hsecond
  obtain ⟨next, hnext, hkept⟩ := openCheckout_again (openCheckout_single former) halike
  have htarget : next.target? ['f'] = some [['f']] :=
    ((hkept.alike.trans halike).target?_eq _).trans (Checkout.target?_single former)
  have hallowed : next.fs.refusal? [['f']] = none :=
    congrFun (hkept.alike.trans halike).fs.refusal _
  obtain ⟨middle, hfirst', hmiddle⟩ :=
    PatchSet.revertFile_of_holds editor htarget (hkept.fs ▸ hdisabled) hallowed
  obtain ⟨last, hsecond', hlast⟩ :=
    PatchSet.revertFile_of_holds editor' ((hmiddle.alike.target?_eq _).trans htarget)
      (hmiddle.holds (hkept.fs ▸ hdisabled)) (hmiddle.refusal ▸ hallowed)
  -- the first set finds no marker of its own in front
  have hleft : editor'.revert (editor.revert disabled) = left := by
    simp only [editor, editor', disabled, left]
    decide +kernel
  have hrevert : ∀ checkout, first.revert checkout false =
      PatchSet.forFiles (fun checkout file _ ↦ PatchSet.revertFile editor false checkout file)
        checkout [(['f'], [0])] := fun _ ↦ rfl
  have hrevert' : ∀ checkout, second.revert checkout false =
      PatchSet.forFiles (fun checkout file _ ↦ PatchSet.revertFile editor' false checkout file)
        checkout [(['f'], [0])] := fun _ ↦ rfl
  refine ⟨openCheckout_single former, by decide, by decide, ?_, next, hnext, ?_, hleft ▸ ?_⟩
  · show Batch.code Batch.hasFailed (Batch.apply sets checkout none false).1 = 0
    rw [Batch.code_eq, hresults]
    rfl
  · show Batch.code Batch.hasFailed (Batch.revert sets next false).1 = 0
    simp only [sets, Batch.revert, Batch.forSets, Batch.code, hrevert, hrevert',
      PatchSet.forFiles, hfirst', hsecond']
    rfl
  · show (Batch.revert sets next false).2.fs.Holds _ _ _
    simp only [sets, Batch.revert, Batch.forSets, hrevert, hrevert', PatchSet.forFiles, hfirst',
      hsecond']
    exact hlast.holds (hmiddle.holds (hkept.fs ▸ hdisabled))

end CommandLine

end MarkedEdits
