import MarkedEdits.Proofs.Batch.Agreement
import MarkedEdits.Proofs.Batch.DryRun
import MarkedEdits.Proofs.Session.History

/-!
# What a successful run settles

After an entry has been carried out its file holds a text that its patches leave as it is, or the
set is skipped: the entry is settled (`Entry.settled_apply`). It stays settled as long as nobody
writes to its file. So after a run without failures a check finds every file in place that no later
entry of the run has written to, and if that holds of all files, a second run writes nothing
(`CommandLine.apply_settles`). A later entry of another namespace can unsettle a file, even if the
entry itself has changed nothing there (`CommandLine.apply_unsettles`).
-/

namespace MarkedEdits

namespace PatchSet

variable {set : PatchSet} {editor : Editor} {file former composed : Text} {indices : List Nat}

/-- The patches leave a text that they have made as it is. In the span scope this is known only of
texts that revert to one without markers of the editor. -/
theorem Composes.again (h : set.Composes editor file indices former composed)
    (hclean : editor.scope = .span → composed ≠ former →
      editor.markers.Unmarked (editor.revert former)) :
    set.Composes editor file indices composed composed := by
  by_cases hsame : composed = former
  · rwa [hsame] at h ⊢
  · obtain ⟨edits, hedits, heval⟩ := h
    have hunmarked : editor.markers.Unmarked (editor.revert former) := by
      cases hscope : editor.scope with
      | file => exact Editor.unmarked_of_evaluate hscope heval
      | span => exact hclean hscope hsame
    exact ⟨edits, hedits, (Editor.revert_composed hunmarked heval).symm ▸ heval⟩

end PatchSet

namespace Entry

variable {entry : Entry} {version : Option Text} {checkout current : Checkout}

/-- The set is skipped, or the file holds a text that the patches leave as it is. -/
inductive Settled (version : Option Text) (entry : Entry) (checkout : Checkout) : Prop where
  | skipped (reason : String) (gate : entry.set.admission version = .ok (.skip reason))
  | inPlace (editor : Editor) (gate : entry.set.admission version = .ok (.run editor))
      (path : Path) (text : Text) (mode : Nat) (target : checkout.target? entry.file = some path)
      (holds : checkout.fs.Holds path text mode)
      (same : entry.set.Composes editor entry.file entry.indices text text)

/-- What the entry has found reverts to a text without markers of its own, if the scope of the set
lets such markers pass and the entry has changed something. -/
def Clean (entry : Entry) (result : Except TargetError FileResult) : Prop :=
  ∀ editor former updated, entry.set.editor? = .ok editor → editor.scope = .span →
    result = .ok (.applied former updated) → editor.markers.Unmarked (editor.revert former)

/-- An entry that has been carried out is settled. -/
theorem settled_apply (hdone : Batch.hasFailed (entry.apply version false checkout).1 = false)
    (hclean : entry.Clean (entry.apply version false checkout).1) :
    entry.Settled version (entry.apply version false checkout).2 := by
  cases hadmission : entry.set.admission version with
  | error error => simp [apply, admitted, hadmission, Batch.hasFailed] at hdone
  | ok admission =>
      cases admission with
      | skip reason => exact .skipped reason hadmission
      | run editor =>
          have heditor := PatchSet.editor_of_admission hadmission
          simp only [apply, admitted, hadmission] at hdone hclean ⊢
          have heffect :=
            PatchSet.applyFile_effect entry.set editor checkout entry.file entry.indices
          generalize entry.set.applyFile editor false checkout entry.file entry.indices = outcome
            at hdone hclean heffect ⊢
          cases heffect with
          | failing error next kept unmade => cases hdone
          | unwritten path former composed mode cause next target holds made new refusal kept =>
              cases hdone
          | composing path former composed next target made allowed rewritten =>
              obtain ⟨mode, hformer, -⟩ := rewritten.file
              refine .inPlace editor hadmission path composed mode
                ((rewritten.alike.target?_eq _).trans target) (rewritten.holds hformer)
                (made.again fun hscope hne ↦ ?_)
              refine hclean editor former composed heditor hscope ?_
              rw [FileResult.between, if_neg hne]

/-- An entry is skipped when its set is. -/
theorem settled_of_skipped {reason : String}
    (h : (entry.apply version false checkout).1 = .ok (.skipped reason)) :
    entry.Settled version current := by
  cases hadmission : entry.set.admission version with
  | error error => simp [apply, admitted, hadmission] at h
  | ok admission =>
      cases admission with
      | skip reason => exact .skipped reason hadmission
      | run editor =>
          simp only [apply, admitted, hadmission] at h
          have heffect :=
            PatchSet.applyFile_effect entry.set editor checkout entry.file entry.indices
          generalize entry.set.applyFile editor false checkout entry.file entry.indices = outcome
            at h heffect
          cases heffect with
          | failing error next kept unmade => cases h
          | unwritten path former composed mode cause next target holds made new refusal kept =>
              cases h
          | composing path former composed next target made allowed rewritten =>
              dsimp only at h
              unfold FileResult.between at h
              split at h <;> cases h

namespace Settled

/-- An entry stays settled as long as its file stays as it is. -/
theorem mono (h : entry.Settled version checkout) (halike : current.Alike checkout)
    (hsame : ∀ path, checkout.target? entry.file = some path →
      current.fs.lookup path = checkout.fs.lookup path) : entry.Settled version current := by
  cases h with
  | skipped reason gate => exact .skipped reason gate
  | inPlace editor gate path text mode target holds same =>
      exact .inPlace editor gate path text mode ((halike.target?_eq _).trans target)
        ((hsame path target).trans holds) same

/-- Applying a settled entry changes nothing. -/
theorem apply_eq (h : entry.Settled version checkout) :
    (entry.apply version false checkout).1 = .ok .unchanged ∨
      ∃ reason, entry.set.admission version = .ok (.skip reason) ∧
        (entry.apply version false checkout).1 = .ok (.skipped reason) := by
  cases h with
  | skipped reason gate =>
      refine .inr ⟨reason, gate, ?_⟩
      simp only [apply, admitted, gate]
  | inPlace editor gate path text mode target holds same =>
      obtain ⟨next, happly, -⟩ := PatchSet.applyFile_of_composes target holds same (.inl rfl)
      left
      simp only [apply, admitted, gate, happly, FileResult.between, if_true]

/-- A check finds a settled entry in place or skipped. -/
theorem check_eq (h : entry.Settled version checkout) :
    ∃ report, (entry.check version checkout).1 = .ok report ∧
      (report.status = .applied ∨ report.status = .skipped ∧
        ∃ reason, entry.set.admission version = .ok (.skip reason)) := by
  have hwritten : wasRefused (entry.apply version false checkout).1 = false := by
    rcases h.apply_eq with hunchanged | ⟨reason, -, hskipped⟩
    · rw [hunchanged]
      rfl
    · rw [hskipped]
      rfl
  have hforetells := entry.apply_foretells version (.refl checkout) (fun _ _ ↦ rfl) hwritten
  obtain ⟨-, hagrees⟩ := entry.check_agrees version checkout
  rcases h.apply_eq with hunchanged | ⟨reason, hgate, hskipped⟩
  · obtain ⟨report, hreport, hstatus⟩ :=
      hagrees.applied.mpr (hforetells.unchanged.mpr hunchanged)
    exact ⟨report, hreport, .inl hstatus⟩
  · obtain ⟨report, hreport, hstatus⟩ :=
      hagrees.skipped.mpr ⟨reason, (hforetells.skipped reason).mpr hskipped⟩
    exact ⟨report, hreport, .inr ⟨hstatus, reason, hgate⟩⟩

end Settled

end Entry

namespace Batch

variable {version : Option Text} {checkout current : Checkout} {entries : List Entry}

/-- A file is left alone wherever paths lead to the same targets. -/
theorem LeftAlone.mono {file : Text} {results : FileResults FileResult}
    (h : LeftAlone checkout file results) (halike : current.Alike checkout) :
    LeftAlone current file results := by
  intro path htarget
  have hnone := h path (halike.target?_eq file ▸ htarget)
  unfold PatchSet.writesTo at hnone ⊢
  simpa only [halike.target?_eq] using hnone

/-- What the entry at the position has done stands after the run: no later entry writes to its file,
unless its set is skipped. -/
def Stands (checkout : Checkout) (entries : List Entry) (results : FileResults FileResult)
    (k : Nat) : Prop :=
  ∀ entry result, entries[k]? = some entry → results[k]? = some (entry.file, result) →
    entry.Clean result ∧ ((∃ reason, result = .ok (.skipped reason)) ∨
      LeftAlone checkout entry.file (results.drop (k + 1)))

/-- An entry that has not failed is settled after a run, if what it has done stands. -/
theorem settled_visit {k : Nat} {entry : Entry} (hentry : entries[k]? = some entry)
    (hdone : ∀ found ∈ (visit (Entry.apply version false) checkout entries).1,
      hasFailed found.2 = false)
    (hstands : Stands checkout entries (visit (Entry.apply version false) checkout entries).1 k) :
    entry.Settled version (visit (Entry.apply version false) checkout entries).2 := by
  have hresult := getElem?_visit (Entry.apply version false) checkout entries k
  rw [hentry, Option.map_some] at hresult
  obtain ⟨hclean, hlater⟩ := hstands entry _ hentry hresult
  have hsuccess := hdone _ (List.mem_of_getElem? hresult)
  -- the entry is settled by its own step, and the rest of the run keeps it so
  rcases hlater with ⟨reason, hskipped⟩ | halone
  · exact Entry.settled_of_skipped hskipped
  · rw [drop_visit] at halone
    have hsteps := visit_take_succ (Entry.apply version false) checkout hentry
    have halike : (visit (Entry.apply version false) checkout (entries.take (k + 1))).2.Alike
        checkout := alike_visit_apply ..
    have hrest := halone.mono halike
    have hsettled := Entry.settled_apply hsuccess hclean
    rw [← hsteps] at hsettled
    have hwhole : (visit (Entry.apply version false) checkout entries).2 =
        (visit (Entry.apply version false)
          (visit (Entry.apply version false) checkout (entries.take (k + 1))).2
          (entries.drop (k + 1))).2 := by
      conv_lhs => rw [← List.take_append_drop (k + 1) entries, visit_append]
    rw [hwhole]
    exact hsettled.mono (alike_visit_apply ..) fun path htarget ↦ hrest.lookup_eq htarget

/-- A run over settled entries writes nothing. -/
theorem not_wasWritten_visit (h : ∀ entry ∈ entries, entry.Settled version checkout) :
    ∀ found ∈ (visit (Entry.apply version false) checkout entries).1,
      wasWritten found.2 = false := by
  induction entries generalizing checkout with
  | nil => simp [visit]
  | cons entry rest ih =>
      obtain ⟨hentry, hrest⟩ := List.forall_mem_cons.mp h
      have hfirst : wasWritten (entry.apply version false checkout).1 = false := by
        rcases hentry.apply_eq with hsame | ⟨reason, -, hskipped⟩
        · rw [hsame]
          rfl
        · rw [hskipped]
          rfl
      refine List.forall_mem_cons.mpr ⟨hfirst, ih fun other hother ↦ ?_⟩
      exact (hrest other hother).mono (Entry.alike_apply ..)
        fun path _ ↦ Entry.lookup_apply fun _ ↦ hfirst

/-- A check finds a settled entry in place or skipped. -/
theorem visit_check_of_settled {k : Nat} {entry : Entry} (hentry : entries[k]? = some entry)
    (h : entry.Settled version checkout) :
    ∃ report, (visit (Entry.check version) checkout entries).1[k]? =
        some (entry.file, .ok report) ∧
      (report.status = .applied ∨ report.status = .skipped ∧
        ∃ reason, entry.set.admission version = .ok (.skip reason)) := by
  have hkept : Checkout.Kept checkout (visit (Entry.check version) checkout (entries.take k)).2 :=
    kept_visit_check
  have hsettled := h.mono hkept.alike fun path _ ↦ by rw [hkept.fs]
  obtain ⟨report, hreport, hstatus⟩ := hsettled.check_eq
  refine ⟨report, ?_, hstatus⟩
  rw [getElem?_visit, hentry, Option.map_some, hreport]

/-- A check of settled entries succeeds. -/
theorem not_wouldFail_visit (h : ∀ entry ∈ entries, entry.Settled version checkout) :
    ∀ found ∈ (visit (Entry.check version) checkout entries).1, wouldFail found.2 = false := by
  intro found hfound
  obtain ⟨k, hk⟩ := List.getElem?_of_mem hfound
  obtain ⟨entry, hentry, -⟩ := Option.map_eq_some_iff.mp (getElem?_visit _ _ _ k ▸ hk)
  obtain ⟨report, hreport, hstatus⟩ :=
    visit_check_of_settled hentry (h entry (List.mem_of_getElem? hentry))
  obtain rfl := Option.some.inj (hk.symm.trans hreport)
  rcases hstatus with hstatus | ⟨hstatus, -⟩ <;> simp [wouldFail, hstatus]

/-- A batch ends with the code zero exactly if no file is a failure. -/
theorem code_eq_zero_iff {α : Type} {isFailure : Except TargetError α → Bool}
    {results : List (SetResults α)} :
    code isFailure results = 0 ↔ ∀ found ∈ fileResults results, isFailure found.2 = false := by
  simp only [code_eq, ite_eq_right_iff, one_ne_zero, imp_false, List.any_eq_true, not_exists,
    not_and, Bool.not_eq_true]

end Batch

namespace CommandLine

/-- After a run without failures a check finds every file in place or skipped where what the run has
done stands. If that holds of all files, the check succeeds and a second run updates no file. -/
theorem apply_settles (palette : Palette) (fs : FileSystem) (root : Path) (checkout : Checkout)
    (sets : List LoadedSet) (apply check : Request) (hopen : openCheckout fs root = .ok checkout)
    (hreal : apply.has .dryRun = false)
    (hversion : check.get? .targetVersion = apply.get? .targetVersion)
    (hdone : (applyAndReport palette checkout sets apply).code = 0) :
    let version := apply.get? .targetVersion
    let entries := Batch.entries sets
    let results := Batch.fileResults (Batch.apply sets checkout version false).1
    ∃ next, openCheckout (applyAndReport palette checkout sets apply).fs root = .ok next ∧
      (∀ k entry, entries[k]? = some entry → Batch.Stands checkout entries results k →
        ∃ report,
          (Batch.fileResults (Batch.check sets next version).1)[k]? =
            some (entry.file, .ok report) ∧
          (report.status = .applied ∨ report.status = .skipped ∧
            ∃ reason, entry.set.admission version = .ok (.skip reason))) ∧
      ((∀ k, Batch.Stands checkout entries results k) →
        (checkAndReport palette next sets check).code = 0 ∧
          ∀ found ∈ Batch.fileResults (Batch.apply sets next version false).1,
            wasWritten found.2 = false) := by
  intro version entries results
  have hresults : results = (Batch.visit (Entry.apply version false) checkout entries).1 :=
    Batch.fileResults_apply ..
  simp only [applyAndReport, checkAndReport, hreal, hversion, Batch.code_eq_zero_iff,
    Batch.fileResults_apply, Batch.fileResults_check, Batch.checkout_apply] at hdone ⊢
  rw [hresults]
  obtain ⟨next, hnext, hkept⟩ := openCheckout_again hopen
    (Batch.alike_visit_apply version checkout entries)
  have hsettled : ∀ k entry, entries[k]? = some entry →
      Batch.Stands checkout entries
        (Batch.visit (Entry.apply version false) checkout entries).1 k →
      entry.Settled version next := by
    intro k entry hentry hstands
    have hlast := Batch.settled_visit hentry hdone hstands
    exact hlast.mono hkept.alike fun path _ ↦ by rw [hkept.fs]
  refine ⟨next, hnext, fun k entry hentry hstands ↦ ?_, fun hstands ↦ ?_⟩
  · exact Batch.visit_check_of_settled hentry (hsettled k entry hentry hstands)
  · have hall : ∀ entry ∈ entries, entry.Settled version next := by
      intro entry hentry
      obtain ⟨k, hk⟩ := List.getElem?_of_mem hentry
      exact hsettled k entry hk (hstands k)
    exact ⟨Batch.not_wouldFail_visit hall, Batch.not_wasWritten_visit hall⟩

/-- A run of two sets settles both of their files. -/
theorem apply_settles_two_files :
    let checkout : Checkout := .double ['x'] ['w']
    let first : PatchSet :=
      { info := { owner := ['a'], style := .hash }
        patches := [{ file := ['f'], search := some ['x'], after := ['z'] }] }
    let second : PatchSet :=
      { info := { owner := ['b'], scope := .span }
        patches := [{ file := ['g'], search := some ['w'], before := ['y'] }] }
    let sets : List LoadedSet := [⟨"a.toml".toList, first⟩, ⟨"b.toml".toList, second⟩]
    let apply : Request := ⟨.apply, []⟩
    let check : Request := ⟨.check, []⟩
    let results := Batch.fileResults (Batch.apply sets checkout none false).1
    openCheckout checkout.fs [] = .ok checkout ∧ apply.has .dryRun = false ∧
      check.get? .targetVersion = apply.get? .targetVersion ∧
      (applyAndReport ⟨false⟩ checkout sets apply).code = 0 ∧
      (∀ k, Batch.Stands checkout (Batch.entries sets) results k) ∧
      ∃ next, openCheckout (applyAndReport ⟨false⟩ checkout sets apply).fs [] = .ok next ∧
        (checkAndReport ⟨false⟩ next sets check).code = 0 ∧
        ∀ found ∈ Batch.fileResults (Batch.apply sets next none false).1,
          wasWritten found.2 = false := by
  intro checkout first second sets apply check results
  let editor : Editor :=
    { owner := ⟨['a'], by simp, List.forall_mem_singleton.mpr rfl⟩, style := .hash
      usable := by decide, scope := .file }
  let editor' : Editor :=
    { owner := ⟨['b'], by simp, List.forall_mem_singleton.mpr rfl⟩, style := .block
      usable := by decide, scope := .span }
  let edit : Edit :=
    { anchors := [['x']], anchors_ne_nil := by simp, anchor_ne_nil := by simp
      after := ['z'] }
  let edit' : Edit :=
    { anchors := [['w']], anchors_ne_nil := by simp, anchor_ne_nil := by simp
      before := ['y'] }
  let one := "x\n# + PL:a + # z".toList
  let other := "/* + PL:b + */ y\nw".toList
  have hfirst : first.Composes editor ['f'] [0] ['x'] one := by
    refine ⟨[edit], rfl, ?_⟩
    simp only [editor, edit, one]
    decide +kernel
  have hsecond : second.Composes editor' ['g'] [0] ['w'] other := by
    refine ⟨[edit'], rfl, ?_⟩
    simp only [editor', edit', other]
    decide +kernel
  have hresults : results =
      [(['f'], .ok (.applied ['x'] one)), (['g'], .ok (.applied ['w'] other))] :=
    Batch.apply_double none _ _ rfl rfl rfl rfl hfirst hsecond
  have hcode : (applyAndReport ⟨false⟩ checkout sets apply).code = 0 := by
    refine Batch.code_eq_zero_iff.mpr ?_
    show ∀ found ∈ results, Batch.hasFailed found.2 = false
    rw [hresults]
    exact List.forall_mem_cons.mpr ⟨rfl, List.forall_mem_singleton.mpr rfl⟩
  obtain ⟨htarget, htarget'⟩ := Checkout.target?_double ['x'] ['w']
  have hstands : ∀ k, Batch.Stands checkout (Batch.entries sets) results k := by
    intro k entry result hentry hresult
    rw [hresults] at hresult ⊢
    rcases k with _ | _ | k
    · obtain rfl : (⟨first, ['f'], [0]⟩ : Entry) = entry := Option.some.inj hentry
      refine ⟨?_, .inr fun path hpath ↦ ?_⟩
      · rintro _ former updated ⟨⟩ ⟨⟩
      · -- the second set writes to the other file
        obtain rfl : [['f']] = path := Option.some.inj (htarget.symm.trans hpath)
        refine List.countP_eq_zero.mpr (List.forall_mem_singleton.mpr ?_)
        simp [checkout, htarget']
    · obtain rfl : (⟨second, ['g'], [0]⟩ : Entry) = entry := Option.some.inj hentry
      obtain ⟨-, rfl⟩ := Prod.mk.inj (Option.some.inj hresult)
      refine ⟨?_, .inr fun path _ ↦ rfl⟩
      rintro _ _ _ ⟨⟩ - ⟨⟩
      decide +kernel
    · cases hresult
  obtain ⟨next, hnext, -, hall⟩ := apply_settles ⟨false⟩ checkout.fs [] checkout sets apply check
    (openCheckout_double ['x'] ['w']) rfl rfl hcode
  exact ⟨openCheckout_double ['x'] ['w'], rfl, rfl, hcode, hstands, next, hnext, hall hstands⟩

/-- A set finds nothing to do in a file to which the next set writes. The run succeeds, and a check
after it fails on the first set because of the markers of the second. -/
theorem apply_unsettles :
    let former := "x\nw\n".toList
    let checkout : Checkout := .single former
    let first : PatchSet :=
      { info := { owner := ['a'], style := .hash }
        patches := [{ file := ['f'], search := some ['q'], before := ['y'], allowZero := true }] }
    let second : PatchSet :=
      { info := { owner := ['b'], style := .hash }
        patches := [{ file := ['f'], search := some ['w'], after := ['z'] }] }
    let sets : List LoadedSet := [⟨"a.toml".toList, first⟩, ⟨"b.toml".toList, second⟩]
    let apply : Request := ⟨.apply, []⟩
    let check : Request := ⟨.check, []⟩
    openCheckout checkout.fs [] = .ok checkout ∧
      (applyAndReport ⟨false⟩ checkout sets apply).code = 0 ∧
      ∃ next, openCheckout (applyAndReport ⟨false⟩ checkout sets apply).fs [] = .ok next ∧
        (checkAndReport ⟨false⟩ next sets check).code = 1 ∧
        (applyAndReport ⟨false⟩ next sets apply).code = 1 := by
  intro former checkout first second sets apply check
  let editor : Editor :=
    { owner := ⟨['a'], by simp, List.forall_mem_singleton.mpr rfl⟩, style := .hash
      usable := by decide, scope := .file }
  let editor' : Editor :=
    { editor with owner := ⟨['b'], by simp, List.forall_mem_singleton.mpr rfl⟩ }
  let edit : Edit :=
    { anchors := [['q']], anchors_ne_nil := by simp, anchor_ne_nil := by simp
      before := ['y'], allowZero := true }
  let edit' : Edit :=
    { anchors := [['w']], anchors_ne_nil := by simp, anchor_ne_nil := by simp
      after := ['z'] }
  let other := "x\nw\n# + PL:b + # z\n".toList
  have hedits : first.edits ['f'] [0] = .ok [edit] := rfl
  have hfirst : first.Composes editor ['f'] [0] former former := by
    refine ⟨[edit], hedits, ?_⟩
    simp only [editor, edit, former]
    decide +kernel
  have hsecond : second.Composes editor' ['f'] [0] former other := by
    refine ⟨[edit'], rfl, ?_⟩
    simp only [editor, editor', edit', former, other]
    decide +kernel
  have hrefused : editor.patch other [edit] = .error (.foreignMarkers 1 3) := by
    simp only [editor, edit, other]
    decide +kernel
  obtain ⟨hresults, hholds, halike⟩ := Batch.apply_pair none "a.toml".toList "b.toml".toList
    rfl rfl rfl rfl hfirst hsecond
  obtain ⟨next, hnext, hkept⟩ := openCheckout_again (openCheckout_single former) halike
  have happly : ∀ checkout dryRun, first.apply checkout none dryRun =
      PatchSet.forFiles (first.applyFile editor dryRun) checkout [(['f'], [0])] := fun _ _ ↦ rfl
  have hcode : ∀ dryRun, Batch.code Batch.hasFailed (Batch.apply sets next none dryRun).1 = 1 := by
    intro dryRun
    obtain ⟨_, herror, -⟩ := PatchSet.applyFile_of_error dryRun
      (((hkept.alike.trans halike).target?_eq _).trans (Checkout.target?_single former))
      (hkept.fs ▸ hholds) hedits hrefused
    simp only [sets, Batch.apply, Batch.forSets, Batch.code, happly, PatchSet.forFiles, herror]
    rfl
  refine ⟨openCheckout_single former, ?_, next, hnext, ?_, hcode false⟩
  · show Batch.code Batch.hasFailed (Batch.apply sets checkout none false).1 = 0
    rw [Batch.code_eq, hresults]
    rfl
  · exact (Batch.code_check sets next none).trans (hcode true)

end CommandLine

end MarkedEdits
