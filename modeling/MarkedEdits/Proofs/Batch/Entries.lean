import MarkedEdits.CommandLine.Run
import MarkedEdits.Proofs.PatchSet.Steps

/-!
# Entries of a batch

A batch visits its entries one after the other: the files of its first set, then those of the
second and so on (`Batch.fileResults_apply`, `Batch.fileResults_check`, `Batch.checkout_revert`).
The result for an entry is what the step on it makes of the checkout that the entries before have
left (`Batch.getElem?_visit`). A run that writes changes the target of an entry only where it
reports so (`Batch.LeftAlone.lookup_eq`), and the next command finds the files as it has left them
(`CommandLine.openCheckout_again`).
-/

namespace MarkedEdits

/-- One file of a patch set, with the positions of the patches for it. -/
structure Entry where
  set : PatchSet
  file : Text
  indices : List Nat

namespace Entry

/-- What a step on the entry comes to. The version gate and the editor concern all files of the set,
and `run` is asked only when they let the set pass. -/
def admitted {α : Type} (entry : Entry) (version : Option Text) (skip : String → α)
    (run : Editor → Checkout → Except TargetError α × Checkout) (checkout : Checkout) :
    Except TargetError α × Checkout :=
  match entry.set.admission version with
  | .error error => (.error error, checkout)
  | .ok (.skip reason) => (.ok (skip reason), checkout)
  | .ok (.run editor) => run editor checkout

/-- Applies the set to the file. -/
def apply (version : Option Text) (dryRun : Bool) (entry : Entry) (checkout : Checkout) :
    Except TargetError FileResult × Checkout :=
  entry.admitted version .skipped
    (fun editor checkout ↦ entry.set.applyFile editor dryRun checkout entry.file entry.indices)
    checkout

/-- Checks the set on the file. -/
def check (version : Option Text) (entry : Entry) (checkout : Checkout) :
    Except TargetError FileReport × Checkout :=
  entry.admitted version (fun reason ↦ ⟨.skipped, [], [], some reason⟩)
    (fun editor checkout ↦ entry.set.checkFile editor checkout entry.file entry.indices) checkout

/-- Takes the set out of the file. -/
def revert (dryRun : Bool) (entry : Entry) (checkout : Checkout) :
    Except TargetError FileResult × Checkout :=
  match entry.set.prepare with
  | .error error => (.error error, checkout)
  | .ok editor => PatchSet.revertFile editor dryRun checkout entry.file

end Entry

/-- The entries for the files of the set. -/
def PatchSet.entries (set : PatchSet) : List Entry :=
  set.files.map fun (file, indices) ↦ ⟨set, file, indices⟩

/-- The entries for the files of a set are entries of that set. -/
theorem PatchSet.set_of_mem_entries {set : PatchSet} {entry : Entry} (h : entry ∈ set.entries) :
    entry.set = set := by
  obtain ⟨group, -, rfl⟩ := List.mem_map.mp h
  rfl

namespace Batch

/-- The entries for the files of the sets. -/
def entries (sets : List LoadedSet) : List Entry :=
  sets.flatMap (·.set.entries)

/-- The results of all files of a batch, in their order. -/
def fileResults {α : Type} (results : List (SetResults α)) : FileResults α :=
  results.flatMap (·.files)

/-- The results of a step on every entry in turn, and the checkout after the last. -/
def visit {α : Type} (step : Entry → Checkout → α × Checkout) :
    Checkout → List Entry → List (Text × α) × Checkout
  | checkout, [] => ([], checkout)
  | checkout, entry :: rest =>
      let (result, checkout) := step entry checkout
      let (results, checkout) := visit step checkout rest
      ((entry.file, result) :: results, checkout)

section Visits

variable {α β : Type} {step : Entry → Checkout → α × Checkout} {checkout : Checkout}
  {entries : List Entry}

/-- A visit to more entries goes on with the checkout that is left by the first ones. -/
theorem visit_append (step : Entry → Checkout → α × Checkout) (checkout : Checkout)
    (first more : List Entry) :
    visit step checkout (first ++ more) =
      ((visit step checkout first).1 ++ (visit step (visit step checkout first).2 more).1,
        (visit step (visit step checkout first).2 more).2) := by
  induction first generalizing checkout with
  | nil => rfl
  | cons entry rest ih => simp only [List.cons_append, visit, ih]

/-- There is one result for every entry. -/
@[simp] theorem length_visit : (visit step checkout entries).1.length = entries.length := by
  induction entries generalizing checkout with
  | nil => rfl
  | cons entry rest ih => simp only [visit, List.length_cons, ih]

/-- The results are about the files of the entries, in their order. -/
theorem map_fst_visit : (visit step checkout entries).1.map (·.1) = entries.map (·.file) := by
  induction entries generalizing checkout with
  | nil => rfl
  | cons entry rest ih => simp only [visit, List.map_cons, ih]

/-- The first results are those of a visit to the first entries. -/
theorem take_visit (step : Entry → Checkout → α × Checkout) (checkout : Checkout)
    (entries : List Entry) (k : Nat) :
    (visit step checkout entries).1.take k = (visit step checkout (entries.take k)).1 := by
  induction entries generalizing checkout k with
  | nil => simp [visit]
  | cons entry rest ih =>
      cases k with
      | zero => rfl
      | succ k => simp only [visit, List.take_succ_cons, ih]

/-- The results from a position on are those of a visit that goes on with the entries from there
on. -/
theorem drop_visit (step : Entry → Checkout → α × Checkout) (checkout : Checkout)
    (entries : List Entry) (k : Nat) :
    (visit step checkout entries).1.drop k =
      (visit step (visit step checkout (entries.take k)).2 (entries.drop k)).1 := by
  induction entries generalizing checkout k with
  | nil => simp [visit]
  | cons entry rest ih =>
      cases k with
      | zero => rfl
      | succ k => simp only [visit, List.take_succ_cons, List.drop_succ_cons, ih]

/-- The result for an entry is what the step makes of the checkout that the entries before have
left. -/
theorem getElem?_visit (step : Entry → Checkout → α × Checkout) (checkout : Checkout)
    (entries : List Entry) (k : Nat) :
    (visit step checkout entries).1[k]? = entries[k]?.map fun entry ↦
      (entry.file, (step entry (visit step checkout (entries.take k)).2).1) := by
  induction entries generalizing checkout k with
  | nil => simp [visit]
  | cons entry rest ih =>
      cases k with
      | zero => rfl
      | succ k => simp only [visit, List.take_succ_cons, List.getElem?_cons_succ, ih]

/-- What the entries up to a position leave is what the step on the last of them leaves. -/
theorem visit_take_succ (step : Entry → Checkout → α × Checkout) (checkout : Checkout)
    {k : Nat} {entry : Entry} (hentry : entries[k]? = some entry) :
    (visit step checkout (entries.take (k + 1))).2 =
      (step entry (visit step checkout (entries.take k)).2).2 := by
  rw [List.take_add_one, hentry, visit_append]
  rfl

/-- What holds before a visit and is passed on from entry to entry holds after the visit. -/
theorem visit_induction {motive : List Entry → Checkout → Prop} (hstart : motive entries checkout)
    (hstep : ∀ entry rest checkout, motive (entry :: rest) checkout →
      motive rest (step entry checkout).2) :
    motive [] (visit step checkout entries).2 := by
  induction entries generalizing checkout with
  | nil => exact hstart
  | cons entry rest ih => exact ih (hstep entry rest checkout hstart)

/-- A result of a visit is what the step makes of an entry and of a checkout on the way, for which
holds what holds at the start and is passed on by every step. -/
theorem exists_of_mem_visit {motive : Checkout → Prop} (hstart : motive checkout)
    (hstep : ∀ entry current, motive current → motive (step entry current).2) {found : Text × α}
    (h : found ∈ (visit step checkout entries).1) :
    ∃ entry ∈ entries, ∃ current, motive current ∧
      found = (entry.file, (step entry current).1) := by
  induction entries generalizing checkout with
  | nil => cases h
  | cons entry rest ih =>
      rcases List.mem_cons.mp h with rfl | hrest
      · exact ⟨entry, List.mem_cons_self, checkout, hstart, rfl⟩
      · obtain ⟨other, hother, hfound⟩ := ih (hstep entry checkout hstart) hrest
        exact ⟨other, List.mem_cons_of_mem entry hother, hfound⟩

/-- Two steps that leave one checkout and give results that are related, do so along a visit. -/
theorem visit_related {step' : Entry → Checkout → β × Checkout} {related : α → β → Prop}
    (h : ∀ entry checkout, (step entry checkout).2 = (step' entry checkout).2 ∧
      related (step entry checkout).1 (step' entry checkout).1)
    (checkout : Checkout) (entries : List Entry) :
    (visit step checkout entries).2 = (visit step' checkout entries).2 ∧
      List.Forall₂ (fun a b ↦ a.1 = b.1 ∧ related a.2 b.2) (visit step checkout entries).1
        (visit step' checkout entries).1 := by
  induction entries generalizing checkout with
  | nil => exact ⟨rfl, .nil⟩
  | cons entry rest ih =>
      obtain ⟨hsame, hrelated⟩ := h entry checkout
      obtain ⟨hlast, hrest⟩ := ih (step entry checkout).2
      simp only [visit, ← hsame]
      exact ⟨hlast, .cons ⟨rfl, hrelated⟩ hrest⟩

end Visits

end Batch

/-! ## Runs as visits -/

namespace PatchSet

section Steps

variable {α : Type} {set : PatchSet} {step : Entry → Checkout → α × Checkout}

/-- A step on every file of the set is a step on every entry of the set. -/
theorem forFiles_eq_visit {fileStep : Checkout → Text → List Nat → α × Checkout}
    (h : ∀ file indices checkout,
      fileStep checkout file indices = step ⟨set, file, indices⟩ checkout) (checkout : Checkout) :
    forFiles fileStep checkout set.files = Batch.visit step checkout set.entries := by
  unfold entries
  generalize set.files = groups
  induction groups generalizing checkout with
  | nil => rfl
  | cons group rest ih => simp only [forFiles, List.map_cons, Batch.visit, h, ih]

/-- A step that does nothing and always comes to one result gives that for every file of the set. -/
theorem map_files_eq_visit {result : α}
    (h : ∀ file indices checkout, step ⟨set, file, indices⟩ checkout = (result, checkout))
    (checkout : Checkout) :
    (set.files.map fun (file, _) ↦ (file, result), checkout) =
      Batch.visit step checkout set.entries := by
  unfold entries
  generalize set.files = groups
  induction groups with
  | nil => rfl
  | cons group rest ih => simp only [List.map_cons, Batch.visit, h, ← ih]

end Steps

variable (set : PatchSet) (checkout : Checkout) (version : Option Text) (dryRun : Bool)

/-- Applying a set is a visit to its entries. -/
theorem apply_eq_visit :
    set.apply checkout version dryRun =
      Batch.visit (Entry.apply version dryRun) checkout set.entries := by
  unfold apply
  rcases hadmission : set.admission version with error | editor | reason
  all_goals simp only
  · exact map_files_eq_visit (by simp [Entry.apply, Entry.admitted, hadmission]) checkout
  · exact forFiles_eq_visit (by simp [Entry.apply, Entry.admitted, hadmission]) checkout
  · exact map_files_eq_visit (by simp [Entry.apply, Entry.admitted, hadmission]) checkout

/-- Checking a set is a visit to its entries. -/
theorem check_eq_visit :
    set.check checkout version = Batch.visit (Entry.check version) checkout set.entries := by
  unfold check
  rcases hadmission : set.admission version with error | editor | reason
  all_goals simp only
  · exact map_files_eq_visit (by simp [Entry.check, Entry.admitted, hadmission]) checkout
  · exact forFiles_eq_visit (by simp [Entry.check, Entry.admitted, hadmission]) checkout
  · exact map_files_eq_visit (by simp [Entry.check, Entry.admitted, hadmission]) checkout

/-- Reverting a set is a visit to its entries. -/
theorem revert_eq_visit :
    set.revert checkout dryRun = Batch.visit (Entry.revert dryRun) checkout set.entries := by
  unfold revert
  cases hprepare : set.prepare with
  | error error => exact map_files_eq_visit (by simp [Entry.revert, hprepare]) checkout
  | ok editor => exact forFiles_eq_visit (by simp [Entry.revert, hprepare]) checkout

/-- The checkout that the files of the set before the position have left. -/
def reached (i : Nat) : Checkout :=
  (Batch.visit (Entry.apply version dryRun) checkout (set.entries.take i)).2

end PatchSet

namespace Batch

/-- A step on every set is a step on every entry of the sets. -/
theorem forSets_eq_visit {α : Type} {setStep : PatchSet → Checkout → FileResults α × Checkout}
    {step : Entry → Checkout → Except TargetError α × Checkout}
    (h : ∀ set checkout, setStep set checkout = visit step checkout set.entries)
    (sets : List LoadedSet) (checkout : Checkout) :
    (fileResults (forSets setStep checkout sets).1, (forSets setStep checkout sets).2) =
      visit step checkout (entries sets) := by
  induction sets generalizing checkout with
  | nil => rfl
  | cons loaded rest ih =>
      obtain ⟨hresults, hlast⟩ := Prod.ext_iff.mp (ih (setStep loaded.set checkout).2)
      simp only [forSets, fileResults, List.flatMap_cons, entries, visit_append, ← h]
      exact Prod.ext (congrArg (_ ++ ·) hresults) hlast

variable (sets : List LoadedSet) (checkout : Checkout) (version : Option Text) (dryRun : Bool)

/-- The results of applying sets are those of a visit to their entries. -/
theorem fileResults_apply :
    fileResults (apply sets checkout version dryRun).1 =
      (visit (Entry.apply version dryRun) checkout (entries sets)).1 :=
  congrArg Prod.fst
    (forSets_eq_visit (fun set checkout ↦ set.apply_eq_visit checkout version dryRun) ..)

/-- Applying sets leaves the checkout that a visit to their entries leaves. -/
theorem checkout_apply :
    (apply sets checkout version dryRun).2 =
      (visit (Entry.apply version dryRun) checkout (entries sets)).2 :=
  congrArg Prod.snd
    (forSets_eq_visit (fun set checkout ↦ set.apply_eq_visit checkout version dryRun) ..)

/-- The results of checking sets are those of a visit to their entries. -/
theorem fileResults_check :
    fileResults (check sets checkout version).1 =
      (visit (Entry.check version) checkout (entries sets)).1 :=
  congrArg Prod.fst
    (forSets_eq_visit (fun set checkout ↦ set.check_eq_visit checkout version) ..)

/-- Reverting sets leaves the checkout that a visit to their entries leaves. -/
theorem checkout_revert :
    (revert sets checkout dryRun).2 =
      (visit (Entry.revert dryRun) checkout (entries sets)).2 :=
  congrArg Prod.snd
    (forSets_eq_visit (fun set checkout ↦ set.revert_eq_visit checkout dryRun) ..)

/-- A batch ends with the code one exactly if some file is a failure. -/
theorem code_eq {α : Type} (isFailure : Except TargetError α → Bool)
    (results : List (SetResults α)) :
    code isFailure results = if (fileResults results).any (isFailure ·.2) then 1 else 0 := by
  simp only [code, fileResults, List.any_flatMap]

end Batch

/-! ## What a run writes -/

/-- A step that reports no write to its target keeps all files. -/
theorem Effect.lookup_of_not_written {checkout : Checkout} {file : Text} {path : Path}
    {makes : Text → Text → Prop} {outcome : Except TargetError FileResult × Checkout}
    (h : Effect checkout file makes outcome)
    (hpath : checkout.target? file = some path → wasWritten outcome.1 = false) :
    outcome.2.fs.lookup path = checkout.fs.lookup path := by
  by_cases htarget : checkout.target? file = some path
  · by_contra hne
    have hwritten := h.wasWritten_iff.mpr ⟨path, htarget, hne⟩
    rw [hpath htarget] at hwritten
    cases hwritten
  · exact h.lookup_of_ne htarget

namespace Entry

variable {entry : Entry} {version : Option Text} {checkout : Checkout}

/-- A set that is let pass is applied to the file. Otherwise nothing is written. -/
theorem apply_cases (version : Option Text) (dryRun : Bool) (entry : Entry)
    (checkout : Checkout) :
    (∃ result, wasWritten result = false ∧
        entry.apply version dryRun checkout = (result, checkout)) ∨
      ∃ editor, entry.set.admission version = .ok (.run editor) ∧
        entry.apply version dryRun checkout =
          entry.set.applyFile editor dryRun checkout entry.file entry.indices := by
  unfold apply admitted
  rcases hadmission : entry.set.admission version with error | editor | reason
  · exact .inl ⟨.error error, rfl, rfl⟩
  · exact .inr ⟨editor, rfl, rfl⟩
  · exact .inl ⟨.ok (.skipped reason), rfl, rfl⟩

/-- A step keeps where paths lead. -/
theorem alike_apply (version : Option Text) (entry : Entry) (checkout : Checkout) :
    (entry.apply version false checkout).2.Alike checkout := by
  rcases entry.apply_cases version false checkout with ⟨result, -, h⟩ | ⟨editor, -, h⟩
  · exact h ▸ .refl checkout
  · exact h ▸ (PatchSet.applyFile_effect ..).alike

/-- A step reports that it has written to a file exactly when its target has changed. -/
theorem wasWritten_apply_iff (version : Option Text) (entry : Entry) (checkout : Checkout) :
    wasWritten (entry.apply version false checkout).1 = true ↔
      ∃ path, checkout.target? entry.file = some path ∧
        (entry.apply version false checkout).2.fs.lookup path ≠ checkout.fs.lookup path := by
  rcases entry.apply_cases version false checkout with ⟨result, hquiet, h⟩ | ⟨editor, -, h⟩
  · simp [h, hquiet]
  · rw [h]
    exact (PatchSet.applyFile_effect ..).wasWritten_iff

/-- A step that reports no write to its target keeps all files. -/
theorem lookup_apply {path : Path}
    (hpath : checkout.target? entry.file = some path →
      wasWritten (entry.apply version false checkout).1 = false) :
    (entry.apply version false checkout).2.fs.lookup path = checkout.fs.lookup path := by
  rcases entry.apply_cases version false checkout with ⟨result, -, h⟩ | ⟨editor, -, h⟩
  · rw [h]
  · rw [h] at hpath ⊢
    exact (PatchSet.applyFile_effect ..).lookup_of_not_written hpath

/-- A step of a dry run keeps all files. -/
theorem kept_apply (version : Option Text) (entry : Entry) (checkout : Checkout) :
    Checkout.Kept checkout (entry.apply version true checkout).2 := by
  rcases entry.apply_cases version true checkout with ⟨result, -, h⟩ | ⟨editor, -, h⟩
  · exact h ▸ ⟨rfl, rfl⟩
  · exact h ▸ (PatchSet.applyFile_trial ..).kept

end Entry

namespace Batch

variable {version : Option Text} {checkout : Checkout} {entries : List Entry}

/-- The results tell of no write to the target of the file. -/
def LeftAlone (checkout : Checkout) (file : Text) (results : FileResults FileResult) : Prop :=
  ∀ path, checkout.target? file = some path → PatchSet.writesTo checkout path results = 0

/-- A visit keeps where paths lead if every step does. -/
theorem alike_visit {α : Type} {step : Entry → Checkout → α × Checkout}
    (hstep : ∀ entry current, (step entry current).2.Alike current) :
    (visit step checkout entries).2.Alike checkout := by
  refine visit_induction (motive := fun _ current ↦ current.Alike checkout) (.refl _) ?_
  intro entry rest current halike
  exact (hstep entry current).trans halike

/-- A run keeps where paths lead. -/
theorem alike_visit_apply (version : Option Text) (checkout : Checkout) (entries : List Entry) :
    (visit (Entry.apply version false) checkout entries).2.Alike checkout :=
  alike_visit (Entry.alike_apply version)

/-- A dry run keeps all files. -/
theorem kept_visit_apply (version : Option Text) (checkout : Checkout) (entries : List Entry) :
    Checkout.Kept checkout (visit (Entry.apply version true) checkout entries).2 := by
  refine visit_induction (motive := fun _ current ↦ Checkout.Kept checkout current) ⟨rfl, rfl⟩ ?_
  intro entry rest current hkept
  have hnext := Entry.kept_apply version entry current
  exact ⟨hnext.root.trans hkept.root, hnext.fs.trans hkept.fs⟩

/-- A run that tells of no write to a file keeps the file. -/
theorem lookup_visit_apply {path : Path}
    (h : PatchSet.writesTo checkout path (visit (Entry.apply version false) checkout entries).1 =
      0) :
    (visit (Entry.apply version false) checkout entries).2.fs.lookup path =
      checkout.fs.lookup path := by
  induction entries generalizing checkout with
  | nil => rfl
  | cons entry rest ih =>
      obtain ⟨hentry, hrest⟩ := List.forall_mem_cons.mp (List.countP_eq_zero.mp h)
      have halike := Entry.alike_apply version entry checkout
      have hquiet :
          PatchSet.writesTo (entry.apply version false checkout).2 path
            (visit (Entry.apply version false) (entry.apply version false checkout).2 rest).1 =
              0 := by
        refine List.countP_eq_zero.mpr fun found hfound ↦ ?_
        rw [halike.target?_eq]
        exact hrest found hfound
      refine (ih hquiet).trans (Entry.lookup_apply fun htarget ↦ ?_)
      rw [decide_eq_true_eq, not_and, Bool.not_eq_true] at hentry
      exact hentry htarget

/-- A run that leaves a file alone keeps its target. -/
theorem LeftAlone.lookup_eq {file : Text} {path : Path}
    (h : LeftAlone checkout file (visit (Entry.apply version false) checkout entries).1)
    (htarget : checkout.target? file = some path) :
    (visit (Entry.apply version false) checkout entries).2.fs.lookup path =
      checkout.fs.lookup path :=
  lookup_visit_apply (h path htarget)

/-- Two sets carry out their patches on the two files of a tree. -/
theorem apply_double (version : Option Text) {first second : PatchSet} {editor editor' : Editor}
    {former former' composed composed' : Text} {indices indices' : List Nat} (path path' : Text)
    (hgate : first.admission version = .ok (.run editor))
    (hgate' : second.admission version = .ok (.run editor'))
    (hfiles : first.files = [(['f'], indices)]) (hfiles' : second.files = [(['g'], indices')])
    (hfirst : first.Composes editor ['f'] indices former composed)
    (hsecond : second.Composes editor' ['g'] indices' former' composed') :
    fileResults
        (apply [⟨path, first⟩, ⟨path', second⟩] (.double former former') version false).1 =
      [(['f'], .ok (.between former composed)), (['g'], .ok (.between former' composed'))] := by
  obtain ⟨htarget, htarget'⟩ := Checkout.target?_double former former'
  obtain ⟨hholds, hholds'⟩ := Checkout.holds_double former former'
  obtain ⟨next, happly, hrewritten⟩ :=
    PatchSet.applyFile_of_composes htarget hholds hfirst (.inr rfl)
  obtain ⟨last, happly', -⟩ := PatchSet.applyFile_of_composes
    ((hrewritten.alike.target?_eq _).trans htarget')
    ((hrewritten.lookup_of_ne (by decide)).trans hholds') hsecond
    (.inr (congrFun hrewritten.refusal _))
  simp only [apply, forSets, fileResults, PatchSet.apply, hgate, hgate', hfiles, hfiles',
    PatchSet.forFiles, happly, happly']
  rfl

/-- Two sets that aim at the only file of a tree work on its text one after the other. -/
theorem apply_pair (version : Option Text) {first second : PatchSet} {editor editor' : Editor}
    {former middle composed : Text} {indices indices' : List Nat} (path path' : Text)
    (hgate : first.admission version = .ok (.run editor))
    (hgate' : second.admission version = .ok (.run editor'))
    (hfiles : first.files = [(['f'], indices)]) (hfiles' : second.files = [(['f'], indices')])
    (hfirst : first.Composes editor ['f'] indices former middle)
    (hsecond : second.Composes editor' ['f'] indices' middle composed) :
    let run := apply [⟨path, first⟩, ⟨path', second⟩] (.single former) version false
    fileResults run.1 =
        [(['f'], .ok (.between former middle)), (['f'], .ok (.between middle composed))] ∧
      run.2.fs.Holds [['f']] composed 0o644 ∧ run.2.Alike (.single former) := by
  intro run
  have htarget := Checkout.target?_single former
  have hholds := Checkout.holds_single former
  obtain ⟨next, happly, hrewritten⟩ :=
    PatchSet.applyFile_of_composes htarget hholds hfirst (.inr rfl)
  obtain ⟨last, happly', hrewritten'⟩ := PatchSet.applyFile_of_composes
    ((hrewritten.alike.target?_eq _).trans htarget) (hrewritten.holds hholds) hsecond
    (.inr (congrFun hrewritten.refusal _))
  simp only [run, apply, forSets, fileResults, PatchSet.apply, hgate, hgate', hfiles, hfiles',
    PatchSet.forFiles, happly, happly']
  exact ⟨rfl, hrewritten'.holds (hrewritten.holds hholds), hrewritten'.alike.trans hrewritten.alike⟩

end Batch

/-! ## One run after another -/

namespace CommandLine

/-- The workspace that is opened after a run is the one that the run has left, apart from what is
remembered of the files. -/
theorem openCheckout_again {fs : FileSystem} {root : Path} {checkout last : Checkout}
    (h : openCheckout fs root = .ok checkout) (halike : last.Alike checkout) :
    ∃ next, openCheckout last.fs root = .ok next ∧ Checkout.Kept last next := by
  unfold openCheckout Workspace.at? at h ⊢
  cases hroot : fs.resolve [] root.render with
  | error cause => simp [hroot] at h
  | ok found =>
      simp only [hroot, Except.ok.injEq] at h
      subst h
      have hagain : last.fs.resolve [] root.render = .ok found :=
        (halike.fs.resolveFor_eq ..).trans hroot
      simp only [hagain]
      exact ⟨_, rfl, halike.root.symm, rfl⟩

/-- The tree with two files is opened at its top. -/
theorem openCheckout_double (s t : Text) :
    openCheckout (Checkout.double s t).fs [] = .ok (.double s t) := by
  simp [openCheckout, Workspace.at?, Checkout.double, FileSystem.resolve, FileSystem.resolveFor,
    FileSystem.walk, FileSystem.isDirectory, FileSystem.lookup, FileSystem.maxPathSize,
    PathText.isAbsolute, Path.render, Text.splitOn, Char.utf8Size]

/-- The tree with one file is opened at its top. -/
theorem openCheckout_single (t : Text) :
    openCheckout (Checkout.single t).fs [] = .ok (.single t) := by
  simp [openCheckout, Workspace.at?, Checkout.single, FileSystem.resolve, FileSystem.resolveFor,
    FileSystem.walk, FileSystem.isDirectory, FileSystem.lookup, FileSystem.maxPathSize,
    PathText.isAbsolute, Path.render, Text.splitOn, Char.utf8Size]

end CommandLine

end MarkedEdits
