import MarkedEdits.Proofs.Batch.Effects
import MarkedEdits.Proofs.PatchSet.Interior

/-!
# Staying below the root

Whatever is done with a checkout, one operation after the other, nothing is told of a file that is
not below the root, and no such file is changed (`Checkout.stays_below_root`). Each operation deals
with the targets of the names that it is given, one after the other (`Answered`), and a target is
canonical and below the root. The texts in its answers are the ones in these files, or are made of
them (`Tells`). A name that leads elsewhere is refused. When a set as a whole is not let pass, its
names are not even looked at. So an answer does not depend on what other files hold
(`Checkout.performAll_agree`).
-/

namespace MarkedEdits

/-- What is done with a checkout. -/
inductive Operation where
  | read (file : Text)
  | write (file t : Text)
  | resolve (file : Text)
  | apply (set : PatchSet) (version : Option Text) (dryRun : Bool)
  | revert (set : PatchSet) (dryRun : Bool)

namespace Operation

/-- The names that the operation is given. -/
def files : Operation → List Text
  | read file | write file _ | resolve file => [file]
  | apply set _ _ | revert set _ => set.files.map (·.1)

/-- The operation makes the second text out of the first one, for a file that has the name. -/
def Makes : Operation → Text → Text → Text → Prop
  | apply set _ _, file, former, updated => ∃ editor indices, set.editor? = .ok editor ∧
      (file, indices) ∈ set.files ∧ set.Composes editor file indices former updated
  | revert set _, _, former, updated => ∃ editor, set.editor? = .ok editor ∧
      updated = editor.revert former
  | read _, _, _, _ | write _ _, _, _, _ | resolve _, _, _, _ => False

end Operation

/-- What an operation tells of a file: its text, that it has been written, its resolved path, the
result for it, or why it is not accessed. -/
inductive Answer where
  | text (t : Text)
  | written
  | path (path : Path)
  | result (result : Except TargetError FileResult)
  | refused (cause : StoreError)

namespace Answer

/-- Why the file is not accessed. -/
def refusal? : Answer → Option StoreError
  | refused cause | result (.error (.unreadable _ cause)) => some cause
  | _ => none

/-- The set as a whole is not let pass. -/
def isStopped : Answer → Bool
  | result (.ok (.skipped _)) | result (.error (.version _)) | result (.error (.invalidSet _)) =>
      true
  | _ => false

/-- The text that is told to be in the file when the operation comes to it. -/
def found? : Answer → Option Text
  | text t | result (.ok (.applied t _)) | result (.ok (.wouldApply t _)) => some t
  | _ => none

/-- The text that is told to be made of the one in the file. -/
def made? : Answer → Option Text
  | result (.ok (.applied _ t)) | result (.ok (.wouldApply _ t))
  | result (.error (.unwritten _ t _)) => some t
  | _ => none

/-- The text that is told to be left in the file. -/
def left? : Answer → Option Text
  | result (.ok (.applied _ t)) => some t
  | _ => none

end Answer

namespace Checkout

/-- The answer about each file that the operation is given, and the checkout after the operation. -/
def perform (checkout : Checkout) : Operation → List (Text × Answer) × Checkout
  | .read file =>
      match checkout.read file with
      | .ok (t, next) => ([(file, .text t)], next)
      | .error cause => ([(file, .refused cause)], checkout)
  | .write file t =>
      match checkout.write file t with
      | .ok next => ([(file, .written)], next)
      | .error cause => ([(file, .refused cause)], checkout)
  | .resolve file =>
      match checkout.workspace.resolve checkout.fs file with
      | .ok path => ([(file, .path path)], checkout)
      | .error cause => ([(file, .refused cause)], checkout)
  | .apply set version dryRun =>
      let (results, next) := set.apply checkout version dryRun
      (results.map fun (file, result) ↦ (file, .result result), next)
  | .revert set dryRun =>
      let (results, next) := set.revert checkout dryRun
      (results.map fun (file, result) ↦ (file, .result result), next)

/-- The checkout after the operations, one after the other. -/
def performAll (checkout : Checkout) (operations : List Operation) : Checkout :=
  operations.foldl (fun current operation ↦ (current.perform operation).2) checkout

/-- The checkout after the operation has dealt with the names before the position. -/
def reached (checkout : Checkout) (operation : Operation) (i : Nat) : Checkout :=
  match operation with
  | .apply set version dryRun => set.reached checkout version dryRun i
  | .revert set dryRun =>
      (Batch.visit (Entry.revert dryRun) checkout (set.entries.take i)).2
  | .read _ | .write _ _ | .resolve _ =>
      match i with
      | 0 => checkout
      | _ + 1 => (checkout.perform operation).2

end Checkout

/-- What an answer tells of the file at the path, which the operation finds in one checkout and
leaves in another. A text is the one that the file holds before or after, or is made of the one
before, and a path is that of the file. -/
structure Tells (operation : Operation) (before after : Checkout) (file : Text) (path : Path)
    (answer : Answer) : Prop where
  found : ∀ t ∈ answer.found?, ∃ mode, before.fs.Holds path t mode
  made : ∀ t ∈ answer.made?, ∃ former mode, before.fs.Holds path former mode ∧
    operation.Makes file former t
  left : ∀ t ∈ answer.left?, ∃ mode, after.fs.Holds path t mode
  path : ∀ found, answer = .path found → found = path

/-- An answer that has no text and no path tells nothing of the file. -/
theorem Tells.of_silent {operation : Operation} {before after : Checkout} {file : Text}
    {path : Path} {answer : Answer} (hfound : answer.found? = none) (hmade : answer.made? = none)
    (hleft : answer.left? = none) (hpath : ∀ found, answer ≠ .path found) :
    Tells operation before after file path answer :=
  ⟨by simp [hfound], by simp [hmade], by simp [hleft], fun found h ↦ absurd h (hpath found)⟩

/-- What an operation does with one of its names. It keeps where paths lead, and changes nothing but
the target. Unless the set as a whole is not let pass, it refuses a name that is not resolved, and
otherwise tells of the target. -/
structure Answered (operation : Operation) (before after : Checkout) (file : Text)
    (answer : Answer) : Prop where
  alike : after.Alike before
  changed : ∀ path, after.fs.lookup path ≠ before.fs.lookup path →
    before.target? file = some path
  refused : answer.isStopped = false → ∀ cause,
    before.workspace.resolve before.fs file = .error cause → answer.refusal? = some cause
  tells : ∀ path, before.target? file = some path →
    Tells operation before after file path answer

/-- What an operation does with its names, when it comes from one checkout to the next. If a set as
a whole is not let pass then all answers tell the same, and nothing changes. -/
structure Keeping (operation : Operation) (answers : List (Text × Answer))
    (reached : Nat → Checkout) : Prop where
  answered : ∀ i file answer, answers[i]? = some (file, answer) →
    Answered operation (reached i) (reached (i + 1)) file answer
  stopped : ∀ file answer, (file, answer) ∈ answers → answer.isStopped = true →
    reached answers.length = reached 0 ∧ ∀ other ∈ answers, other.2 = answer

namespace Keeping

variable {operation : Operation} {answers : List (Text × Answer)} {reached : Nat → Checkout}
  (h : Keeping operation answers reached)

include h

/-- There is an answer at every position before the last one. -/
theorem exists_answered {i : Nat} (hi : i < answers.length) :
    ∃ file answer, Answered operation (reached i) (reached (i + 1)) file answer :=
  ⟨_, _, h.answered i answers[i].1 answers[i].2 (List.getElem?_eq_getElem hi)⟩

/-- An operation keeps where paths lead. -/
theorem alike {i : Nat} (hi : i ≤ answers.length) : (reached i).Alike (reached 0) := by
  induction i with
  | zero => exact .refl _
  | succ i ih =>
      obtain ⟨file, answer, hanswered⟩ := h.exists_answered hi
      exact hanswered.alike.trans (ih (Nat.le_of_lt hi))

/-- An operation changes nothing but targets. -/
theorem exists_target_of_changed {path : Path} {i : Nat} (hi : i ≤ answers.length)
    (hchanged : (reached i).fs.lookup path ≠ (reached 0).fs.lookup path) :
    ∃ file, (reached 0).target? file = some path := by
  induction i with
  | zero => exact absurd rfl hchanged
  | succ i ih =>
      by_cases hstep : (reached (i + 1)).fs.lookup path = (reached i).fs.lookup path
      · exact ih (Nat.le_of_lt hi) (hstep ▸ hchanged)
      · -- what changes on the way is a target there, and so it is at the start
        obtain ⟨file, answer, hanswered⟩ := h.exists_answered hi
        exact ⟨file, (h.alike (Nat.le_of_lt hi)).target?_eq file ▸ hanswered.changed path hstep⟩

end Keeping

/-! ## Entries -/

namespace PatchSet

variable {set : PatchSet} {editor : Editor} {checkout : Checkout} {file former : Text}
  {dryRun : Bool}

/-- Finishing a file does not tell that a set is not let pass. -/
theorem isStopped_finish (outcome : Outcome) :
    (Answer.result (finish checkout file former dryRun outcome).1).isStopped = false := by
  rcases finish_cases checkout file former dryRun outcome with
    hsame | ⟨updated, htold⟩ | ⟨updated, hwritten⟩ | ⟨updated, cause, hfailed⟩
  · rw [hsame]
    rfl
  · rw [htold]
    rfl
  · rw [hwritten]
    rfl
  · rw [hfailed]
    rfl

/-- Applying the patches of a file does not tell that the set is not let pass. -/
theorem isStopped_applyFile (indices : List Nat) :
    (Answer.result (set.applyFile editor dryRun checkout file indices).1).isStopped = false := by
  unfold applyFile
  split
  · rfl
  · split
    · next hedits =>
        obtain ⟨index, patch, cause, -, -, rfl⟩ := exists_patch_of_edits hedits
        rfl
    · split
      · rfl
      · exact isStopped_finish _

/-- Reverting a file does not tell that the set is not let pass. -/
theorem isStopped_revertFile :
    (Answer.result (revertFile editor dryRun checkout file).1).isStopped = false := by
  unfold revertFile
  split
  · rfl
  · exact isStopped_finish _

end PatchSet

/-- A result that is right about a step tells of its target. -/
theorem Truthful.tells {dryRun : Bool} {before after : Checkout} {file : Text}
    {makes : Text → Text → Prop} {result : Except TargetError FileResult} {operation : Operation}
    {path : Path} (h : Truthful dryRun before after file makes result)
    (hmakes : ∀ former updated, makes former updated → operation.Makes file former updated)
    (htarget : before.target? file = some path) :
    Tells operation before after file path (.result result) := by
  have hpath : ∀ found, Answer.result result = .path found → found = path := by
    rintro _ ⟨⟩
  match result with
  | .ok (.applied former updated) =>
      obtain ⟨-, target, htarget', hmade, hrewritten⟩ := h.applied former updated rfl
      obtain rfl : target = path := Option.some.inj (htarget'.symm.trans htarget)
      obtain ⟨mode, hformer, -⟩ := hrewritten.file
      refine ⟨?_, ?_, ?_, hpath⟩
      · rintro _ ⟨⟩
        exact ⟨mode, hformer⟩
      · rintro _ ⟨⟩
        exact ⟨former, mode, hformer, hmakes _ _ hmade⟩
      · rintro _ ⟨⟩
        exact ⟨mode, hrewritten.holds hformer⟩
  | .ok (.wouldApply former updated) =>
      obtain ⟨-, target, mode, htarget', hholds, hmade⟩ := h.foretold former updated rfl
      obtain rfl : target = path := Option.some.inj (htarget'.symm.trans htarget)
      refine ⟨?_, ?_, by simp [Answer.left?], hpath⟩
      · rintro _ ⟨⟩
        exact ⟨mode, hholds⟩
      · rintro _ ⟨⟩
        exact ⟨former, mode, hholds, hmakes _ _ hmade⟩
  | .error (.unwritten named updated cause) =>
      obtain ⟨-, -, target, former, mode, refusal, htarget', hholds, hmade, -⟩ :=
        h.unwritten named updated cause rfl
      obtain rfl : target = path := Option.some.inj (htarget'.symm.trans htarget)
      refine ⟨by simp [Answer.found?], ?_, by simp [Answer.left?], hpath⟩
      rintro _ ⟨⟩
      exact ⟨former, mode, hholds, hmakes _ _ hmade⟩
  | .ok .unchanged | .ok (.skipped _) | .error (.version _) | .error (.invalidSet _)
  | .error (.unreadable _ _) | .error (.edit _ _ _) =>
      exact .of_silent rfl rfl rfl (by simp)

/-- What a step of an operation does with the entries of a set. If it tells that the set as a whole
is not let pass then it tells so of every entry and does nothing, and otherwise names that are not
resolved are refused. -/
structure Stepping (operation : Operation) (set : PatchSet)
    (step : Entry → Checkout → Except TargetError FileResult × Checkout) : Prop where
  truthful : ∀ entry ∈ set.entries, ∀ checkout, ∃ dryRun makes,
    Truthful dryRun checkout (step entry checkout).2 entry.file makes (step entry checkout).1 ∧
      ∀ former updated, makes former updated → operation.Makes entry.file former updated
  stopped : ∀ entry checkout, entry.set = set →
    (Answer.result (step entry checkout).1).isStopped = true →
      ∀ other current, other.set = set → step other current = ((step entry checkout).1, current)
  refused : ∀ entry checkout, entry.set = set →
    (Answer.result (step entry checkout).1).isStopped = false → ∀ cause,
      checkout.workspace.resolve checkout.fs entry.file = .error cause →
        (Answer.result (step entry checkout).1).refusal? = some cause

namespace Stepping

/-- The steps of applying a set. -/
theorem apply (set : PatchSet) (version : Option Text) (dryRun : Bool) :
    Stepping (.apply set version dryRun) set (Entry.apply version dryRun) := by
  refine ⟨?_, ?_, ?_⟩
  · intro entry hentry checkout
    refine ⟨dryRun, _, entry.truthful_apply checkout version dryRun, ?_⟩
    obtain ⟨⟨file, indices⟩, hgroup, rfl⟩ := List.mem_map.mp hentry
    rintro former updated ⟨editor, heditor, hcomposes⟩
    exact ⟨editor, indices, heditor, hgroup, hcomposes⟩
  · rintro entry checkout rfl hstopped other current hset
    unfold Entry.apply Entry.admitted at hstopped ⊢
    rw [hset]
    rcases hadmission : entry.set.admission version with error | editor | reason
    · rfl
    · simp only [hadmission, PatchSet.isStopped_applyFile, Bool.false_eq_true] at hstopped
    · rfl
  · rintro entry checkout rfl hgoes cause hcause
    unfold Entry.apply Entry.admitted at hgoes ⊢
    rcases hadmission : entry.set.admission version with error | editor | reason
    · rw [hadmission] at hgoes
      obtain ⟨known, cause, -, rfl⟩ | ⟨cause, -, rfl⟩ := PatchSet.admission_error_cases hadmission
      · cases hgoes
      · cases hgoes
    · simp only [PatchSet.applyFile, Checkout.read_of_resolve hcause]
      rfl
    · rw [hadmission] at hgoes
      cases hgoes

/-- The steps of reverting a set. -/
theorem revert (set : PatchSet) (dryRun : Bool) :
    Stepping (.revert set dryRun) set (Entry.revert dryRun) := by
  refine ⟨?_, ?_, ?_⟩
  · intro entry hentry checkout
    obtain rfl := PatchSet.set_of_mem_entries hentry
    exact ⟨dryRun, _, entry.truthful_revert checkout dryRun, fun former updated hmade ↦ hmade⟩
  · rintro entry checkout rfl hstopped other current hset
    unfold Entry.revert at hstopped ⊢
    rw [hset]
    cases hprepare : entry.set.prepare with
    | error error => rfl
    | ok editor =>
        simp only [hprepare, PatchSet.isStopped_revertFile, Bool.false_eq_true] at hstopped
  · rintro entry checkout rfl hgoes cause hcause
    unfold Entry.revert at hgoes ⊢
    cases hprepare : entry.set.prepare with
    | error error =>
        rw [hprepare] at hgoes
        obtain ⟨cause, -, rfl⟩ := mapError_error_iff.mp hprepare
        cases hgoes
    | ok editor =>
        simp only [PatchSet.revertFile, Checkout.read_of_resolve hcause]
        rfl

variable {operation : Operation} {set : PatchSet}
  {step : Entry → Checkout → Except TargetError FileResult × Checkout}
  (h : Stepping operation set step) {checkout : Checkout}

include h

/-- A step deals with the target of its name. -/
theorem answered {entry : Entry} (hentry : entry ∈ set.entries) (current : Checkout) :
    Answered operation current (step entry current).2 entry.file
      (.result (step entry current).1) := by
  obtain ⟨dryRun, makes, htruthful, hmakes⟩ := h.truthful entry hentry current
  exact ⟨htruthful.alike, fun path ↦ htruthful.target?_of_changed,
    h.refused entry current (PatchSet.set_of_mem_entries hentry),
    fun path ↦ htruthful.tells hmakes⟩

/-- A visit to the entries of a set that is not let pass tells so of all of them and does
nothing. -/
theorem visit_of_stopped {found : Text × Except TargetError FileResult}
    (hfound : found ∈ (Batch.visit step checkout set.entries).1)
    (hstopped : (Answer.result found.2).isStopped = true) :
    (Batch.visit step checkout set.entries).2 = checkout ∧
      ∀ other ∈ (Batch.visit step checkout set.entries).1, other.2 = found.2 := by
  obtain ⟨entry, hentry, start, -, rfl⟩ := Batch.exists_of_mem_visit (motive := fun _ ↦ True)
    trivial (fun _ _ _ ↦ trivial) hfound
  have hsame := h.stopped entry start (PatchSet.set_of_mem_entries hentry) hstopped
  constructor
  · refine Batch.visit_induction
      (motive := fun rest current ↦ (∀ other ∈ rest, other.set = set) ∧ current = checkout)
      ⟨fun other ↦ PatchSet.set_of_mem_entries, rfl⟩ ?_ |>.2
    rintro other rest current ⟨hset, rfl⟩
    obtain ⟨hother, hrest⟩ := List.forall_mem_cons.mp hset
    exact ⟨hrest, congrArg Prod.snd (hsame other current hother)⟩
  · intro other hother
    obtain ⟨second, hsecond, current, -, rfl⟩ := Batch.exists_of_mem_visit
      (motive := fun _ ↦ True) trivial (fun _ _ _ ↦ trivial) hother
    dsimp only
    rw [hsame second current (PatchSet.set_of_mem_entries hsecond)]

/-- A visit to the entries of a set deals with the targets of their names. -/
theorem keeping_visit (checkout : Checkout) :
    Keeping operation
      ((Batch.visit step checkout set.entries).1.map fun (file, result) ↦ (file, .result result))
      (fun i ↦ (Batch.visit step checkout (set.entries.take i)).2) := by
  constructor
  · intro i file answer hanswer
    rw [List.getElem?_map, Batch.getElem?_visit] at hanswer
    cases hentry : set.entries[i]? with
    | none => simp [hentry] at hanswer
    | some entry =>
        simp only [hentry, Option.map_some, Option.some.injEq, Prod.mk.injEq] at hanswer
        obtain ⟨rfl, rfl⟩ := hanswer
        rw [Batch.visit_take_succ step checkout hentry]
        exact h.answered (List.mem_of_getElem? hentry) _
  · intro file answer hanswer hstopped
    obtain ⟨found, hfound, ⟨⟩⟩ := List.mem_map.mp hanswer
    obtain ⟨hkept, hsame⟩ := h.visit_of_stopped hfound hstopped
    refine ⟨?_, List.forall_mem_map.mpr fun other hother ↦ ?_⟩
    · simp only [List.length_map, Batch.length_visit, List.take_length, hkept, List.take_zero,
        Batch.visit]
    · exact congrArg Answer.result (hsame other hother)

end Stepping

/-! ## Operations -/

namespace Checkout

variable {checkout next : Checkout} {operation : Operation} {file t : Text} {answer : Answer}

/-- An operation has reached the checkout itself before its first name. -/
theorem reached_zero (checkout : Checkout) (operation : Operation) :
    checkout.reached operation 0 = checkout := by
  cases operation <;> rfl

/-- An operation has reached its end behind its last name. -/
theorem reached_length (checkout : Checkout) (operation : Operation) :
    checkout.reached operation (checkout.perform operation).1.length =
      (checkout.perform operation).2 := by
  cases operation with
  | read file => cases hread : checkout.read file <;> simp [reached, perform, hread]
  | write file t => cases hwrite : checkout.write file t <;> simp [reached, perform, hwrite]
  | resolve file =>
      cases hresolve : checkout.workspace.resolve checkout.fs file <;>
        simp [reached, perform, hresolve]
  | apply set version dryRun =>
      simp only [reached, PatchSet.reached, perform, PatchSet.apply_eq_visit, List.length_map,
        Batch.length_visit, List.take_length]
  | revert set dryRun =>
      simp only [reached, perform, PatchSet.revert_eq_visit, List.length_map, Batch.length_visit,
        List.take_length]

/-- An operation on one file deals with the target of its name. -/
theorem keeping_single {reached : Nat → Checkout} (hgoes : answer.isStopped = false)
    (hanswered : Answered operation (reached 0) (reached 1) file answer) :
    Keeping operation [(file, answer)] reached := by
  constructor
  · intro i other found hfound
    cases i with
    | zero =>
        cases hfound
        exact hanswered
    | succ i => cases hfound
  · intro other found hfound hstopped
    cases List.mem_singleton.mp hfound
    rw [hgoes] at hstopped
    cases hstopped

/-- An operation on one file that fails keeps everything. -/
theorem answered_refused {cause : StoreError}
    (hcause : ∀ found, checkout.workspace.resolve checkout.fs file = .error found →
      found = cause) :
    Answered operation checkout checkout file (.refused cause) := by
  refine ⟨.refl checkout, fun path hne ↦ absurd rfl hne, fun _ found hfound ↦ ?_,
    fun path _ ↦ .of_silent rfl rfl rfl (by simp)⟩
  rw [hcause found hfound]
  rfl

/-- Reading deals with the target. -/
theorem keeping_read (checkout : Checkout) (file : Text) :
    Keeping (.read file) (checkout.perform (.read file)).1 (checkout.reached (.read file)) := by
  cases hread : checkout.read file with
  | error cause =>
      simp only [perform, hread]
      refine keeping_single rfl ?_
      simp only [reached, perform, hread]
      refine answered_refused fun found hfound ↦ ?_
      exact Except.error.inj ((read_of_resolve hfound).symm.trans hread)
  | ok found =>
      obtain ⟨t, next⟩ := found
      simp only [perform, hread]
      refine keeping_single rfl ?_
      simp only [reached, perform, hread]
      have hkept := kept_of_read hread
      refine ⟨hkept.alike, fun other hne ↦ ?_, fun _ cause hcause ↦ ?_, fun path htarget ↦ ?_⟩
      · exact absurd (congrArg (·.lookup other) hkept.fs) hne
      · rw [read_of_resolve hcause] at hread
        cases hread
      · obtain ⟨target, mode, htarget', hholds, -⟩ := read_ok_iff.mp hread
        obtain rfl : target = path := Option.some.inj (htarget'.symm.trans htarget)
        refine ⟨?_, by simp [Answer.made?], by simp [Answer.left?], by simp⟩
        rintro _ ⟨⟩
        exact ⟨mode, hholds⟩

/-- Writing deals with the target. -/
theorem keeping_write (checkout : Checkout) (file t : Text) :
    Keeping (.write file t) (checkout.perform (.write file t)).1
      (checkout.reached (.write file t)) := by
  cases hwrite : checkout.write file t with
  | error cause =>
      simp only [perform, hwrite]
      refine keeping_single rfl ?_
      simp only [reached, perform, hwrite]
      refine answered_refused fun found hfound ↦ ?_
      exact Except.error.inj ((write_of_resolve hfound).symm.trans hwrite)
  | ok next =>
      simp only [perform, hwrite]
      refine keeping_single rfl ?_
      simp only [reached, perform, hwrite]
      obtain ⟨path, former, mode, htarget, hlookup, -, -, rfl⟩ := write_ok_iff.mp hwrite
      refine ⟨⟨rfl, .put_file hlookup⟩, fun other hne ↦ ?_, fun _ cause hcause ↦ ?_,
        fun _ _ ↦ .of_silent rfl rfl rfl (by simp)⟩
      · rw [FileSystem.lookup_put_file hlookup] at hne
        obtain rfl : other = path := by
          by_contra hother
          exact hne (if_neg hother)
        exact htarget
      · rw [write_of_resolve hcause] at hwrite
        cases hwrite

/-- Resolving keeps everything and tells of the target. -/
theorem keeping_resolve (checkout : Checkout) (file : Text) :
    Keeping (.resolve file) (checkout.perform (.resolve file)).1
      (checkout.reached (.resolve file)) := by
  cases hresolve : checkout.workspace.resolve checkout.fs file with
  | error cause =>
      simp only [perform, hresolve]
      refine keeping_single rfl ?_
      simp only [reached, perform, hresolve]
      exact answered_refused fun found hfound ↦ Except.error.inj (hfound.symm.trans hresolve)
  | ok target =>
      simp only [perform, hresolve]
      refine keeping_single rfl ?_
      simp only [reached, perform, hresolve]
      refine ⟨.refl checkout, fun other hne ↦ absurd rfl hne, fun _ cause hcause ↦ ?_,
        fun path htarget ↦ ?_⟩
      · rw [hresolve] at hcause
        cases hcause
      · refine ⟨by simp [Answer.found?], by simp [Answer.made?], by simp [Answer.left?], ?_⟩
        rintro _ ⟨⟩
        exact Except.ok.inj (hresolve.symm.trans (toOption_eq_some_iff.mp htarget))

/-- Every operation deals with the targets of its names. -/
theorem keeping_perform (checkout : Checkout) (operation : Operation) :
    Keeping operation (checkout.perform operation).1 (checkout.reached operation) := by
  cases operation with
  | read file => exact keeping_read checkout file
  | write file t => exact keeping_write checkout file t
  | resolve file => exact keeping_resolve checkout file
  | apply set version dryRun =>
      simp only [perform, PatchSet.apply_eq_visit]
      exact (Stepping.apply set version dryRun).keeping_visit checkout
  | revert set dryRun =>
      simp only [perform, PatchSet.revert_eq_visit]
      exact (Stepping.revert set dryRun).keeping_visit checkout

/-- There is one answer for every name that an operation is given, in their order. -/
theorem map_fst_perform (checkout : Checkout) (operation : Operation) :
    (checkout.perform operation).1.map (·.1) = operation.files := by
  cases operation with
  | read file => cases hread : checkout.read file <;> simp [perform, hread, Operation.files]
  | write file t => cases hwrite : checkout.write file t <;> simp [perform, hwrite, Operation.files]
  | resolve file =>
      cases hresolve : checkout.workspace.resolve checkout.fs file <;>
        simp [perform, hresolve, Operation.files]
  | apply set version dryRun =>
      simp only [perform, PatchSet.apply_eq_visit, List.map_map, Operation.files]
      exact Batch.map_fst_visit.trans (by simp [PatchSet.entries])
  | revert set dryRun =>
      simp only [perform, PatchSet.revert_eq_visit, List.map_map, Operation.files]
      exact Batch.map_fst_visit.trans (by simp [PatchSet.entries])

/-- An operation keeps where paths lead, whatever it has come to. -/
theorem alike_reached (checkout : Checkout) (operation : Operation) {i : Nat}
    (hi : i ≤ (checkout.perform operation).1.length) :
    (checkout.reached operation i).Alike checkout := by
  have halike := (keeping_perform checkout operation).alike hi
  rwa [reached_zero] at halike

/-- Operations keep where paths lead. -/
theorem alike_performAll (start : Checkout) (history : List Operation) :
    (start.performAll history).Alike start := by
  induction history generalizing start with
  | nil => exact .refl start
  | cons operation rest ih =>
      refine (ih (start.perform operation).2).trans ?_
      rw [← reached_length]
      exact alike_reached start operation (Nat.le_refl _)

/-! ## What lies outside -/

/-- In checkouts that agree below the root an operation comes to the same. -/
theorem perform_agree {a b : Checkout} (h : AgreeBelow a b) (operation : Operation) :
    SameStep (a.perform operation) (b.perform operation) := by
  cases operation with
  | read file =>
      obtain ⟨cause, ha, hb⟩ | ⟨t, next, next', ha, hb, hnext⟩ := h.read_cases file
      · simp only [perform, ha, hb]
        exact ⟨rfl, h⟩
      · simp only [perform, ha, hb]
        exact ⟨rfl, hnext⟩
  | write file t =>
      obtain ⟨cause, ha, hb⟩ | ⟨next, next', ha, hb, hnext⟩ := h.write_cases file t
      · simp only [perform, ha, hb]
        exact ⟨rfl, h⟩
      · simp only [perform, ha, hb]
        exact ⟨rfl, hnext⟩
  | resolve file =>
      simp only [perform, h.alike.resolve_eq]
      split
      · exact ⟨rfl, h⟩
      · exact ⟨rfl, h⟩
  | apply set version dryRun =>
      obtain ⟨hresults, hagree⟩ := set.apply_agree h dryRun version
      exact ⟨by simp only [perform, hresults], hagree⟩
  | revert set dryRun =>
      obtain ⟨hresults, hagree⟩ := set.revert_agree h dryRun
      exact ⟨by simp only [perform, hresults], hagree⟩

/-- Checkouts that agree below the root do so after any operations. -/
theorem performAll_agree {a b : Checkout} (h : AgreeBelow a b) (history : List Operation) :
    AgreeBelow (a.performAll history) (b.performAll history) := by
  induction history generalizing a b with
  | nil => exact h
  | cons operation rest ih => exact ih (perform_agree h operation).agree

/-- Whatever has been done with a checkout, the next operation changes only files below its root,
and answers only about such files: each text in its answer about a name is the one that the target
holds when the operation comes to the name or leaves it, or is made of that. So the answers are the
same if other files hold something else. A name that leads to something that is not below the root
is refused, and nothing is changed there. Only if a set as a whole is not let pass, the same is told
of all its names, and nothing is done at all. -/
theorem stays_below_root (start : Checkout) (history : List Operation) (operation : Operation) :
    let now := start.performAll history
    let answers := (now.perform operation).1
    let next := (now.perform operation).2
    now.workspace.root = start.workspace.root ∧
    answers.map (·.1) = operation.files ∧
    (∀ path, next.fs.lookup path ≠ now.fs.lookup path → now.Confined path) ∧
    (∀ other, AgreeBelow other start →
      ((other.performAll history).perform operation).1 = answers) ∧
    now.reached operation 0 = now ∧ now.reached operation answers.length = next ∧
    ∀ i file answer, answers[i]? = some (file, answer) →
      (answer.isStopped = true → next = now ∧ ∀ other ∈ answers, other.2 = answer) ∧
      (answer.isStopped = false → answer.refusal? = none →
        ∃ path, now.target? file = some path ∧ now.Confined path ∧
          Tells operation (now.reached operation i) (now.reached operation (i + 1)) file path
            answer) ∧
      ∀ path, now.leadsTo file = .ok path → ¬ now.workspace.root <+: path →
        next.fs.lookup path = now.fs.lookup path ∧
        (answer.isStopped = false →
          answer.refusal? = some (.outsideRoot path.render now.workspace.root.render)) := by
  intro now answers next
  have hkeeping : Keeping operation answers (now.reached operation) :=
    keeping_perform now operation
  have hstart : now.reached operation 0 = now := reached_zero now operation
  have hend : now.reached operation answers.length = next := reached_length now operation
  have hchanged : ∀ path, next.fs.lookup path ≠ now.fs.lookup path → now.Confined path := by
    intro path hchanged
    obtain ⟨file, htarget⟩ : ∃ file, (now.reached operation 0).target? file = some path := by
      refine hkeeping.exists_target_of_changed (Nat.le_refl _) ?_
      rwa [hstart, hend]
    rw [hstart] at htarget
    exact confined_of_target? htarget
  refine ⟨(alike_performAll start history).root, map_fst_perform now operation, hchanged,
    fun other hother ↦ (perform_agree (performAll_agree hother history) operation).result,
    hstart, hend, fun i file answer hanswer ↦ ?_⟩
  obtain ⟨hi, -⟩ := List.getElem?_eq_some_iff.mp hanswer
  have halike : (now.reached operation i).Alike now :=
    alike_reached now operation (Nat.le_of_lt hi)
  obtain ⟨-, -, hrefused, htells⟩ := hkeeping.answered i file answer hanswer
  rw [halike.resolve_eq] at hrefused
  rw [halike.target?_eq] at htells
  refine ⟨fun hstopped ↦ ?_, fun hgoes haccessed ↦ ?_, fun path hleads houtside ↦ ?_⟩
  · have hsame := hkeeping.stopped file answer (List.mem_of_getElem? hanswer) hstopped
    rwa [hstart, hend] at hsame
  · cases hresolve : now.workspace.resolve now.fs file with
    | error cause =>
        rw [hrefused hgoes cause hresolve] at haccessed
        cases haccessed
    | ok path =>
        have htarget : now.target? file = some path := toOption_eq_some_iff.mpr hresolve
        exact ⟨path, htarget, confined_of_target? htarget, htells path htarget⟩
  · refine ⟨?_, fun hgoes ↦ hrefused hgoes _ (resolve_of_outside hleads houtside)⟩
    by_contra hne
    exact houtside (hchanged path hne).2

/-- A link in the root leads out of it. Applying a set to the link is refused when the version of
the target lets the set pass. When the set is skipped, or the version cannot be read, or the set has
no editor, it is this that is told of the link. -/
theorem stopped_outside_root :
    let fs : FileSystem :=
      { entries := [([['r']], .directory 0o755), ([['r'], ['l']], .link "../o".toList),
          ([['o']], .file (FileSystem.encode ['x']) 0o644)] }
    let checkout : Checkout := ⟨fs, ⟨[['r']], digest, []⟩⟩
    let set : PatchSet :=
      { info := { owner := ['a'], style := .hash, versionRange := some ">=2".toList }
        patches := [{ file := ['l'], search := some ['x'], after := ['z'] }] }
    let nameless : PatchSet := { set with info := { set.info with owner := [] } }
    Workspace.at? fs [] ['/', 'r'] = .ok checkout.workspace ∧
      checkout.leadsTo ['l'] = .ok [['o']] ∧ ¬ checkout.workspace.root <+: [['o']] ∧
      (checkout.perform (.apply set (some ['2']) false)).1 =
        [(['l'], .result (.error (.unreadable ['l'] (.outsideRoot ['/', 'o'] ['/', 'r']))))] ∧
      (checkout.perform (.apply set (some ['1']) false)).1 =
        [(['l'], .result (.ok (.skipped
          "target version 1 does not satisfy version_range >=2")))] ∧
      (checkout.perform (.apply set (some ['?']) false)).1 =
        [(['l'], .result (.error (.version (.version ['?'] (.unexpectedChar .major '?')))))] ∧
      ∃ cause, (checkout.perform (.revert nameless false)).1 =
        [(['l'], .result (.error (.invalidSet cause)))] := by
  intro fs checkout set nameless
  have hroot : Workspace.at? fs [] ['/', 'r'] = .ok checkout.workspace := by
    simp [fs, checkout, Workspace.at?, FileSystem.resolve, FileSystem.resolveFor, FileSystem.walk,
      FileSystem.isDirectory, FileSystem.lookup, FileSystem.maxNameSize, FileSystem.maxPathSize,
      PathText.isAbsolute, Path.render, Text.splitOn, Char.utf8Size]
  have hleads : checkout.leadsTo ['l'] = .ok [['o']] := by
    simp [fs, checkout, leadsTo, FileSystem.resolve, FileSystem.resolveFor, FileSystem.walk,
      FileSystem.isDirectory, FileSystem.lookup, FileSystem.maxNameSize, FileSystem.maxPathSize,
      FileSystem.maxLinks, PathText.join, PathText.isAbsolute, Path.render, Text.splitOn,
      Char.utf8Size]
  have houtside : ¬ checkout.workspace.root <+: [['o']] := by
    simp only [checkout]
    decide
  let editor : Editor :=
    { owner := ⟨['a'], by simp, List.forall_mem_singleton.mpr rfl⟩, style := .hash
      usable := by decide, scope := .file }
  have hpass : set.admission (some ['2']) = .ok (.run editor) := rfl
  have hskip : set.admission (some ['1']) =
      .ok (.skip "target version 1 does not satisfy version_range >=2") := rfl
  have hfault : set.admission (some ['?']) =
      .error (.version (.version ['?'] (.unexpectedChar .major '?'))) := rfl
  have hfiles : set.files = [(['l'], [0])] := rfl
  have hread := read_of_resolve (resolve_of_outside hleads houtside)
  refine ⟨hroot, hleads, houtside, ?_, ?_, ?_, _, rfl⟩
  · simp only [perform, PatchSet.apply, hpass, hfiles, PatchSet.forFiles, PatchSet.applyFile, hread]
    rfl
  · simp only [perform, PatchSet.apply, hskip, hfiles]
    rfl
  · simp only [perform, PatchSet.apply, hfault, hfiles]
    rfl

end Checkout

end MarkedEdits
