import MarkedEdits.Proofs.FileSystem.Checkout

/-!
# Changes made by others

While files are read and written through a checkout, others may change the file system in between. A
checkout remembers the digest of what it last read or wrote in a file
(`Checkout.seen?_afterAll`), and it overwrites the file only while the file has that digest
(`Checkout.no_lost_update`). A change of somebody else stays in place until it is taken back or the
file is read again (`Checkout.exists_error_of_staysStale`).
-/

namespace MarkedEdits

/-- What happens to a checkout: a file is read or written through it, which the operating system may
refuse just then, or somebody else puts another file system in the place of its own. -/
inductive Event where
  | read (file : Text) (refusal : Option SystemError)
  | write (file t : Text) (refusal : Option SystemError)
  | outside (fs : FileSystem)

/-- The file that is read or written. -/
def Event.file? : Event → Option Text
  | read file _ | write file _ _ => some file
  | outside _ => none

namespace Checkout

/-- The access, which the operating system may refuse in the end. -/
def unlessRefused {α : Type} (refusal : Option SystemError) (access : Except StoreError α) :
    Except StoreError α :=
  match refusal with
  | none => access
  | some cause => access.bind fun _ ↦ .error (.system cause)

/-- An access succeeds when it is not refused and would succeed. -/
theorem unlessRefused_ok_iff {α : Type} {refusal : Option SystemError}
    {access : Except StoreError α} {a : α} :
    unlessRefused refusal access = .ok a ↔ refusal = none ∧ access = .ok a := by
  cases refusal with
  | none => simp [unlessRefused]
  | some cause => cases access <;> simp [unlessRefused, Except.bind]

/-- The operating system does not report that a file has changed. -/
theorem modified_of_unlessRefused {α : Type} {refusal : Option SystemError}
    {access : Except StoreError α} {rendered : Text}
    (h : unlessRefused refusal access = .error (.modified rendered)) :
    access = .error (.modified rendered) := by
  cases refusal with
  | none => exact h
  | some cause => cases access <;> simp_all [unlessRefused, Except.bind]

/-- The checkout that the event makes, or why the access fails. -/
def attempt (checkout : Checkout) : Event → Except StoreError Checkout
  | .read file refusal => unlessRefused refusal ((checkout.read file).map (·.2))
  | .write file t refusal => unlessRefused refusal (checkout.write file t)
  | .outside fs => .ok { checkout with fs }

/-- The checkout after the event. An access that fails leaves it as it was. -/
def after (checkout : Checkout) (event : Event) : Checkout :=
  match checkout.attempt event with
  | .ok next => next
  | .error _ => checkout

/-- The checkout after the events, one after the other. -/
def afterAll (checkout : Checkout) (events : List Event) : Checkout :=
  events.foldl after checkout

/-- The event reads or writes the file at the path and does not fail. -/
def Accesses (checkout : Checkout) (path : Path) (event : Event) : Prop :=
  event.file?.bind checkout.target? = some path ∧ (checkout.attempt event).isOk

instance (checkout : Checkout) (path : Path) (event : Event) :
    Decidable (checkout.Accesses path event) :=
  inferInstanceAs (Decidable (_ ∧ _))

/-- The content in which the event leaves the file at the path, if it reads or writes the file. -/
def learned (checkout : Checkout) (path : Path) (event : Event) : Option ByteArray :=
  if checkout.Accesses path event then ((checkout.after event).fs.content path).toOption else none

/-- The content that the file at the path had when it was last read or written without failure. -/
def lastKnown (path : Path) : Checkout → List Event → Option ByteArray
  | _, [] => none
  | checkout, event :: rest =>
      (lastKnown path (checkout.after event) rest).or (checkout.learned path event)

/-- The file at the path has no content with the digest. -/
def Differs (checkout : Checkout) (path : Path) (recorded : UInt64) : Prop :=
  ∀ content, checkout.fs.content path = .ok content → checkout.workspace.digest content ≠ recorded

/-- The event reads the file at the path again. -/
def Rereads (checkout : Checkout) (path : Path) (event : Event) : Prop :=
  checkout.Accesses path event ∧ ∃ file refusal, event = .read file refusal

/-- From the checkout on and through the events, the file at the path never has a content with the
digest and is not read again. -/
def StaysStale (path : Path) (recorded : UInt64) : Checkout → List Event → Prop
  | checkout, [] => checkout.Differs path recorded
  | checkout, event :: rest =>
      checkout.Differs path recorded ∧ ¬ checkout.Rereads path event ∧
        StaysStale path recorded (checkout.after event) rest

variable {checkout next : Checkout} {path : Path} {event : Event} {events : List Event}

/-! ## What a checkout remembers -/

/-- An event that does not fail is somebody else's, or reads or writes a file, whose content is then
remembered. -/
theorem attempt_ok_cases (h : checkout.attempt event = .ok next) :
    (∃ fs, event = .outside fs ∧ next = { checkout with fs }) ∨
      ∃ target content, event.file?.bind checkout.target? = some target ∧
        next.fs.content target = .ok content ∧
        next.workspace = checkout.workspace.remember target content := by
  cases event with
  | read file refusal =>
      obtain ⟨-, ⟨t, next⟩, hread, rfl⟩ := by
        simpa only [attempt, unlessRefused_ok_iff, map_ok_iff] using h
      obtain ⟨target, mode, htarget, hholds, rfl⟩ := read_ok_iff.mp hread
      exact .inr ⟨target, _, htarget, FileSystem.content_ok_iff.mpr ⟨mode, hholds⟩, rfl⟩
  | write file t refusal =>
      obtain ⟨-, hwrite⟩ := unlessRefused_ok_iff.mp h
      obtain ⟨target, former, mode, htarget, hlookup, -, -, rfl⟩ := write_ok_iff.mp hwrite
      refine .inr ⟨target, _, htarget, FileSystem.content_ok_iff.mpr ⟨mode, ?_⟩, rfl⟩
      rw [FileSystem.lookup_put_file hlookup, if_pos rfl]
  | outside fs => exact .inl ⟨fs, rfl, (Except.ok.inj h).symm⟩

/-- An event that fails leaves everything as it was. -/
theorem after_of_error {cause : StoreError} (h : checkout.attempt event = .error cause) :
    checkout.after event = checkout := by
  rw [after, h]

/-- An event that does not fail leaves the checkout that it makes. -/
theorem after_of_ok (h : checkout.attempt event = .ok next) : checkout.after event = next := by
  rw [after, h]

/-- Nobody changes the digest in use. -/
theorem digest_after (checkout : Checkout) (event : Event) :
    (checkout.after event).workspace.digest = checkout.workspace.digest := by
  cases hattempt : checkout.attempt event with
  | error cause => rw [after_of_error hattempt]
  | ok next =>
      rw [after_of_ok hattempt]
      obtain ⟨fs, -, rfl⟩ | ⟨target, content, -, -, hnext⟩ := attempt_ok_cases hattempt
      · rfl
      · rw [hnext, Workspace.remember]

/-- An event lets the checkout remember the content that it leaves in the file that it reads or
writes, and nothing else. -/
theorem seen?_after (checkout : Checkout) (path : Path) (event : Event) :
    (checkout.after event).workspace.seen? path =
      ((checkout.learned path event).map checkout.workspace.digest).or
        (checkout.workspace.seen? path) := by
  cases hattempt : checkout.attempt event with
  | error cause =>
      simp [after_of_error hattempt, learned, Accesses, hattempt, Except.isOk, Except.toBool]
  | ok next =>
      obtain ⟨fs, rfl, rfl⟩ | ⟨target, content, htarget, hcontent, hnext⟩ :=
        attempt_ok_cases hattempt
      · rw [after_of_ok hattempt]
        simp [learned, Accesses, Event.file?]
      · simp only [learned, Accesses, after_of_ok hattempt, htarget, hattempt, hnext]
        by_cases heq : target = path
        · subst heq
          simp [hcontent, Workspace.seen?_remember, Except.isOk, Except.toBool, Except.toOption]
        · simp [heq, Workspace.seen?_remember_of_ne (Ne.symm heq)]

/-- Nobody changes the digest in use. -/
theorem digest_afterAll (checkout : Checkout) (events : List Event) :
    (checkout.afterAll events).workspace.digest = checkout.workspace.digest := by
  induction events generalizing checkout with
  | nil => rfl
  | cons event rest ih => exact (ih (checkout.after event)).trans (digest_after checkout event)

/-- A checkout remembers the digest of the content that a file had when it was last read or
written. -/
theorem seen?_afterAll (checkout : Checkout) (path : Path) (events : List Event) :
    (checkout.afterAll events).workspace.seen? path =
      ((lastKnown path checkout events).map checkout.workspace.digest).or
        (checkout.workspace.seen? path) := by
  induction events generalizing checkout with
  | nil => rfl
  | cons event rest ih =>
      rw [afterAll, List.foldl_cons, ← afterAll, ih, seen?_after, digest_after, lastKnown,
        Option.map_or, Option.or_assoc]

/-! ## Changes that are kept -/

/-- A write goes through when the operating system does not refuse it and the target is a file that
may be written and holds what is remembered of it. -/
theorem exists_attempt_write_iff {file t : Text} {refusal : Option SystemError} :
    (∃ next, checkout.attempt (.write file t refusal) = .ok next) ↔
      refusal = none ∧ ∃ path current, checkout.target? file = some path ∧
        checkout.fs.content path = .ok current ∧ checkout.fs.refusal? path = none ∧
        ∀ recorded ∈ checkout.workspace.seen? path,
          checkout.workspace.digest current = recorded := by
  simp only [attempt, unlessRefused_ok_iff, write_ok_iff, FileSystem.content_ok_iff]
  constructor
  · rintro ⟨next, hrefusal, path, current, mode, htarget, hlookup, hallowed, hseen, -⟩
    exact ⟨hrefusal, path, current, htarget, ⟨mode, hlookup⟩, hallowed, hseen⟩
  · rintro ⟨hrefusal, path, current, htarget, ⟨mode, hlookup⟩, hallowed, hseen⟩
    exact ⟨_, hrefusal, path, current, mode, htarget, hlookup, hallowed, hseen, rfl⟩

/-- A write to a file that does not hold what is remembered of it fails. -/
theorem exists_error_of_differs {file t : Text} {refusal : Option SystemError} {recorded : UInt64}
    (hseen : checkout.workspace.seen? path = some recorded)
    (hdiffers : checkout.Differs path recorded) (htarget : checkout.target? file = some path) :
    ∃ cause, checkout.attempt (.write file t refusal) = .error cause := by
  cases hattempt : checkout.attempt (.write file t refusal) with
  | error cause => exact ⟨cause, rfl⟩
  | ok next =>
      obtain ⟨-, other, current, hother, hcurrent, -, hsame⟩ :=
        exists_attempt_write_iff.mp ⟨next, hattempt⟩
      obtain rfl : path = other := Option.some.inj (htarget.symm.trans hother)
      exact absurd (hsame recorded hseen) (hdiffers current hcurrent)

/-- An event that does not read a changed file again lets the checkout learn nothing of it. -/
theorem learned_of_differs {recorded : UInt64}
    (hseen : checkout.workspace.seen? path = some recorded)
    (hdiffers : checkout.Differs path recorded) (hunread : ¬ checkout.Rereads path event) :
    checkout.learned path event = none := by
  refine if_neg fun haccess ↦ ?_
  cases event with
  | read file refusal => exact hunread ⟨haccess, file, refusal, rfl⟩
  | write file t refusal =>
      obtain ⟨htarget, hok⟩ := haccess
      obtain ⟨cause, hcause⟩ := exists_error_of_differs (t := t) hseen hdiffers htarget
      rw [hcause] at hok
      cases hok
  | outside fs => cases haccess.1

/-- A changed file stays as somebody else leaves it until the change is taken back or the file is
read again: every write to it fails. -/
theorem exists_error_of_staysStale {file t : Text} {refusal : Option SystemError}
    {recorded : UInt64} (hseen : checkout.workspace.seen? path = some recorded)
    (hstale : StaysStale path recorded checkout events)
    (htarget : (checkout.afterAll events).target? file = some path) :
    ∃ cause, (checkout.afterAll events).attempt (.write file t refusal) = .error cause := by
  -- as long as the file is stale, the checkout remembers the digest that it remembered at first
  induction events generalizing checkout with
  | nil => exact exists_error_of_differs hseen hstale htarget
  | cons event rest ih =>
      obtain ⟨hdiffers, hunread, hrest⟩ := hstale
      have hkept : (checkout.after event).workspace.seen? path = some recorded := by
        rw [seen?_after, learned_of_differs hseen hdiffers hunread, hseen]
        rfl
      exact ih hkept hrest htarget

/-- No change of somebody else is lost. A write goes through exactly if the operating system lets it
and the target is a file that may be written, with the digest of the content that the file had when
it was last read or written. An access that fails changes nothing, so a file that is found changed
is not written until the change is taken back or the file is read again. -/
theorem no_lost_update {start : Checkout} (hfresh : start.workspace.seen = [])
    (events : List Event) :
    let now := start.afterAll events
    let digest := start.workspace.digest
    (∀ file t refusal, (∃ next, now.attempt (.write file t refusal) = .ok next) ↔
      refusal = none ∧ ∃ path current, now.target? file = some path ∧
        now.fs.content path = .ok current ∧ now.fs.refusal? path = none ∧
        ∀ known ∈ lastKnown path start events, digest current = digest known) ∧
    (∀ event cause, now.attempt event = .error cause → now.after event = now) ∧
    ∀ file t refusal rendered path,
      now.attempt (.write file t refusal) = .error (.modified rendered) →
      now.target? file = some path →
      ∃ known, lastKnown path start events = some known ∧ now.Differs path (digest known) ∧
        ∀ more, StaysStale path (digest known) now more →
          ∀ file' t' refusal', (now.afterAll more).target? file' = some path →
            ∃ cause, (now.afterAll more).attempt (.write file' t' refusal') = .error cause := by
  intro now digest
  have hdigest : now.workspace.digest = digest := digest_afterAll start events
  have hseen : ∀ path, now.workspace.seen? path = (lastKnown path start events).map digest := by
    intro path
    rw [seen?_afterAll, Workspace.seen?, hfresh]
    exact Option.or_none
  refine ⟨?_, fun event cause ↦ after_of_error, ?_⟩
  · intro file t refusal
    simp only [exists_attempt_write_iff, hdigest, hseen, Option.mem_def, Option.map_eq_some_iff,
      forall_exists_index, and_imp, forall_apply_eq_imp_iff₂]
  · intro file t refusal rendered path hmodified htarget
    obtain ⟨other, current, recorded, hother, hcurrent, hrecorded, hne, -⟩ :=
      write_modified_iff.mp (modified_of_unlessRefused hmodified)
    obtain rfl : path = other := Option.some.inj (htarget.symm.trans hother)
    obtain ⟨known, hknown, rfl⟩ := Option.map_eq_some_iff.mp ((hseen path).symm.trans hrecorded)
    refine ⟨known, hknown, ?_, ?_⟩
    · intro content hcontent
      rwa [← Except.ok.inj (hcurrent.symm.trans hcontent)]
    · intro more hstale file' t' refusal' htarget'
      exact exists_error_of_staysStale hrecorded hstale htarget'

/-- While the only file of a tree is edited, somebody else writes to it. The edit is not written
over the change, and is written as soon as the change is taken back. -/
theorem no_lost_update_taken_back :
    let start := single ['a']
    let now := start.afterAll [.read ['f'] none, .outside (single ['b']).fs]
    start.workspace.seen = [] ∧
      now.attempt (.write ['f'] ['c'] none) = .error (.modified ['/', 'f']) ∧
      (∃ cause, (now.after (.outside (single ['d']).fs)).attempt (.write ['f'] ['c'] none) =
        .error cause) ∧
      ∃ next, (now.after (.outside start.fs)).attempt (.write ['f'] ['c'] none) = .ok next := by
  intro start now
  have hread := read_ok_iff.mpr ⟨_, _, target?_single ['a'], holds_single ['a'], rfl⟩
  have hafter : start.after (.read ['f'] none) =
      { start with workspace := start.workspace.remember [['f']] (FileSystem.encode ['a']) } := by
    simp [start, after, attempt, unlessRefused, hread, Except.map]
  have hnow : now =
      ⟨(single ['b']).fs, start.workspace.remember [['f']] (FileSystem.encode ['a'])⟩ := by
    simp only [now, afterAll, List.foldl_cons, hafter, List.foldl_nil]
    rfl
  have hseen : now.workspace.seen? [['f']] =
      some (start.workspace.digest (FileSystem.encode ['a'])) := by
    rw [hnow]
    exact Workspace.seen?_remember _ _
  have htarget (t : Text) : (now.after (.outside (single t).fs)).target? ['f'] = some [['f']] := by
    rw [hnow]
    exact target?_single t
  have hmodified : now.attempt (.write ['f'] ['c'] none) = .error (.modified ['/', 'f']) :=
    write_modified_iff.mpr ⟨[['f']], FileSystem.encode ['b'], _, htarget ['b'], by rw [hnow]; rfl,
      hseen, by rw [hnow]; decide +kernel, rfl⟩
  obtain ⟨-, -, hkept⟩ :=
    no_lost_update (rfl : start.workspace.seen = []) [.read ['f'] none, .outside (single ['b']).fs]
  obtain ⟨known, hknown, hdiffers, hstays⟩ :=
    hkept ['f'] ['c'] none ['/', 'f'] [['f']] hmodified (htarget ['b'])
  have hrecorded : start.workspace.digest known =
      start.workspace.digest (FileSystem.encode ['a']) := by
    have hlast := seen?_afterAll start [['f']] [.read ['f'] none, .outside (single ['b']).fs]
    rw [hknown] at hlast
    exact Option.some.inj (hlast.symm.trans hseen)
  have hstale : StaysStale [['f']] (start.workspace.digest known) now
      [.outside (single ['d']).fs] := by
    refine ⟨hdiffers, fun hreread ↦ ?_, fun content hcontent ↦ ?_⟩
    · obtain ⟨-, file, refusal, hevent⟩ := hreread
      cases hevent
    · have hd : FileSystem.encode ['d'] = content := Except.ok.inj hcontent
      rw [← hd, hrecorded, hnow]
      decide +kernel
  refine ⟨rfl, hmodified, ?_, ?_⟩
  · exact hstays _ hstale ['f'] ['c'] none (htarget ['d'])
  · refine exists_attempt_write_iff.mpr
      ⟨rfl, [['f']], FileSystem.encode ['a'], htarget ['a'], rfl, rfl,
        fun expected hexpected ↦ ?_⟩
    have hdigest := digest_afterAll start [.read ['f'] none, .outside (single ['b']).fs]
    exact (congrFun hdigest _).trans (Option.some.inj (hseen.symm.trans hexpected))

end Checkout

end MarkedEdits
