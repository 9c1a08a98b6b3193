import MarkedEdits.Proofs.FileSystem.Contents
import MarkedEdits.Proofs.Steps
import MarkedEdits.Workspace

/-!
# Reading and writing in a checkout

A path leads to a file of the checkout, its target, or is refused. Reading finds the text that the
target holds (`Checkout.read_ok_iff`). Writing puts a text into the target, provided that the target
still is what was last read or written there and that the operating system lets it be written
(`Checkout.write_ok_iff`). So whether a file that has just been read can be written is up to the
operating system (`Checkout.write_of_read`, `Checkout.write_of_refusal`). Neither changes where
paths lead.
-/

namespace MarkedEdits

namespace Workspace

variable {workspace : Workspace}

/-- The content that a workspace remembers for a file is the last one. -/
theorem seen?_remember (path : Path) (content : ByteArray) :
    (workspace.remember path content).seen? path = some (workspace.digest content) := by
  simp [seen?, remember]

/-- Of the other files a workspace remembers what it did. -/
theorem seen?_remember_of_ne {path other : Path} (hne : other ≠ path) (content : ByteArray) :
    (workspace.remember path content).seen? other = workspace.seen? other := by
  simp [seen?, remember, Ne.symm hne]

/-- A file is let pass when nothing is remembered of it, or the digest of what it holds. -/
theorem guardUnmodified_ok_iff {fs : FileSystem} {path : Path} {content : ByteArray}
    (hcontent : fs.content path = .ok content) :
    workspace.guardUnmodified fs path = .ok () ↔
      ∀ expected ∈ workspace.seen? path, workspace.digest content = expected := by
  unfold guardUnmodified
  cases workspace.seen? path with
  | none => simp
  | some expected => simp [hcontent]

/-- A file is taken for changed when it does not hold what is remembered of it. -/
theorem guardUnmodified_modified_iff {fs : FileSystem} {path : Path} {rendered : Text} :
    workspace.guardUnmodified fs path = .error (.modified rendered) ↔
      ∃ current recorded, fs.content path = .ok current ∧ workspace.seen? path = some recorded ∧
        workspace.digest current ≠ recorded ∧ path.render = rendered := by
  unfold guardUnmodified
  cases hseen : workspace.seen? path with
  | none => simp
  | some recorded =>
      cases hcontent : fs.content path with
      | error cause => simp
      | ok current =>
          by_cases hsame : workspace.digest current = recorded <;> simp [hsame]

/-- A path that cannot be resolved is not taken for a changed file. -/
theorem resolve_ne_modified (fs : FileSystem) (file rendered : Text) :
    workspace.resolve fs file ≠ .error (.modified rendered) := by
  unfold resolve
  dsimp only
  split
  · simp
  · split <;> simp

end Workspace

namespace Checkout

/-- The resolved path of the file that a path leads to. -/
def target? (checkout : Checkout) (file : Text) : Option Path :=
  (checkout.workspace.resolve checkout.fs file).toOption

/-- The checkouts have one root, and their file systems differ in the contents of files only. -/
structure Alike (a b : Checkout) : Prop where
  root : a.workspace.root = b.workspace.root
  fs : a.fs.Alike b.fs

variable {checkout next : Checkout} {file t : Text} {path : Path} {mode : Nat}

/-! ## Targets -/

namespace Alike

/-- A checkout is like itself. -/
theorem refl (checkout : Checkout) : Alike checkout checkout :=
  ⟨rfl, .refl _⟩

/-- What a checkout is like is like it. -/
theorem symm {a b : Checkout} (h : Alike a b) : Alike b a :=
  ⟨h.root.symm, h.fs.symm⟩

/-- Checkouts like a third one are alike. -/
theorem trans {a b c : Checkout} (h : Alike a b) (h' : Alike b c) : Alike a c :=
  ⟨h.root.trans h'.root, h.fs.trans h'.fs⟩

/-- In checkouts that are alike a path is resolved to the same place, or refused in the same way. -/
theorem resolve_eq {a b : Checkout} (h : Alike a b) (file : Text) :
    a.workspace.resolve a.fs file = b.workspace.resolve b.fs file := by
  unfold Workspace.resolve FileSystem.resolve
  simp only [h.root, h.fs.resolveFor_eq]

/-- In checkouts that are alike a path leads to the same file. -/
theorem target?_eq {a b : Checkout} (h : Alike a b) (file : Text) :
    a.target? file = b.target? file := by
  rw [target?, target?, h.resolve_eq]

end Alike

/-! ## Reading and writing -/

/-- In checkouts that are alike the same text is read from a file, or reading fails in the same way,
if the target of the file is the same. -/
theorem Alike.map_read_eq {a b : Checkout} (h : a.Alike b) {file : Text}
    (hsame : ∀ path, b.target? file = some path → a.fs.lookup path = b.fs.lookup path) :
    (a.read file).map (·.1) = (b.read file).map (·.1) := by
  unfold read Workspace.read
  rw [h.resolve_eq]
  cases htarget : b.workspace.resolve b.fs file with
  | error cause => rfl
  | ok path =>
      have hcontent : a.fs.content path = b.fs.content path := by
        unfold FileSystem.content
        rw [hsame path (toOption_eq_some_iff.mpr htarget)]
      dsimp only [bind, Except.bind]
      rw [hcontent]
      cases (b.fs.content path).mapError StoreError.system with
      | error cause => rfl
      | ok content =>
          dsimp only
          cases (FileSystem.decode content).mapError StoreError.system <;> rfl

/-- Reading finds the text that the target holds, and remembers it. -/
theorem read_ok_iff :
    checkout.read file = .ok (t, next) ↔ ∃ path mode, checkout.target? file = some path ∧
      checkout.fs.Holds path t mode ∧
      next = { checkout with
        workspace := checkout.workspace.remember path (FileSystem.encode t) } := by
  have hread : checkout.read file = .ok (t, next) ↔
      ∃ path, checkout.target? file = some path ∧ ∃ content,
        (checkout.fs.content path = .ok content ∧ FileSystem.decode content = .ok t) ∧
        next = { checkout with workspace := checkout.workspace.remember path content } := by
    simp only [read, Workspace.read, target?, toOption_eq_some_iff, map_ok_iff, bind_ok_iff,
      mapError_ok_iff]
    constructor
    · rintro ⟨_, ⟨path, htarget, content, hcontent, t, hdecode, ⟨⟩⟩, ⟨⟩⟩
      exact ⟨path, htarget, content, ⟨hcontent, hdecode⟩, rfl⟩
    · rintro ⟨path, htarget, content, ⟨hcontent, hdecode⟩, rfl⟩
      exact ⟨_, ⟨path, htarget, content, hcontent, t, hdecode, rfl⟩, rfl⟩
  rw [hread]
  constructor
  · rintro ⟨path, htarget, content, hcontent, rfl⟩
    obtain ⟨mode, hholds⟩ := FileSystem.holds_iff.mpr ⟨content, hcontent⟩
    refine ⟨path, mode, htarget, hholds, ?_⟩
    rw [FileSystem.encode_of_decode hcontent.2]
  · rintro ⟨path, mode, htarget, hholds, rfl⟩
    obtain ⟨content, hcontent⟩ := FileSystem.holds_iff.mp ⟨mode, hholds⟩
    refine ⟨path, htarget, content, hcontent, ?_⟩
    rw [FileSystem.encode_of_decode hcontent.2]

/-- What has been read is the only text that the target holds. -/
theorem eq_of_read {former : Text} (h : checkout.read file = .ok (former, next))
    (htarget : checkout.target? file = some path) (hholds : checkout.fs.Holds path t mode) :
    t = former := by
  have hread := read_ok_iff.mpr ⟨path, mode, htarget, hholds, rfl⟩
  rw [h] at hread
  cases hread
  rfl

/-- The target of a file that cannot be read holds no text. -/
theorem not_holds_of_read {cause : StoreError} (h : checkout.read file = .error cause)
    (htarget : checkout.target? file = some path) : ¬ checkout.fs.Holds path t mode := by
  intro hholds
  have hread := read_ok_iff.mpr ⟨path, mode, htarget, hholds, rfl⟩
  rw [h] at hread
  cases hread

/-- Writing puts the text into the target and remembers it, provided that the target is a file which
may be written and holds what is remembered of it. -/
theorem write_ok_iff :
    checkout.write file t = .ok next ↔ ∃ path former mode, checkout.target? file = some path ∧
      checkout.fs.lookup path = some (.file former mode) ∧ checkout.fs.refusal? path = none ∧
      (∀ expected ∈ checkout.workspace.seen? path, checkout.workspace.digest former = expected) ∧
      next = ⟨checkout.fs.put path (.file (FileSystem.encode t) mode),
        checkout.workspace.remember path (FileSystem.encode t)⟩ := by
  simp only [write, Workspace.write, target?, toOption_eq_some_iff, map_ok_iff, bind_ok_iff,
    mapError_ok_iff, FileSystem.replace_ok_iff]
  constructor
  · rintro ⟨_, ⟨path, htarget, _, hguard, _, ⟨former, mode, hlookup, hallowed, rfl⟩, ⟨⟩⟩, rfl⟩
    have hcontent := FileSystem.content_ok_iff.mpr ⟨mode, hlookup⟩
    exact ⟨path, former, mode, htarget, hlookup, hallowed,
      (Workspace.guardUnmodified_ok_iff hcontent).mp hguard, rfl⟩
  · rintro ⟨path, former, mode, htarget, hlookup, hallowed, hseen, rfl⟩
    have hcontent := FileSystem.content_ok_iff.mpr ⟨mode, hlookup⟩
    exact ⟨_, ⟨path, htarget, (), (Workspace.guardUnmodified_ok_iff hcontent).mpr hseen, _,
      ⟨former, mode, hlookup, hallowed, rfl⟩, rfl⟩, rfl⟩

/-- A write fails because of a change when the target is a file that does not hold what is
remembered of it. -/
theorem write_modified_iff {rendered : Text} :
    checkout.write file t = .error (.modified rendered) ↔
      ∃ path current recorded, checkout.target? file = some path ∧
        checkout.fs.content path = .ok current ∧ checkout.workspace.seen? path = some recorded ∧
        checkout.workspace.digest current ≠ recorded ∧ path.render = rendered := by
  simp only [write, Workspace.write, target?, toOption_eq_some_iff, map_error_iff, bind_error_iff,
    mapError_error_iff, Workspace.guardUnmodified_modified_iff]
  constructor
  · rintro (hresolve | ⟨path, hresolve, hguard | ⟨-, -, ⟨_, -, ⟨⟩⟩ | ⟨_, -, ⟨⟩⟩⟩⟩)
    · exact absurd hresolve (Workspace.resolve_ne_modified _ _ _)
    · obtain ⟨current, recorded, hchanged⟩ := hguard
      exact ⟨path, current, recorded, hresolve, hchanged⟩
  · rintro ⟨path, current, recorded, hresolve, hchanged⟩
    exact .inr ⟨path, hresolve, .inl ⟨current, recorded, hchanged⟩⟩

/-! ## Reading and then writing -/

/-- All files are as they were. -/
structure Kept (checkout next : Checkout) : Prop where
  root : next.workspace.root = checkout.workspace.root
  fs : next.fs = checkout.fs

/-- The file at the path held the former text and now holds the new one, and nothing else has
changed. -/
structure Rewritten (checkout next : Checkout) (path : Path) (former t : Text) : Prop where
  root : next.workspace.root = checkout.workspace.root
  refusal : next.fs.refusal? = checkout.fs.refusal?
  file : ∃ mode, checkout.fs.Holds path former mode ∧ ∀ other, next.fs.lookup other =
    if other = path then some (.file (FileSystem.encode t) mode) else checkout.fs.lookup other

/-- Checkouts with the same files are alike. -/
theorem Kept.alike (h : Kept checkout next) : Alike next checkout :=
  ⟨h.root, h.fs ▸ .refl _⟩

namespace Rewritten

variable {former : Text} (h : Rewritten checkout next path former t)

include h

/-- The other files are as they were. -/
theorem lookup_of_ne {other : Path} (hne : other ≠ path) :
    next.fs.lookup other = checkout.fs.lookup other := by
  obtain ⟨mode, -, hlookup⟩ := h.file
  rw [hlookup, if_neg hne]

/-- The file holds the new text and has its permission bits still. -/
theorem holds (hformer : checkout.fs.Holds path former mode) : next.fs.Holds path t mode := by
  obtain ⟨mode', hheld, hlookup⟩ := h.file
  obtain ⟨-, rfl⟩ := hheld.unique hformer
  exact (hlookup path).trans (if_pos rfl)

/-- Checkouts before and after a file is rewritten are alike. -/
theorem alike : Alike next checkout := by
  obtain ⟨mode, hheld, hlookup⟩ := h.file
  refine ⟨h.root, fun other ↦ ?_, h.refusal⟩
  rw [hlookup]
  split
  · next heq =>
      rw [heq, hheld]
      rfl
  · rfl

end Rewritten

/-- Reading changes no file. -/
theorem kept_of_read (h : checkout.read file = .ok (t, next)) : Kept checkout next := by
  obtain ⟨path, mode, -, -, rfl⟩ := read_ok_iff.mp h
  exact ⟨rfl, rfl⟩

/-- A file that has just been read holds what is remembered of it. -/
theorem guardUnmodified_of_read (h : checkout.read file = .ok (t, next))
    (htarget : checkout.target? file = some path) :
    next.workspace.guardUnmodified next.fs path = .ok () := by
  obtain ⟨other, mode, hother, hholds, rfl⟩ := read_ok_iff.mp h
  obtain rfl : path = other := Option.some.inj (htarget.symm.trans hother)
  refine (Workspace.guardUnmodified_ok_iff
    (FileSystem.content_ok_iff.mpr ⟨mode, hholds⟩)).mpr fun expected hexpected ↦ ?_
  rw [Workspace.seen?_remember] at hexpected
  exact Option.some.inj hexpected

/-- A file that is as it was when it was read can be written, if the operating system lets it. -/
theorem write_of_read {former : Text} (h : checkout.read file = .ok (former, next))
    (htarget : checkout.target? file = some path) (hallowed : checkout.fs.refusal? path = none)
    (t : Text) :
    ∃ last, next.write file t = .ok last ∧ Rewritten checkout last path former t := by
  have halike := (kept_of_read h).alike
  have hguard := guardUnmodified_of_read h htarget
  obtain ⟨other, mode, hother, hholds, rfl⟩ := read_ok_iff.mp h
  obtain rfl : path = other := Option.some.inj (htarget.symm.trans hother)
  have hcontent := FileSystem.content_ok_iff.mpr ⟨mode, hholds⟩
  refine ⟨_, write_ok_iff.mpr ⟨path, _, mode, ?_, hholds, hallowed, ?_, rfl⟩, rfl, rfl, mode,
    hholds, fun _ ↦ ?_⟩
  · exact (halike.target?_eq file).trans htarget
  · exact (Workspace.guardUnmodified_ok_iff hcontent).mp hguard
  · exact FileSystem.lookup_put_file hholds

/-- A file that has just been read cannot be written if the operating system refuses that. -/
theorem write_of_refusal {former : Text} {cause : SystemError}
    (h : checkout.read file = .ok (former, next)) (htarget : checkout.target? file = some path)
    (hrefusal : checkout.fs.refusal? path = some cause) (t : Text) :
    next.write file t = .error (.system cause) := by
  have hkept := kept_of_read h
  have hguard := guardUnmodified_of_read h htarget
  obtain ⟨other, mode, hother, hholds, -⟩ := read_ok_iff.mp h
  obtain rfl : path = other := Option.some.inj (htarget.symm.trans hother)
  have hresolve := toOption_eq_some_iff.mp ((hkept.alike.target?_eq file).trans htarget)
  have hreplace : next.fs.replace path (FileSystem.encode t) = .error cause := by
    rw [hkept.fs]
    exact FileSystem.replace_of_refusal hholds hrefusal
  simp only [write, Workspace.write, map_error_iff, bind_error_iff, mapError_error_iff]
  exact .inr ⟨path, hresolve, .inr ⟨(), hguard, .inl ⟨cause, hreplace, rfl⟩⟩⟩

/-! ## Small trees -/

/-- The checkout of a tree whose only file, `f`, holds the text. -/
def single (t : Text) : Checkout :=
  ⟨{ entries := [([['f']], .file (FileSystem.encode t) 0o644)] }, ⟨[], digest, []⟩⟩

/-- The name of the only file leads to it. -/
theorem target?_single (t : Text) : (single t).target? ['f'] = some [['f']] := by
  simp [single, target?, Workspace.resolve, FileSystem.resolve, FileSystem.resolveFor,
    FileSystem.walk, FileSystem.isDirectory, FileSystem.lookup, FileSystem.maxNameSize,
    FileSystem.maxPathSize, PathText.join, PathText.isAbsolute, Path.render, Text.splitOn,
    Char.utf8Size, Except.toOption]

/-- The only file holds the text. -/
theorem holds_single (t : Text) : (single t).fs.Holds [['f']] t 0o644 :=
  rfl

/-- The checkout of a tree with two files, `f` and `g`, which hold the texts. -/
def double (s t : Text) : Checkout :=
  ⟨{ entries := [([['f']], .file (FileSystem.encode s) 0o644),
      ([['g']], .file (FileSystem.encode t) 0o644)] }, ⟨[], digest, []⟩⟩

/-- The names of the two files lead to them. -/
theorem target?_double (s t : Text) :
    (double s t).target? ['f'] = some [['f']] ∧ (double s t).target? ['g'] = some [['g']] := by
  constructor <;>
    simp [double, target?, Workspace.resolve, FileSystem.resolve, FileSystem.resolveFor,
      FileSystem.walk, FileSystem.isDirectory, FileSystem.lookup, FileSystem.maxNameSize,
      FileSystem.maxPathSize, PathText.join, PathText.isAbsolute, Path.render, Text.splitOn,
      Char.utf8Size, Except.toOption]

/-- The two files hold the texts. -/
theorem holds_double (s t : Text) :
    (double s t).fs.Holds [['f']] s 0o644 ∧ (double s t).fs.Holds [['g']] t 0o644 :=
  ⟨rfl, rfl⟩

end Checkout

end MarkedEdits
