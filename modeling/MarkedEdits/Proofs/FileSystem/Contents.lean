import MarkedEdits.FileSystem.Resolve

/-!
# Contents of files

Writing to a file gives it a new content and changes nothing else (`FileSystem.lookup_put_file`).
So the file systems before and after are alike: they differ in the contents of files only. In file
systems that are alike every path leads to the same place (`FileSystem.Alike.resolveFor_eq`), and
writing never changes what a path stands for.
-/

namespace MarkedEdits

/-- The node without its content, if it is a file. -/
def Node.outline : Node → Node
  | file _ mode => file .empty mode
  | directory mode => directory mode
  | link target => link target

namespace FileSystem

/-- The file systems differ in the contents of files only. -/
structure Alike (a b : FileSystem) : Prop where
  outline : ∀ path, (a.lookup path).map Node.outline = (b.lookup path).map Node.outline
  refusal : a.refusal? = b.refusal?

/-- The file at the path has the text as its content, and the permission bits. -/
def Holds (fs : FileSystem) (path : Path) (t : Text) (mode : Nat) : Prop :=
  fs.lookup path = some (.file (encode t) mode)

/-- Only one text has a given encoding. -/
theorem encode_injective : Function.Injective encode := by
  intro a b h
  have hdecode := congrArg decode h
  rw [decode_encode, decode_encode] at hdecode
  exact Except.ok.inj hdecode

variable {fs next : FileSystem} {path other : Path}

/-- A file holds one text and has one set of permission bits. -/
theorem Holds.unique {t t' : Text} {mode mode' : Nat} (h : fs.Holds path t mode)
    (h' : fs.Holds path t' mode') : t = t' ∧ mode = mode' := by
  have hnode := h.symm.trans h'
  simp only [Option.some.injEq, Node.file.injEq] at hnode
  exact ⟨encode_injective hnode.1, hnode.2⟩

/-- A file has a content. -/
theorem content_ok_iff {bytes : ByteArray} :
    fs.content path = .ok bytes ↔ ∃ mode, fs.lookup path = some (.file bytes mode) := by
  unfold content
  cases fs.lookup path with
  | none => simp
  | some node => cases node <;> simp

/-- A content can be read as a text when the file holds the text. -/
theorem holds_iff {t : Text} :
    (∃ mode, fs.Holds path t mode) ↔
      ∃ bytes, fs.content path = .ok bytes ∧ decode bytes = .ok t := by
  constructor
  · rintro ⟨mode, h⟩
    exact ⟨encode t, content_ok_iff.mpr ⟨mode, h⟩, decode_encode t⟩
  · rintro ⟨bytes, hcontent, hdecode⟩
    rw [← encode_of_decode hdecode] at hcontent
    exact content_ok_iff.mp hcontent

/-! ## Replacing a content -/

/-- The content of a file that may be written is replaced, and nothing else. -/
theorem replace_ok_iff {content : ByteArray} :
    fs.replace path content = .ok next ↔ ∃ former mode, fs.lookup path = some (.file former mode) ∧
      fs.refusal? path = none ∧ next = fs.put path (.file content mode) := by
  unfold replace
  cases fs.lookup path with
  | none => simp
  | some node =>
      cases node with
      | file former mode =>
          cases fs.refusal? path with
          | some cause => simp
          | none =>
              constructor
              · rintro ⟨⟩
                exact ⟨former, mode, rfl, rfl, rfl⟩
              · rintro ⟨_, _, ⟨⟩, -, rfl⟩
                rfl
      | directory mode => simp
      | link target => simp

/-- The content of a file that the operating system refuses to write is not replaced. -/
theorem replace_of_refusal {former content : ByteArray} {mode : Nat} {cause : SystemError}
    (hfile : fs.lookup path = some (.file former mode)) (h : fs.refusal? path = some cause) :
    fs.replace path content = .error cause := by
  simp only [replace, hfile, h]

/-- After a file is put in the place of a file, the path leads to it and other paths lead where they
did. -/
theorem lookup_put_file {former content : ByteArray} {mode mode' : Nat}
    (h : fs.lookup path = some (.file former mode)) :
    (fs.put path (.file content mode')).lookup other =
      if other = path then some (.file content mode') else fs.lookup other := by
  by_cases hnil : other = []
  · -- the top directory is no file
    have hne : other ≠ path := by
      rintro rfl
      rw [hnil] at h
      cases h
    rw [if_neg hne, hnil]
    rfl
  · exact lookup_put fs path other _ hnil

/-! ## File systems that are alike -/

namespace Alike

variable {a b c : FileSystem}

/-- A file system is like itself. -/
theorem refl (fs : FileSystem) : Alike fs fs :=
  ⟨fun _ ↦ rfl, rfl⟩

/-- What a file system is like is like it. -/
theorem symm (h : Alike a b) : Alike b a :=
  ⟨fun path ↦ (h.outline path).symm, h.refusal.symm⟩

/-- File systems like a third one are alike. -/
theorem trans (h : Alike a b) (h' : Alike b c) : Alike a c :=
  ⟨fun path ↦ (h.outline path).trans (h'.outline path), h.refusal.trans h'.refusal⟩

/-- Putting a file in the place of a file with the same permission bits changes its content only. -/
theorem put_file {content former : ByteArray} {mode : Nat}
    (h : fs.lookup path = some (.file former mode)) :
    Alike (fs.put path (.file content mode)) fs := by
  refine ⟨fun other ↦ ?_, rfl⟩
  rw [lookup_put_file h]
  split
  · next heq =>
      rw [heq, h]
      rfl
  · rfl

/-- At every path is nothing in both, or a file with the same permission bits, or the same
directory, or the same link. -/
theorem lookup_cases (h : Alike a b) (path : Path) :
    (a.lookup path = none ∧ b.lookup path = none) ∨
      (∃ content content' mode, a.lookup path = some (.file content mode) ∧
        b.lookup path = some (.file content' mode)) ∨
      (∃ mode, a.lookup path = some (.directory mode) ∧ b.lookup path = some (.directory mode)) ∨
      ∃ target, a.lookup path = some (.link target) ∧ b.lookup path = some (.link target) := by
  have hpath := h.outline path
  cases ha : a.lookup path with
  | none =>
      rw [ha] at hpath
      exact .inl ⟨rfl, Option.map_eq_none_iff.mp hpath.symm⟩
  | some node =>
      rw [ha] at hpath
      obtain ⟨node', hb, hnode⟩ := Option.map_eq_some_iff.mp hpath.symm
      cases node <;> cases node' <;> simp_all [Node.outline]

/-- The same paths lead to directories. -/
theorem isDirectory_eq (h : Alike a b) (path : Path) : a.isDirectory path = b.isDirectory path := by
  unfold isDirectory
  rcases h.lookup_cases path with ⟨ha, hb⟩ | ⟨_, _, _, ha, hb⟩ | ⟨_, ha, hb⟩ | ⟨_, ha, hb⟩ <;>
    rw [ha, hb]

/-- Segments are followed to the same place. -/
theorem walk_eq (h : Alike a b) (purpose : Purpose) (links : Nat) (here : Path)
    (segments : List Text) :
    a.walk purpose links here segments = b.walk purpose links here segments := by
  -- a link costs one of the links that are left, and every other step one of the segments
  cases segments with
  | nil => rw [walk, walk]
  | cons segment rest =>
      have hrest : ∀ next, a.walk purpose links next rest = b.walk purpose links next rest :=
        fun next ↦ h.walk_eq purpose links next rest
      rw [walk, walk, h.isDirectory_eq, hrest, hrest]
      rcases h.lookup_cases (here ++ [segment]) with
        ⟨ha, hb⟩ | ⟨_, _, _, ha, hb⟩ | ⟨_, ha, hb⟩ | ⟨target, ha, hb⟩
      · rw [ha, hb]
      · simp only [ha, hb, hrest]
      · simp only [ha, hb, hrest]
      · simp only [ha, hb]
        cases links with
        | zero => rfl
        | succ links => simp only [h.walk_eq purpose links]
termination_by (links, segments.length)

/-- Every path leads to the same place. -/
theorem resolveFor_eq (h : Alike a b) (purpose : Purpose) (here : Path) (path : Text) :
    a.resolveFor purpose here path = b.resolveFor purpose here path := by
  unfold resolveFor
  rw [h.walk_eq]

end Alike

end FileSystem

end MarkedEdits
