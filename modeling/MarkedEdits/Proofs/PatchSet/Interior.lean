import MarkedEdits.PatchSet.Run
import MarkedEdits.Proofs.FileSystem.Canonical

/-!
# What is read of a file system

Two checkouts agree below the root when they have one workspace and differ at most in the contents
of files that are not below it. Reading and writing cannot tell them apart
(`Checkout.AgreeBelow.read_cases`, `Checkout.AgreeBelow.write_cases`), so neither can a run that
applies or reverts a set (`PatchSet.apply_agree`, `PatchSet.revert_agree`): the results are the
same, and the checkouts that are left agree again.
-/

namespace MarkedEdits

namespace Checkout

/-- The checkouts have one workspace, and at most the contents of files that are not below the root
are different. -/
structure AgreeBelow (a b : Checkout) : Prop where
  workspace : a.workspace = b.workspace
  fs : a.fs.Alike b.fs
  lookup : ∀ path, b.workspace.root <+: path → a.fs.lookup path = b.fs.lookup path

namespace AgreeBelow

variable {a b : Checkout} (h : AgreeBelow a b)

include h

/-- Checkouts that agree below the root are alike. -/
theorem alike : a.Alike b :=
  ⟨congrArg Workspace.root h.workspace, h.fs⟩

/-- Checkouts that agree below the root have the same targets. -/
theorem lookup_target {file : Text} {path : Path} (htarget : b.target? file = some path) :
    a.fs.lookup path = b.fs.lookup path :=
  h.lookup path (confined_of_target? htarget).2

/-- Reading a file fails in the same way or finds the same text. -/
theorem read_cases (file : Text) :
    (∃ cause, a.read file = .error cause ∧ b.read file = .error cause) ∨
      ∃ t next next', a.read file = .ok (t, next) ∧ b.read file = .ok (t, next') ∧
        AgreeBelow next next' := by
  have hread : (a.read file).map (·.1) = (b.read file).map (·.1) :=
    h.alike.map_read_eq fun _ htarget ↦ h.lookup_target htarget
  cases hb : b.read file with
  | error cause =>
      rw [hb] at hread
      exact .inl ⟨cause, map_error_iff.mp hread, rfl⟩
  | ok found =>
      obtain ⟨t, next'⟩ := found
      rw [hb] at hread
      obtain ⟨⟨t, next⟩, ha, rfl⟩ := map_ok_iff.mp hread
      obtain ⟨path, mode, htarget, -, rfl⟩ := read_ok_iff.mp ha
      obtain ⟨path', mode', htarget', -, hnext⟩ := read_ok_iff.mp hb
      rw [h.alike.target?_eq, htarget'] at htarget
      cases htarget
      refine .inr ⟨t, _, next', ha, rfl, ?_⟩
      rw [hnext]
      exact ⟨congrArg (·.remember path (FileSystem.encode t)) h.workspace, h.fs, h.lookup⟩

/-- Writing a file fails in the same way or succeeds. -/
theorem map_write_eq (file t : Text) :
    (a.write file t).map (fun _ ↦ ()) = (b.write file t).map (fun _ ↦ ()) := by
  unfold write Workspace.write
  rw [h.alike.resolve_eq]
  cases hresolve : b.workspace.resolve b.fs file with
  | error cause => rfl
  | ok path =>
      have hlookup := h.lookup_target (toOption_eq_some_iff.mpr hresolve)
      have hguard :
          a.workspace.guardUnmodified a.fs path = b.workspace.guardUnmodified b.fs path := by
        unfold Workspace.guardUnmodified FileSystem.content
        rw [h.workspace, hlookup]
      dsimp only [bind, Except.bind]
      rw [hguard]
      cases b.workspace.guardUnmodified b.fs path with
      | error cause => rfl
      | ok _ =>
          unfold FileSystem.replace
          rw [hlookup, h.fs.refusal]
          cases b.fs.lookup path with
          | none => rfl
          | some node =>
              cases node with
              | directory mode => rfl
              | link target => rfl
              | file content mode => cases b.fs.refusal? path <;> rfl

/-- Writing a file fails in the same way or leaves checkouts that agree below the root. -/
theorem write_cases (file t : Text) :
    (∃ cause, a.write file t = .error cause ∧ b.write file t = .error cause) ∨
      ∃ next next', a.write file t = .ok next ∧ b.write file t = .ok next' ∧
        AgreeBelow next next' := by
  have hwrite := h.map_write_eq file t
  cases hb : b.write file t with
  | error cause =>
      rw [hb] at hwrite
      exact .inl ⟨cause, map_error_iff.mp hwrite, rfl⟩
  | ok next' =>
      rw [hb] at hwrite
      obtain ⟨next, ha, -⟩ := map_ok_iff.mp hwrite
      obtain ⟨path, former, mode, htarget, hlookup, -, -, rfl⟩ := write_ok_iff.mp ha
      obtain ⟨path', former', mode', htarget', hlookup', -, -, rfl⟩ := write_ok_iff.mp hb
      rw [h.alike.target?_eq, htarget'] at htarget
      cases htarget
      rw [h.lookup_target htarget', hlookup'] at hlookup
      cases hlookup
      refine .inr ⟨_, _, ha, rfl, congrArg (·.remember path (FileSystem.encode t)) h.workspace,
        ?_, fun other hbelow ↦ ?_⟩
      · have hput : a.fs.lookup path = some (.file former mode) :=
          (h.lookup_target htarget').trans hlookup'
        exact (FileSystem.Alike.put_file hput).trans
          (h.fs.trans (FileSystem.Alike.put_file hlookup').symm)
      · rw [FileSystem.lookup_put_file hlookup',
          FileSystem.lookup_put_file ((h.lookup_target htarget').trans hlookup'),
          h.lookup other hbelow]

end AgreeBelow

/-- Two steps give one result and leave checkouts that agree below the root. -/
structure SameStep {α : Type} (first second : α × Checkout) : Prop where
  result : first.1 = second.1
  agree : AgreeBelow first.2 second.2

end Checkout

open Checkout

/-! ## Steps -/

namespace PatchSet

variable {a b : Checkout} (h : AgreeBelow a b) (set : PatchSet) (editor : Editor) (dryRun : Bool)

include h

/-- Finishing a file comes to the same. -/
theorem finish_agree (file former : Text) (outcome : Outcome) :
    SameStep (finish a file former dryRun outcome) (finish b file former dryRun outcome) := by
  unfold finish
  split
  · next updated =>
      cases dryRun with
      | true => exact ⟨rfl, h⟩
      | false =>
          obtain ⟨cause, ha, hb⟩ | ⟨next, next', ha, hb, hnext⟩ := h.write_cases file updated
          · simp only [ha, hb]
            exact ⟨rfl, h⟩
          · simp only [ha, hb]
            exact ⟨rfl, hnext⟩
  · exact ⟨rfl, h⟩

/-- Applying the patches of a file comes to the same. -/
theorem applyFile_agree (file : Text) (indices : List Nat) :
    SameStep (set.applyFile editor dryRun a file indices)
      (set.applyFile editor dryRun b file indices) := by
  unfold applyFile
  obtain ⟨cause, ha, hb⟩ | ⟨former, next, next', ha, hb, hnext⟩ := h.read_cases file
  · simp only [ha, hb]
    exact ⟨rfl, h⟩
  · simp only [ha, hb]
    split
    · exact ⟨rfl, hnext⟩
    · split
      · exact ⟨rfl, hnext⟩
      · exact finish_agree hnext dryRun file former _

/-- Reverting a file comes to the same. -/
theorem revertFile_agree (file : Text) :
    SameStep (revertFile editor dryRun a file) (revertFile editor dryRun b file) := by
  unfold revertFile
  obtain ⟨cause, ha, hb⟩ | ⟨former, next, next', ha, hb, hnext⟩ := h.read_cases file
  · simp only [ha, hb]
    exact ⟨rfl, h⟩
  · simp only [ha, hb]
    exact finish_agree hnext dryRun file former _

/-! ## Runs -/

/-- A run over files comes to the same if each of its steps does. -/
theorem forFiles_agree {α : Type} {step : Checkout → Text → List Nat → α × Checkout}
    (hstep : ∀ {a b : Checkout}, AgreeBelow a b → ∀ file indices,
      SameStep (step a file indices) (step b file indices)) (groups : List (Text × List Nat)) :
    SameStep (forFiles step a groups) (forFiles step b groups) := by
  induction groups generalizing a b with
  | nil => exact ⟨rfl, h⟩
  | cons group rest ih =>
      obtain ⟨hresult, hagree⟩ := hstep h group.1 group.2
      obtain ⟨hresults, hlast⟩ := ih hagree
      refine ⟨?_, hlast⟩
      simp only [forFiles, hresult, hresults]

/-- Applying a set comes to the same. -/
theorem apply_agree (version : Option Text) :
    SameStep (set.apply a version dryRun) (set.apply b version dryRun) := by
  unfold apply
  split
  · exact ⟨rfl, h⟩
  · exact ⟨rfl, h⟩
  · next editor _ =>
      exact forFiles_agree h (fun hagree ↦ set.applyFile_agree hagree editor dryRun) set.files

/-- Reverting a set comes to the same. -/
theorem revert_agree : SameStep (set.revert a dryRun) (set.revert b dryRun) := by
  unfold revert
  split
  · exact ⟨rfl, h⟩
  · next editor _ =>
      exact forFiles_agree h (fun hagree file _ ↦ revertFile_agree hagree editor dryRun file)
        set.files

end PatchSet

end MarkedEdits
