import Mathlib.Data.List.Induction
import Mathlib.Data.List.Nodup
import MarkedEdits.PatchSet.Target
import MarkedEdits.Proofs.FileSystem.Checkout

/-!
# Groups of patches

The patches of a set are grouped by the names of their files, as they are spelled. Every name has
one group, which holds the positions of all patches with that name (`PatchSet.files_eq`). The edits
of a group are the edits that those patches declare (`PatchSet.edits_positions_ok_iff`).
-/

namespace MarkedEdits

section FirstOccurrences

variable {α : Type} [BEq α] [LawfulBEq α]

/-- One more entry at the end counts only if it has not occurred before. -/
theorem eraseDups_concat (l : List α) (a : α) :
    (l ++ [a]).eraseDups = if a ∈ l then l.eraseDups else l.eraseDups ++ [a] := by
  rw [List.eraseDups_append]
  split
  · next h => simp [List.removeAll, h]
  · next h => simp [List.removeAll, h, List.eraseDups_cons]

/-- The entries that are left stand in the order of their first occurrences. -/
theorem pairwise_idxOf_eraseDups (l : List α) :
    l.eraseDups.Pairwise (l.idxOf · < l.idxOf ·) := by
  induction l using List.reverseRecOn with
  | nil => exact .nil
  | append_singleton l a ih =>
      -- what occurs in the front keeps its first occurrence
      have hfront : ∀ b ∈ l.eraseDups, (l ++ [a]).idxOf b = l.idxOf b := fun b hb ↦
        List.idxOf_append_of_mem (List.mem_eraseDups.mp hb)
      have hkept : l.eraseDups.Pairwise ((l ++ [a]).idxOf · < (l ++ [a]).idxOf ·) := by
        refine ih.imp_of_mem fun {b c} hb hc hlt ↦ ?_
        rwa [hfront b hb, hfront c hc]
      rw [eraseDups_concat]
      split
      · exact hkept
      · next hnew =>
          refine List.pairwise_append.mpr ⟨hkept, List.pairwise_singleton _ _, fun b hb c hc ↦ ?_⟩
          obtain rfl := List.mem_singleton.mp hc
          rw [hfront b hb, List.idxOf_append_of_notMem hnew]
          exact Nat.lt_of_lt_of_le (List.idxOf_lt_length_of_mem (List.mem_eraseDups.mp hb))
            (Nat.le_add_right _ _)

/-- No entry is left twice. -/
theorem nodup_eraseDups (l : List α) : l.eraseDups.Nodup :=
  (pairwise_idxOf_eraseDups l).imp fun hlt heq ↦ Nat.ne_of_lt hlt (congrArg l.idxOf heq)

end FirstOccurrences

/-- What stops a walk through a list stops it at an entry of the list. -/
theorem exists_error_of_filterMapM {ε α β : Type} {f : α → Except ε (Option β)} {l : List α}
    {error : ε} (h : l.filterMapM f = .error error) : ∃ a ∈ l, f a = .error error := by
  induction l with
  | nil => cases h
  | cons a rest ih =>
      rw [List.filterMapM_cons] at h
      cases ha : f a with
      | error other =>
          rw [ha] at h
          cases h
          exact ⟨a, List.mem_cons_self, ha⟩
      | ok kept =>
          have hrest : rest.filterMapM f = .error error := by
            cases hrest : rest.filterMapM f with
            | error other => cases kept <;> simpa [ha, hrest, bind, Except.bind] using h
            | ok others =>
                cases kept <;> simp [ha, hrest, bind, Except.bind, pure, Except.pure] at h
          obtain ⟨b, hb, herror⟩ := ih hrest
          exact ⟨b, List.mem_cons_of_mem a hb, herror⟩

namespace PatchSet

/-- The positions of the patches for the file among numbered patches. -/
def positionsIn (numbered : List (Patch × Nat)) (file : Text) : List Nat :=
  (numbered.filter (·.1.file = file)).map (·.2)

/-- The positions of the patches for the file. -/
def positions (set : PatchSet) (file : Text) : List Nat :=
  positionsIn set.patches.zipIdx file

/-- The names of the files that the patches aim at, in the order in which they first occur. -/
def names (set : PatchSet) : List Text :=
  (set.patches.map (·.file)).eraseDups

/-- The names, each with the positions of its patches. -/
def grouped (set : PatchSet) (names : List Text) : List (Text × List Nat) :=
  names.map fun name ↦ (name, set.positions name)

variable {set : PatchSet} {file : Text}

/-- Names are grouped one by one. -/
theorem grouped_append_cons (set : PatchSet) (before after : List Text) (name : Text) :
    set.grouped (before ++ name :: after) =
      set.grouped before ++ (name, set.positions name) :: set.grouped after := by
  simp [grouped]

/-- Grouping keeps the names. -/
theorem map_fst_grouped (set : PatchSet) (names : List Text) :
    (set.grouped names).map (·.1) = names := by
  simp [grouped, Function.comp_def]

/-- What is true of all names is true of all groups. -/
theorem forall_mem_grouped {p : Text → Prop} {names : List Text} :
    (∀ group ∈ set.grouped names, p group.1) ↔ ∀ name ∈ names, p name := by
  simp [grouped]

/-- One more patch is in the group of its file and in no other. -/
theorem positionsIn_concat (numbered : List (Patch × Nat)) (patch : Patch) (index : Nat) :
    positionsIn (numbered ++ [(patch, index)]) file =
      positionsIn numbered file ++ if patch.file = file then [index] else [] := by
  unfold positionsIn
  rw [List.filter_append, List.map_append]
  by_cases h : patch.file = file <;> simp [h]

/-- A patch for a file without a group makes a new group at the end. -/
theorem addToGroup_of_not_mem {groups : List (Text × List Nat)} {index : Nat}
    (h : file ∉ groups.map (·.1)) :
    addToGroup file index groups = groups ++ [(file, [index])] := by
  induction groups with
  | nil => rfl
  | cons group rest ih =>
      simp only [List.map_cons, List.mem_cons, not_or] at h
      rw [addToGroup, if_neg (Ne.symm h.1), ih h.2, List.cons_append]

/-- One more patch changes no groups of other files. -/
theorem map_group_of_not_mem {names : List Text} (h : file ∉ names) (group : Text → List Nat)
    (index : Nat) :
    (names.map fun name ↦ (name, group name ++ if file = name then [index] else [])) =
      names.map fun name ↦ (name, group name) := by
  refine List.map_congr_left fun name hname ↦ ?_
  have hne : file ≠ name := by
    intro heq
    exact h (heq ▸ hname)
  rw [if_neg hne, List.append_nil]

/-- A patch for a file with a group comes into that group. -/
theorem addToGroup_of_mem {names : List Text} (hnodup : names.Nodup) (h : file ∈ names)
    (group : Text → List Nat) (index : Nat) :
    addToGroup file index (names.map fun name ↦ (name, group name)) =
      names.map fun name ↦ (name, group name ++ if file = name then [index] else []) := by
  induction names with
  | nil => cases h
  | cons name rest ih =>
      obtain ⟨hrest, hnodup⟩ := List.nodup_cons.mp hnodup
      rw [List.map_cons, List.map_cons, addToGroup]
      by_cases heq : name = file
      · -- the file has no other group
        subst heq
        rw [if_pos rfl, if_pos rfl, map_group_of_not_mem hrest]
      · have hmem : file ∈ rest := (List.mem_cons.mp h).resolve_left (Ne.symm heq)
        rw [if_neg heq, if_neg (Ne.symm heq), List.append_nil, ih hnodup hmem]

/-- Numbered patches that are added one by one make one group for every name. -/
theorem foldl_addToGroup (numbered : List (Patch × Nat)) :
    numbered.foldl (fun groups (patch, index) ↦ addToGroup patch.file index groups) [] =
      (numbered.map (·.1.file)).eraseDups.map fun file ↦ (file, positionsIn numbered file) := by
  -- the last patch is added to the groups of the patches before it
  induction numbered using List.reverseRecOn with
  | nil => rfl
  | append_singleton numbered entry ih =>
      obtain ⟨patch, index⟩ := entry
      simp only [List.foldl_append, List.foldl_cons, List.foldl_nil, List.map_append,
        List.map_cons, List.map_nil, ih, eraseDups_concat, positionsIn_concat]
      split
      · next h =>
          exact addToGroup_of_mem (nodup_eraseDups _) (List.mem_eraseDups.mpr h) _ index
      · next h =>
          have hnew : patch.file ∉ (numbered.map (·.1.file)).eraseDups := by simpa using h
          have hnone : positionsIn numbered patch.file = [] := by
            simpa [positionsIn] using h
          rw [addToGroup_of_not_mem (by simpa using h), List.map_append, map_group_of_not_mem hnew,
            List.map_cons, List.map_nil, hnone, if_pos rfl]
          rfl

/-- Every name has one group, which holds the positions of its patches. -/
theorem files_eq (set : PatchSet) : set.files = set.grouped set.names := by
  have hnames : set.patches.zipIdx.map (·.1.file) = set.patches.map (·.file) := by
    rw [← List.zipIdx_map_fst 0 set.patches, List.map_map, List.zipIdx_map_fst]
    rfl
  rw [files, foldl_addToGroup, hnames]
  rfl

/-- Every name stands once. -/
theorem names_nodup (set : PatchSet) : set.names.Nodup :=
  nodup_eraseDups _

/-- The names are those of the patches. -/
theorem mem_names_iff : file ∈ set.names ↔ ∃ patch ∈ set.patches, patch.file = file := by
  simp [names]

/-- The positions of a file are those at which a patch aims at it. -/
theorem mem_positions_iff {index : Nat} :
    index ∈ set.positions file ↔
      ∃ patch, set.patches[index]? = some patch ∧ patch.file = file := by
  simp only [positions, positionsIn, List.mem_map, List.mem_filter, decide_eq_true_eq]
  constructor
  · rintro ⟨⟨patch, position⟩, ⟨hnumbered, hfile⟩, rfl⟩
    exact ⟨patch, List.mem_zipIdx_iff_getElem?.mp hnumbered, hfile⟩
  · rintro ⟨patch, hpatch, hfile⟩
    exact ⟨(patch, index), ⟨List.mem_zipIdx_iff_getElem?.mpr hpatch, hfile⟩, rfl⟩

/-- Every group holds the positions for its name. -/
theorem mem_files_iff {indices : List Nat} :
    (file, indices) ∈ set.files ↔ file ∈ set.names ∧ indices = set.positions file := by
  rw [files_eq, grouped, List.mem_map]
  constructor
  · rintro ⟨name, hname, hgroup⟩
    cases hgroup
    exact ⟨hname, rfl⟩
  · intro h
    exact ⟨file, h.1, Prod.ext rfl h.2.symm⟩

/-- The edit of the first patch comes before the edits of the others. -/
theorem edits_cons_ok_iff {index : Nat} {rest : List Nat} {patch : Patch} {edits : List Edit}
    (h : set.patches[index]? = some patch) :
    set.edits file (index :: rest) = .ok edits ↔ ∃ edit, patch.edit? = .ok edit ∧
      ∃ others, set.edits file rest = .ok others ∧ edit :: others = edits := by
  unfold PatchSet.edits
  simp only [List.filterMapM_cons, h, bind_ok_iff, mapError_ok_iff, map_ok_iff]
  constructor
  · rintro ⟨_, ⟨edit, hedit, rfl⟩, hrest⟩
    simp only [bind_ok_iff, pure_ok_iff] at hrest
    exact ⟨edit, hedit, hrest⟩
  · rintro ⟨edit, hedit, hrest⟩
    refine ⟨_, ⟨edit, hedit, rfl⟩, ?_⟩
    simpa only [bind_ok_iff, pure_ok_iff] using hrest

/-- The edits of numbered patches are the edits that they declare. -/
theorem edits_numbered_ok_iff {numbered : List (Patch × Nat)}
    (h : ∀ entry ∈ numbered, set.patches[entry.2]? = some entry.1) {edits : List Edit} :
    set.edits file (numbered.map (·.2)) = .ok edits ↔
      (numbered.map (·.1)).mapM Patch.edit? = .ok edits := by
  induction numbered generalizing edits with
  | nil =>
      unfold PatchSet.edits
      rw [List.map_nil, List.filterMapM_nil, List.map_nil, List.mapM_nil, pure_ok_iff, pure_ok_iff]
  | cons entry rest ih =>
      obtain ⟨hentry, hrest⟩ := List.forall_mem_cons.mp h
      simp only [List.map_cons, edits_cons_ok_iff hentry, List.mapM_cons, bind_ok_iff, pure_ok_iff,
        ih hrest]

/-- The numbered patches for a file are the patches for that file. -/
theorem map_fst_filter_zipIdx (set : PatchSet) (file : Text) :
    (set.patches.zipIdx.filter (·.1.file = file)).map (·.1) =
      set.patches.filter (·.file = file) := by
  conv_rhs => rw [← List.zipIdx_map_fst 0 set.patches, List.filter_map]
  rfl

/-- The edits of a group are the edits that its patches declare. -/
theorem edits_positions_ok_iff {edits : List Edit} :
    set.edits file (set.positions file) = .ok edits ↔
      (set.patches.filter (·.file = file)).mapM Patch.edit? = .ok edits := by
  rw [positions, positionsIn, edits_numbered_ok_iff, map_fst_filter_zipIdx]
  intro entry hentry
  exact List.mem_zipIdx_iff_getElem?.mp (List.mem_filter.mp hentry).1

/-- The edits for a file are stopped by a patch that does not declare one. -/
theorem exists_patch_of_edits {indices : List Nat} {error : TargetError}
    (h : set.edits file indices = .error error) :
    ∃ index, ∃ patch : Patch, ∃ cause, set.patches[index]? = some patch ∧
      patch.edit? = .error cause ∧
      error = .edit file (some (patch.label index)) cause := by
  obtain ⟨index, -, hindex⟩ := exists_error_of_filterMapM h
  cases hpatch : set.patches[index]? with
  | none => simp [hpatch] at hindex
  | some patch =>
      cases hedit : patch.edit? with
      | ok edit => simp [hpatch, hedit, Except.map, Except.mapError] at hindex
      | error cause =>
          simp only [hpatch, hedit, Except.map, Except.mapError, Except.error.injEq] at hindex
          exact ⟨index, patch, cause, hpatch, hedit, hindex.symm⟩

end PatchSet

end MarkedEdits
