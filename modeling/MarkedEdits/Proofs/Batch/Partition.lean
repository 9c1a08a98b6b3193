import Mathlib.Data.List.Sort
import MarkedEdits.Proofs.Batch.Entries

/-!
# Groups as a partition

The groups of a set are an ordered partition of the positions of its patches
(`PatchSet.OrderedPartition`): the names of the files are distinct and stand in the order in which
they first occur, and every position is in the group of the file that its patch aims at and in no
other. There is no other ordered partition (`PatchSet.files_partition`). Every run goes through the
groups once and in their order, so it carries out every patch once, on the file that the patch aims
at, and behind the patches for that file that stand before it.
-/

namespace MarkedEdits

open scoped List

namespace PatchSet

/-- The position of the first patch for the file. -/
def firstPosition (set : PatchSet) (file : Text) : Nat :=
  (set.patches.map (·.file)).idxOf file

/-- The groups part the positions of the patches by the files that they aim at. The names of the
files are distinct and in the order in which they first occur. The positions of a group, at least
one, are in ascending order and belong to patches for its file, and every position is in one group
and in no other. -/
structure OrderedPartition (set : PatchSet) (groups : List (Text × List Nat)) : Prop where
  distinct : (groups.map (·.1)).Nodup
  ordered : (groups.map (·.1)).Pairwise (set.firstPosition · < set.firstPosition ·)
  nonempty : ∀ group ∈ groups, group.2 ≠ []
  ascending : ∀ group ∈ groups, group.2.Pairwise (· < ·)
  own : ∀ group ∈ groups, ∀ index ∈ group.2,
    ∃ patch, set.patches[index]? = some patch ∧ patch.file = group.1
  covering : ∀ index patch, set.patches[index]? = some patch →
    ∃ group ∈ groups, group.1 = patch.file ∧ index ∈ group.2 ∧
      ∀ other ∈ groups, index ∈ other.2 → other = group

variable {set : PatchSet} {groups : List (Text × List Nat)} {file : Text}

/-! ## Positions of one file -/

/-- The positions are in ascending order. -/
theorem pairwise_positions (set : PatchSet) (file : Text) :
    (set.positions file).Pairwise (· < ·) := by
  have hall : (set.patches.zipIdx.map (·.2)).Pairwise (· < ·) := by
    rw [List.zipIdx_map_snd]
    exact List.pairwise_lt_range'
  exact hall.sublist (List.filter_sublist.map _)

/-- The patches at the positions of a file are the patches for that file, in their order. -/
theorem filterMap_positions (set : PatchSet) (file : Text) :
    (set.positions file).filterMap (set.patches[·]?) = set.patches.filter (·.file = file) := by
  rw [← map_fst_filter_zipIdx, positions, positionsIn, List.filterMap_map, ← List.filterMap_eq_map]
  refine List.filterMap_congr fun entry hentry ↦ ?_
  exact List.mem_zipIdx_iff_getElem?.mp (List.mem_filter.mp hentry).1

/-! ## The groups are a partition -/

/-- The groups of a set are an ordered partition. -/
theorem orderedPartition_files (set : PatchSet) : set.OrderedPartition set.files where
  distinct := by
    rw [files_eq, map_fst_grouped]
    exact set.names_nodup
  ordered := by
    rw [files_eq, map_fst_grouped]
    exact pairwise_idxOf_eraseDups _
  nonempty := by
    intro group hgroup
    obtain ⟨hname, hpositions⟩ := mem_files_iff.mp hgroup
    obtain ⟨patch, hpatch, hfile⟩ := mem_names_iff.mp hname
    obtain ⟨index, hindex⟩ := List.getElem?_of_mem hpatch
    rw [hpositions]
    exact List.ne_nil_of_mem (mem_positions_iff.mpr ⟨patch, hindex, hfile⟩)
  ascending := by
    intro group hgroup
    rw [(mem_files_iff.mp hgroup).2]
    exact set.pairwise_positions group.1
  own := by
    intro group hgroup index hindex
    rw [(mem_files_iff.mp hgroup).2] at hindex
    exact mem_positions_iff.mp hindex
  covering := by
    intro index patch hpatch
    have hname := mem_names_iff.mpr ⟨patch, List.mem_of_getElem? hpatch, rfl⟩
    have hgroup : (patch.file, set.positions patch.file) ∈ set.files :=
      mem_files_iff.mpr ⟨hname, rfl⟩
    refine ⟨_, hgroup, rfl, mem_positions_iff.mpr ⟨patch, hpatch, rfl⟩, fun other hother hindex ↦ ?_⟩
    obtain ⟨-, hpositions⟩ := mem_files_iff.mp hother
    rw [hpositions] at hindex
    obtain ⟨same, hsame, hfile⟩ := mem_positions_iff.mp hindex
    rw [hpatch] at hsame
    obtain rfl := Option.some.inj hsame
    exact Prod.ext hfile.symm (hfile ▸ hpositions)

namespace OrderedPartition

/-- The names are those of the files that the patches aim at. -/
theorem mem_map_fst_iff (h : set.OrderedPartition groups) :
    file ∈ groups.map (·.1) ↔ file ∈ set.names := by
  rw [mem_names_iff, List.mem_map]
  constructor
  · rintro ⟨group, hgroup, rfl⟩
    obtain ⟨index, hindex⟩ := List.exists_mem_of_ne_nil _ (h.nonempty group hgroup)
    obtain ⟨patch, hpatch, hfile⟩ := h.own group hgroup index hindex
    exact ⟨patch, List.mem_of_getElem? hpatch, hfile⟩
  · rintro ⟨patch, hpatch, rfl⟩
    obtain ⟨index, hindex⟩ := List.getElem?_of_mem hpatch
    obtain ⟨group, hgroup, hfile, -, -⟩ := h.covering index patch hindex
    exact ⟨group, hgroup, hfile⟩

/-- A group holds all positions for its name. -/
theorem positions_eq (h : set.OrderedPartition groups) {group : Text × List Nat}
    (hgroup : group ∈ groups) : group.2 = set.positions group.1 := by
  refine (h.ascending group hgroup).eq_of_mem_iff (set.pairwise_positions group.1) fun index ↦ ?_
  rw [mem_positions_iff]
  constructor
  · exact h.own group hgroup index
  · rintro ⟨patch, hpatch, hfile⟩
    obtain ⟨other, hother, hname, hindex, -⟩ := h.covering index patch hpatch
    -- no two groups have one name
    rwa [List.inj_on_of_nodup_map h.distinct hgroup hother (hfile.symm.trans hname.symm)]

/-- There is one ordered partition. -/
theorem eq_files (h : set.OrderedPartition groups) : groups = set.files := by
  have hnames : groups.map (·.1) = set.names := by
    have hasymm : Std.Asymm (set.firstPosition · < set.firstPosition · : Text → Text → Prop) :=
      ⟨fun _ _ ↦ Nat.lt_asymm⟩
    exact h.ordered.eq_of_mem_iff (pairwise_idxOf_eraseDups _) fun name ↦ h.mem_map_fst_iff
  rw [files_eq, ← hnames, grouped, List.map_map]
  refine (List.map_id groups).symm.trans (List.map_congr_left fun group hgroup ↦ ?_)
  exact Prod.ext rfl (h.positions_eq hgroup)

/-- Every position is in the groups once. -/
theorem flatMap_perm (h : set.OrderedPartition groups) :
    groups.flatMap (·.2) ~ List.range set.patches.length := by
  have hnodup : (groups.flatMap (·.2)).Nodup := by
    refine List.nodup_flatMap.mpr ⟨fun group hgroup ↦ ?_, ?_⟩
    · exact (h.ascending group hgroup).imp Nat.ne_of_lt
    · refine (List.pairwise_map.mp h.distinct).imp_of_mem fun {a b} ha hb hne index hia hib ↦ ?_
      obtain ⟨patch, hpatch, -⟩ := h.own a ha index hia
      obtain ⟨group, -, -, -, hunique⟩ := h.covering index patch hpatch
      rw [hunique a ha hia, hunique b hb hib] at hne
      exact hne rfl
  refine (List.perm_ext_iff_of_nodup hnodup List.nodup_range).mpr fun index ↦ ?_
  rw [List.mem_flatMap, List.mem_range]
  constructor
  · rintro ⟨group, hgroup, hindex⟩
    obtain ⟨patch, hpatch, -⟩ := h.own group hgroup index hindex
    exact (List.getElem?_eq_some_iff.mp hpatch).1
  · intro hlt
    obtain ⟨group, hgroup, -, hindex, -⟩ :=
      h.covering index set.patches[index] (List.getElem?_eq_getElem hlt)
    exact ⟨group, hgroup, hindex⟩

end OrderedPartition

/-! ## Runs -/

/-- The entries of a set are for the names of its groups, in their order. -/
theorem map_file_entries (set : PatchSet) : set.entries.map (·.file) = set.files.map (·.1) := by
  rw [entries, List.map_map]
  rfl

/-- The groups of a set are the one ordered partition of the positions of its patches. So every
position occurs in them once, and the edits that a run carries out on a file are those that the
patches for the file declare, in the order in which these patches stand in the set. Applying,
reverting and checking have one result for every group, in the order of the groups. -/
theorem files_partition (set : PatchSet) :
    (∀ groups, set.OrderedPartition groups ↔ groups = set.files) ∧
      set.files.flatMap (·.2) ~ List.range set.patches.length ∧
      (∀ group ∈ set.files,
        group.2.filterMap (set.patches[·]?) = set.patches.filter (·.file = group.1) ∧
        ∀ edits, set.edits group.1 group.2 = .ok edits ↔
          (set.patches.filter (·.file = group.1)).mapM Patch.edit? = .ok edits) ∧
      ∀ checkout version dryRun,
        (set.apply checkout version dryRun).1.map (·.1) = set.files.map (·.1) ∧
        (set.revert checkout dryRun).1.map (·.1) = set.files.map (·.1) ∧
        (set.check checkout version).1.map (·.1) = set.files.map (·.1) := by
  have hfiles := set.orderedPartition_files
  refine ⟨fun groups ↦ ⟨OrderedPartition.eq_files, fun h ↦ h ▸ hfiles⟩, hfiles.flatMap_perm,
    fun group hgroup ↦ ?_, fun checkout version dryRun ↦ ?_⟩
  · rw [(mem_files_iff.mp hgroup).2]
    exact ⟨set.filterMap_positions group.1, fun edits ↦ edits_positions_ok_iff⟩
  · rw [apply_eq_visit, revert_eq_visit, check_eq_visit, Batch.map_fst_visit, Batch.map_fst_visit,
      Batch.map_fst_visit, map_file_entries]
    exact ⟨rfl, rfl, rfl⟩

/-- The patches for two files take turns, and one of the files is aimed at under another name as
well. -/
theorem files_partition_interleaved :
    let patch (file : String) : Patch := { file := file.toList }
    let set : PatchSet := { patches := ["g", "f", "g", "./f", "f"].map patch }
    let groups := [("g".toList, [0, 2]), ("f".toList, [1, 4]), ("./f".toList, [3])]
    set.files = groups ∧ set.OrderedPartition groups ∧
      groups.flatMap (·.2) ~ List.range set.patches.length ∧
      [1, 4].filterMap (set.patches[·]?) = [patch "f", patch "f"] := by
  intro patch set groups
  have hfiles : set.files = groups := by decide
  obtain ⟨hpartition, hperm, hgroups, -⟩ := files_partition set
  rw [hfiles] at hperm hgroups
  exact ⟨hfiles, (hpartition groups).mpr hfiles.symm, hperm,
    (hgroups ("f".toList, [1, 4]) (by simp [groups])).1⟩

end PatchSet

end MarkedEdits
