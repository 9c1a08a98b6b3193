import MarkedEdits.Proofs.FileSystem.Checkout

/-!
# Canonical paths

A canonical path goes from the top directory through directories only, by proper names, and what it
leads to is there and is no link. Whatever links and dots a path is spelled with, the path that it
is resolved to is canonical (`FileSystem.canonical_of_resolve`). So a file of a checkout has a
canonical path that goes on from the root (`Checkout.confined_of_target?`), and a path that leads
elsewhere is refused (`Checkout.resolve_of_outside`).
-/

namespace MarkedEdits

namespace FileSystem

/-- The segment is the name of something in a directory. -/
def IsName (segment : Text) : Prop :=
  segment ≠ [] ∧ segment ≠ ['.'] ∧ segment ≠ ['.', '.'] ∧ '/' ∉ segment

/-- The path leads through directories to something that is no link, from name to name. -/
inductive Canonical (fs : FileSystem) : Path → Prop where
  | top : Canonical fs []
  | entry {directory : Path} {name : Text} {node : Node} (inside : Canonical fs directory)
      (directed : fs.isDirectory directory = true) (named : IsName name)
      (found : fs.lookup (directory ++ [name]) = some node) (real : ∀ target, node ≠ .link target) :
      Canonical fs (directory ++ [name])

/-- What a canonical path leads into has a canonical path. -/
theorem Canonical.dropLast {fs : FileSystem} {path : Path} (h : fs.Canonical path) :
    fs.Canonical path.dropLast := by
  cases h with
  | top => exact .top
  | entry inside directed named found real => rwa [List.dropLast_concat]

/-- A segment that is followed stays in a directory, goes to the parent directory, passes through a
link, or goes on to something that is no link. -/
theorem walk_cons_ok {fs : FileSystem} {purpose : Purpose} (hpurpose : purpose ≠ .entry)
    {links : Nat} {here path : Path} {segment : Text} {rest : List Text}
    (h : fs.walk purpose links here (segment :: rest) = .ok path) :
    fs.isDirectory here = true ∧
      (fs.walk purpose links here rest = .ok path ∨
        fs.walk purpose links here.dropLast rest = .ok path ∨
        (∃ fewer target, links = fewer + 1 ∧
          fs.walk purpose fewer (if PathText.isAbsolute target then [] else here)
            (Text.splitOn '/' target ++ rest) = .ok path) ∨
        segment ≠ [] ∧ segment ≠ ['.'] ∧ segment ≠ ['.', '.'] ∧
          ∃ node, fs.lookup (here ++ [segment]) = some node ∧ (∀ target, node ≠ .link target) ∧
            fs.walk purpose links (here ++ [segment]) rest = .ok path) := by
  rw [walk] at h
  split at h
  · cases h
  · next hdirected =>
      refine ⟨by simpa using hdirected, ?_⟩
      split at h
      · exact .inl h
      · next hstay =>
          split at h
          · exact .inr (.inl h)
          · next hparent =>
              split at h
              · cases h
              · split at h
                · cases h
                · split at h
                  · cases h
                  · next target hlookup =>
                      rw [if_neg fun hentry ↦ hpurpose hentry.2] at h
                      cases links with
                      | zero => cases h
                      | succ fewer => exact .inr (.inr (.inl ⟨fewer, target, rfl, h⟩))
                  · next node hreal hlookup =>
                      obtain ⟨hne, hdot⟩ := not_or.mp hstay
                      exact .inr (.inr (.inr ⟨hne, hdot, hparent, node, hlookup,
                        fun target heq ↦ hreal target (heq ▸ rfl), h⟩))

/-- Following segments from a canonical path ends at a canonical path. -/
theorem canonical_of_walk {fs : FileSystem} {purpose : Purpose} (hpurpose : purpose ≠ .entry)
    {links : Nat} {here path : Path} (hhere : fs.Canonical here) {segments : List Text}
    (hsegments : ∀ segment ∈ segments, '/' ∉ segment)
    (h : fs.walk purpose links here segments = .ok path) : fs.Canonical path := by
  -- a link costs one of the links that are left, and every other step one of the segments
  cases segments with
  | nil =>
      rw [walk] at h
      exact Except.ok.inj h ▸ hhere
  | cons segment rest =>
      obtain ⟨hsegment, hrest⟩ := List.forall_mem_cons.mp hsegments
      obtain ⟨hdirected, hstep⟩ := walk_cons_ok hpurpose h
      obtain hstay | hparent | ⟨fewer, target, hlinks, hlink⟩ | ⟨hne, hdot, hdots, hentry⟩ := hstep
      · exact canonical_of_walk hpurpose hhere hrest hstay
      · exact canonical_of_walk hpurpose hhere.dropLast hrest hparent
      · refine canonical_of_walk hpurpose ?_ ?_ hlink
        · split
          · exact .top
          · exact hhere
        · intro piece hpiece
          rcases List.mem_append.mp hpiece with htarget | hmem
          · exact Text.not_mem_of_mem_splitOn htarget
          · exact hrest piece hmem
      · obtain ⟨node, hfound, hreal, hgo⟩ := hentry
        exact canonical_of_walk hpurpose
          (.entry hhere hdirected ⟨hne, hdot, hdots, hsegment⟩ hfound hreal) hrest hgo
termination_by (links, segments.length)

/-- The resolved path of an absolute path is canonical. -/
theorem canonical_of_resolve {fs : FileSystem} {path : Path} {spelled : Text}
    (habsolute : PathText.isAbsolute spelled = true) (h : fs.resolve [] spelled = .ok path) :
    fs.Canonical path := by
  unfold resolve resolveFor at h
  split at h
  · cases h
  · split at h
    · cases h
    · split at h
      · cases h
      · exact canonical_of_walk (by simp) .top (fun _ ↦ Text.not_mem_of_mem_splitOn) h

end FileSystem

/-- A path that is taken from a resolved one is absolute. -/
theorem PathText.isAbsolute_join_render (root : Path) (file : Text) :
    isAbsolute (join root.render file) = true := by
  have hrender : ∃ rest, root.render = '/' :: rest := by
    unfold Path.render
    cases root with
    | nil => exact ⟨[], rfl⟩
    | cons name rest => exact ⟨name ++ rest.flatMap ('/' :: ·), rfl⟩
  obtain ⟨rest, hrest⟩ := hrender
  unfold join
  split
  · assumption
  · rw [hrest]
    split
    · rfl
    · rfl

namespace Checkout

/-- The path that a file has behind all links, be it below the root or not. -/
def leadsTo (checkout : Checkout) (file : Text) : Except SystemError Path :=
  checkout.fs.resolve [] (PathText.join checkout.workspace.root.render file)

/-- The path is canonical, and it is the root or goes on from it name by name. -/
def Confined (checkout : Checkout) (path : Path) : Prop :=
  checkout.fs.Canonical path ∧ checkout.workspace.root <+: path

variable {checkout : Checkout} {file t : Text} {path : Path}

/-- A path leads to a file of the checkout when it leads below the root. -/
theorem resolve_ok_iff : checkout.workspace.resolve checkout.fs file = .ok path ↔
    checkout.leadsTo file = .ok path ∧ checkout.workspace.root <+: path := by
  unfold Workspace.resolve leadsTo
  dsimp only
  cases checkout.fs.resolve [] (PathText.join checkout.workspace.root.render file) with
  | error cause => simp
  | ok target =>
      simp only [List.isPrefixOf_iff_prefix, Except.ok.injEq]
      split
      · next hbelow =>
          rw [Except.ok.injEq, iff_self_and]
          rintro rfl
          exact hbelow
      · next houtside =>
          simp only [reduceCtorEq, false_iff, not_and]
          rintro rfl
          exact houtside

/-- A path that leads elsewhere is refused. -/
theorem resolve_of_outside (h : checkout.leadsTo file = .ok path)
    (houtside : ¬ checkout.workspace.root <+: path) :
    checkout.workspace.resolve checkout.fs file =
      .error (.outsideRoot path.render checkout.workspace.root.render) := by
  unfold leadsTo at h
  unfold Workspace.resolve
  simp only [h, List.isPrefixOf_iff_prefix, if_neg houtside]

/-- The target of a path is canonical and below the root. -/
theorem confined_of_target? (h : checkout.target? file = some path) : checkout.Confined path := by
  obtain ⟨hleads, hbelow⟩ := resolve_ok_iff.mp (toOption_eq_some_iff.mp h)
  exact ⟨FileSystem.canonical_of_resolve (PathText.isAbsolute_join_render _ _) hleads, hbelow⟩

/-- A file whose path is refused is not read. -/
theorem read_of_resolve {cause : StoreError}
    (h : checkout.workspace.resolve checkout.fs file = .error cause) :
    checkout.read file = .error cause := by
  simp only [read, Workspace.read, h]
  rfl

/-- A file whose path is refused is not written. -/
theorem write_of_resolve {cause : StoreError}
    (h : checkout.workspace.resolve checkout.fs file = .error cause) :
    checkout.write file t = .error cause := by
  simp only [write, Workspace.write, h]
  rfl

end Checkout

end MarkedEdits
