import MarkedEdits.PatchSet.Check
import MarkedEdits.Proofs.FileSystem.Checkout
import MarkedEdits.Proofs.Plan.Faithful
import MarkedEdits.Proofs.Scope.Attribution
import MarkedEdits.Proofs.Scope.Inspection

/-!
# Which lines of other namespaces are listed

When an editor reports the markers of other namespaces, the error counts the lines that hold a stem,
and the inspection lists the matches of the guards. A guard has one match for every stem, and the
guards stop at the first match that begins where another edit has one. So what is listed are lines
that hold a stem, but a line with two stems is listed twice, and lines behind the one at which the
guards stop are not listed. The list agrees with the count exactly when neither happens
(`Editor.foreign_listed_iff`). If the guards can be planned behind the edits, they do not stop, and
it is enough that neither stem stands twice on a line (`Editor.thorough_iff_of_plan`).
-/

namespace MarkedEdits

open Text

open scoped List

/-! ## Claims up to the first that is in the way -/

namespace Plan

/-- Whether an edit can claim lines that begin at the offset is decided claim by claim. -/
instance (claims : List (Nat × Match)) (index start : Nat) : Decidable (Free claims index start) :=
  inferInstanceAs (Decidable (∀ claim ∈ claims, _ → _))

/-- Those of the claims that are tried on top of the claims made before: all, or those up to the
first that begins where another edit has one. -/
def tried (claims : List (Nat × Match)) : List (Nat × Match) → List (Nat × Match)
  | [] => []
  | claim :: rest =>
      if Free claims claim.1 claim.2.start then claim :: tried (claims ++ [claim]) rest
      else [claim]

variable {t : Text} {edits more : List Edit} {claims first : List (Nat × Match)}

/-- Only claims of the list are tried. -/
theorem tried_subset (claims rest : List (Nat × Match)) : tried claims rest ⊆ rest := by
  induction rest generalizing claims with
  | nil => exact fun _ h ↦ h
  | cons claim rest ih =>
      rw [tried]
      split
      · exact List.cons_subset_cons claim (ih _)
      · exact List.cons_subset_cons claim (List.nil_subset rest)

/-- Claims that are in nobody's way are all tried, and those behind them are tried on top of them.
-/
theorem tried_append (h : Separate (claims ++ first)) (rest : List (Nat × Match)) :
    tried claims (first ++ rest) = first ++ tried (claims ++ first) rest := by
  induction first generalizing claims with
  | nil => simp
  | cons claim first ih =>
      have hfree : Free claims claim.1 claim.2.start := fun other hother hstart ↦
        h other (by simp [hother]) claim (by simp) hstart
      rw [List.append_cons] at h ⊢
      rw [List.cons_append, tried, if_pos hfree, ih h, List.cons_append]

/-- The claims of edits that can be planned are all tried. -/
theorem tried_of_separate (h : Separate (claims ++ first)) : tried claims first = first := by
  have htried := tried_append h []
  rwa [List.append_nil, tried, List.append_nil] at htried

/-- The claims of edits are their matches. -/
theorem map_claimsFrom (t : Text) (index : Nat) (edits : List Edit) :
    (claimsFrom t index edits).map (·.2) = edits.flatMap (matchesOf t) := by
  induction edits generalizing index with
  | nil => rfl
  | cons edit rest ih =>
      rw [claimsFrom, List.map_append, ih, List.map_map, List.flatMap_cons]
      congr 1
      exact List.map_id _

/-- When all edits are planned, the claims of those behind a list are tried and found. -/
theorem found_of_plan {both : Plan} (h : ofEdits t (edits ++ more) = .ok both) :
    (both.results.drop edits.length).flatMap (·.found) =
      (tried (claimsFrom t 0 edits) (claimsFrom t edits.length more)).map (·.2) := by
  have hseparate := (ofEdits_ok_iff.mp ⟨both, h⟩).2
  rw [claimsFrom_append, Nat.zero_add] at hseparate
  rw [tried_of_separate hseparate, map_claimsFrom, ofEdits_results h, List.map_append,
    List.drop_left' (List.length_map _), List.flatMap_map]

/-- An edit that may have any number of matches stops the planning at the first match that begins
where another edit has a claim. -/
theorem Stops.collides {index : Nat} {edit : Edit} {found : List Match} {error : EditError}
    (h : Stops t claims index edit found error) (hmultiple : edit.allowMultiple = true)
    (hzero : edit.allowZero = true) :
    ∃ free last behind, matchesOf t edit = free ++ last :: behind ∧ found = free ++ [last] ∧
      (∀ lines ∈ free, Free claims index lines.start) ∧ ¬ Free claims index last.start := by
  cases h with
  | missing hmatches hnone => simp [hzero] at hnone
  | exceeding hmatches hfree hsingle => simp [hmultiple] at hsingle
  | colliding hmatches hfree hcount hother hclaimed =>
      obtain ⟨lines, hlines, hstart⟩ := hclaimed
      exact ⟨_, _, _, hmatches, rfl, hfree, fun hnone ↦ hother (hnone _ hlines hstart)⟩

/-- When edits are planned but not with those behind them, which may have any number of matches, the
claims of the latter are tried and found up to the first that is in the way. -/
theorem found_of_failure {plan : Plan} {failure : PlanFailure} (hplan : ofEdits t edits = .ok plan)
    (hmore : ∀ edit ∈ more, edit.allowMultiple = true ∧ edit.allowZero = true)
    (h : ofEdits t (edits ++ more) = .error failure) :
    (failure.results.drop edits.length).flatMap (·.found) =
      (tried (claimsFrom t 0 edits) (claimsFrom t edits.length more)).map (·.2) := by
  obtain ⟨done, edit, behind, plan', found, rfl, hbefore, hresults, hstops⟩ :=
    ofEdits_error_behind hplan h
  obtain ⟨hmultiple, hzero⟩ := hmore edit (by simp)
  obtain ⟨free, last, left, hmatches, rfl, hfree, hcontested⟩ := hstops.collides hmultiple hzero
  let index := edits.length + done.length
  let made := claimsFrom t edits.length done ++ free.map (index, ·)
  have hseparate : Separate (claimsFrom t 0 edits ++ made) := by
    have hdone := (ofEdits_ok_iff.mp ⟨plan', hbefore⟩).2
    rw [claimsFrom_append, Nat.zero_add] at hdone
    rw [← List.append_assoc]
    refine separate_append_iff.mpr ⟨hdone, separate_map _ _, fun a ha b hb hstart ↦ ?_⟩
    obtain ⟨lines, hlines, rfl⟩ := List.mem_map.mp hb
    exact hfree lines hlines a ha hstart
  have hclaims : claimsFrom t edits.length (done ++ edit :: behind) =
      made ++ (index, last) :: (left.map (index, ·) ++ claimsFrom t (index + 1) behind) := by
    rw [claimsFrom_append, claimsFrom, hmatches]
    simp [made, index]
  have hstop : ¬ Free (claimsFrom t 0 edits ++ made) index last.start := by
    rw [← List.append_assoc]
    exact fun h ↦ hcontested (free_append_map.mp h)
  rw [hclaims, tried_append hseparate, tried, if_neg hstop, hresults, ofEdits_results hbefore,
    List.map_append, List.append_assoc, List.drop_left' (List.length_map _)]
  simp [made, map_claimsFrom, List.flatMap_map]

end Plan

namespace Editor

variable {editor : Editor} {t : Text} {edits : List Edit}

/-! ## Lines that hold a stem -/

/-- The lines that hold a stem, where they stand in the text. -/
def stemLines (editor : Editor) (t : Text) : List Match :=
  ((placed t).filter fun p ↦ editor.markers.onLine p.line).map fun p ↦ ⟨p.start, p.stop, p.line⟩

/-- The lines that the guards come upon behind the edits, in the order in which they do. -/
def sightings (editor : Editor) (t : Text) (edits : List Edit) : List Match :=
  (Plan.tried (Plan.claimsFrom t 0 edits)
    (Plan.claimsFrom t edits.length editor.guards)).map (·.2)

/-- The guards come upon every line that holds a stem, and upon none of them twice. -/
structure Thorough (editor : Editor) (t : Text) (edits : List Edit) : Prop where
  once : (editor.sightings t edits).Nodup
  all : ∀ lines ∈ editor.stemLines t, lines ∈ editor.sightings t edits

/-- A line that stands in a text is what is cut out of the text at its ends. -/
theorem slice_placed {p : PlacedLine} (hp : p ∈ placed t) : slice t p.start p.stop = p.line := by
  obtain ⟨before, after, hlines, hstart⟩ := mem_placeFrom_iff.mp hp
  have ht : t = before.flatten ++ p.line ++ after.flatten := by
    rw [← flatten_lines t, hlines]
    simp
  rw [PlacedLine.stop, hstart, Nat.zero_add, ht, slice_append]

/-- A line that holds a stem is one of the lines that stand in the text. -/
theorem mem_stemLines_iff {lines : Match} :
    lines ∈ editor.stemLines t ↔ ∃ p ∈ placed t, editor.markers.onLine p.line = true ∧
      lines = ⟨p.start, p.stop, p.line⟩ := by
  simp only [stemLines, List.mem_map, List.mem_filter, and_assoc, eq_comm]

/-- What the guards claim are lines that hold a stem. -/
theorem mem_stemLines_of_claim {index : Nat} {claim : Nat × Match}
    (h : claim ∈ Plan.claimsFrom t index editor.guards) : claim.2 ∈ editor.stemLines t := by
  obtain ⟨p, hp, hline, hstart, hstop⟩ := exists_placed_of_claim h
  obtain ⟨k, guard, -, -, hlines⟩ := Plan.mem_claimsFrom.mp h
  have htext : claim.2.text = p.line := by
    rw [Plan.text_of_mem_matchesOf hlines, hstart, hstop, slice_placed hp]
  refine mem_stemLines_iff.mpr ⟨p, hp, hline, ?_⟩
  rw [← hstart, ← hstop, ← htext]

/-- The guards come upon nothing but lines that hold a stem. -/
theorem sightings_subset (t : Text) (edits : List Edit) :
    editor.sightings t edits ⊆ editor.stemLines t := by
  intro lines hlines
  obtain ⟨claim, hclaim, rfl⟩ := List.mem_map.mp hlines
  exact mem_stemLines_of_claim (Plan.tried_subset _ _ hclaim)

/-- The lines that hold a stem are in the order of their starts. -/
theorem pairwise_stemLines (editor : Editor) (t : Text) :
    (editor.stemLines t).Pairwise (·.start < ·.start) := by
  have hplaced : (placed t).Pairwise (·.start < ·.start) :=
    (pairwise_placeFrom 0 (lines t)).imp_of_mem fun ha _ hle ↦
      Nat.lt_of_lt_of_le (start_lt_stop ha) hle
  exact List.Pairwise.map _ (fun _ _ hlt ↦ hlt) (hplaced.filter _)

/-- The scan for lines that hold a stem tells their numbers. -/
theorem foreignLines_eq (editor : Editor) (t : Text) :
    editor.markers.foreignLines t =
      (editor.stemLines t).map fun lines ↦ lineNumber t lines.start := by
  rw [Markers.foreignLines, ← map_placed_lineNumber, List.filterMap_map, stemLines, List.map_map,
    ← List.filterMap_eq_map, List.filterMap_filter]
  rfl

/-- Different lines that hold a stem have different numbers. -/
theorem eq_of_lineNumber {a b : Match} (ha : a ∈ editor.stemLines t) (hb : b ∈ editor.stemLines t)
    (h : lineNumber t a.start = lineNumber t b.start) : a = b := by
  obtain ⟨p, hp, -, rfl⟩ := mem_stemLines_iff.mp ha
  obtain ⟨q, hq, -, rfl⟩ := mem_stemLines_iff.mp hb
  have hnumbers : ((placed t).map fun p ↦ lineNumber t p.start).Nodup := by
    have hall := congrArg (List.map Prod.snd) (map_placed_lineNumber t)
    rw [List.map_map, List.zipIdx_map_snd] at hall
    exact hall ▸ List.nodup_range'
  rw [List.inj_on_of_nodup_map hnumbers hp hq h]

/-- What is listed is the lines that hold a stem, read in any way that keeps them apart, when every
one of them is listed and none twice. -/
theorem perm_map_stemLines_iff {β : Type} {f : Match → β}
    (hf : ∀ a ∈ editor.stemLines t, ∀ b ∈ editor.stemLines t, f a = f b → a = b) :
    (editor.sightings t edits).map f ~ (editor.stemLines t).map f ↔ editor.Thorough t edits := by
  have hnodup : (editor.stemLines t).Nodup :=
    (editor.pairwise_stemLines t).imp fun hlt heq ↦ Nat.ne_of_lt hlt (congrArg Match.start heq)
  have hsub := editor.sightings_subset t edits
  constructor
  · intro h
    have hnodup' : ((editor.sightings t edits).map f).Nodup :=
      h.nodup_iff.mpr (hnodup.map_on hf)
    refine ⟨hnodup'.of_map f, fun lines hlines ↦ ?_⟩
    obtain ⟨other, hother, hsame⟩ := List.mem_map.mp (h.mem_iff.mpr (List.mem_map_of_mem hlines))
    rwa [← hf other (hsub hother) lines hlines hsame]
  · rintro ⟨honce, hall⟩
    refine List.Perm.map f ((List.perm_ext_iff_of_nodup honce hnodup).mpr fun lines ↦ ?_)
    exact ⟨fun h ↦ hsub h, hall lines⟩

/-- When the edits can be planned together with the guards, these come upon every line that holds a
stem. They come upon none of them twice exactly if neither stem stands twice on a line. -/
theorem thorough_iff_of_plan {both : Plan}
    (hboth : Plan.ofEdits t (edits ++ editor.guards) = .ok both) :
    editor.Thorough t edits ↔ ∀ guard ∈ editor.guards, (Plan.matchesOf t guard).Nodup := by
  have hseparate := (Plan.ofEdits_ok_iff.mp ⟨both, hboth⟩).2
  rw [Plan.claimsFrom_append, Nat.zero_add] at hseparate
  have hsightings : editor.sightings t edits =
      (Plan.claimsFrom t edits.length editor.guards).map (·.2) := by
    rw [sightings, Plan.tried_of_separate hseparate]
  have hguards : editor.sightings t edits = editor.guards.flatMap (Plan.matchesOf t) :=
    hsightings.trans (Plan.map_claimsFrom ..)
  refine ⟨fun h guard hguard ↦ ?_, fun hsingle ↦ ⟨?_, fun lines hlines ↦ ?_⟩⟩
  · have honce := h.once
    rw [hguards, List.nodup_flatMap] at honce
    exact honce.1 guard hguard
  · have hapart := (Plan.separate_append_iff.mp hseparate).2.1
    rw [claimsFrom_guards, Plan.separate_append_iff] at hapart
    have hinsert := hsingle _ List.mem_cons_self
    have hdelete := hsingle _ (List.mem_cons_of_mem _ List.mem_cons_self)
    rw [hguards, guards, List.flatMap_cons, List.flatMap_singleton]
    refine hinsert.append hdelete fun lines hfirst hsecond ↦ ?_
    -- a line that both guards match would be in the way of the second one
    have hsame := hapart.2.2 _ (List.mem_map_of_mem hfirst) _ (List.mem_map_of_mem hsecond) rfl
    exact absurd hsame (Nat.ne_of_lt (Nat.lt_succ_self _))
  · obtain ⟨p, hp, hline, rfl⟩ := mem_stemLines_iff.mp hlines
    obtain ⟨claim, hclaim, hstart, -⟩ := exists_claim_of_placed edits.length hp hline
    obtain ⟨q, hq, -, heq⟩ := mem_stemLines_iff.mp (mem_stemLines_of_claim hclaim)
    have hbegin : q.start = p.start := by rw [← hstart, heq]
    rw [← eq_of_placed_start hq hp hbegin, ← heq, hsightings]
    exact List.mem_map_of_mem hclaim

/-! ## What is listed -/

/-- The inspection of edits that can be planned lists the lines that the guards come upon. -/
theorem foreign_of_inspect {plan : Plan} (hplan : Plan.ofEdits (editor.revert t) edits = .ok plan) :
    (editor.inspect t edits).foreign = editor.sightings (editor.revert t) edits := by
  show ((editor.evaluate (editor.revert t) edits).2.drop edits.length).flatMap (·.found) = _
  rw [results_of_evaluate, sightings]
  split
  · next failure hfailure =>
      exact Plan.found_of_failure hplan (fun _ ↦ any_count_of_mem_guards) hfailure
  · next both hboth => exact Plan.found_of_plan hboth

/-- When the markers of other namespaces are reported, the lines that hold a stem are counted, and
the first of them is numbered. -/
theorem foreignMarkers_of_evaluate {count first : Nat}
    (h : (editor.evaluate t edits).1 = .error (.foreignMarkers count first)) :
    count = (editor.stemLines t).length ∧
      (editor.stemLines t).head?.map (fun lines ↦ lineNumber t lines.start) = some first := by
  have herror : EditError.foreignMarkers count first = editor.markers.foreignError t := by
    rcases evaluate_error_cases h with hforeign | ⟨hmisfit, -⟩
    · exact hforeign
    · cases hmisfit
  rw [Markers.foreignError, foreignLines_eq, List.length_map, EditError.foreignMarkers.injEq]
    at herror
  obtain ⟨line, hline, hstem⟩ := exists_onLine_of_foreignMarkers h
  obtain ⟨p, hp, rfl⟩ := exists_placed_of_mem_lines hline
  have hmem : ⟨p.start, p.stop, p.line⟩ ∈ editor.stemLines t :=
    mem_stemLines_iff.mpr ⟨p, hp, hstem, rfl⟩
  obtain ⟨lines, rest, hlines⟩ := List.exists_cons_of_ne_nil (List.ne_nil_of_mem hmem)
  refine ⟨herror.1, ?_⟩
  rw [herror.2, hlines]
  rfl

/-- When the markers of other namespaces are reported, the error tells how many lines hold a stem
and the number of the first. What is listed are the lines that the guards come upon. All of these
hold a stem, and they are the lines that are counted exactly when the guards come upon every one of
them once. If the guards can be planned behind the edits then that is so exactly if neither stem
stands twice on a line. Then, and only then, the numbers in the report on a file are those of the
lines that its error message counts. -/
theorem foreign_listed_iff (editor : Editor) (t : Text) (edits : List Edit) {count first : Nat}
    (h : (editor.inspect t edits).error = some (.foreignMarkers count first)) :
    let base := editor.revert t
    let listed := (editor.inspect t edits).foreign
    listed = editor.sightings base edits ∧ listed ⊆ editor.stemLines base ∧
      count = (editor.stemLines base).length ∧
      (editor.stemLines base).head?.map (fun lines ↦ lineNumber base lines.start) = some first ∧
      (listed ~ editor.stemLines base ↔ editor.Thorough base edits) ∧
      (∀ both, Plan.ofEdits base (edits ++ editor.guards) = .ok both →
        (editor.Thorough base edits ↔
          ∀ guard ∈ editor.guards, (Plan.matchesOf base guard).Nodup)) ∧
      ∀ (set : PatchSet) (checkout next : Checkout) (file : Text) (indices : List Nat),
        checkout.read file = .ok (t, next) → set.edits file indices = .ok edits →
        ∃ report, (set.checkFile editor checkout file indices).1 = .ok report ∧
          report.error =
            some (TargetError.edit file none (.foreignMarkers count first)).message ∧
          (report.foreignLines ~ editor.markers.foreignLines base ↔
            editor.Thorough base edits) := by
  intro base listed
  have heval := inspect_error_iff.mp h
  obtain ⟨plan, hplan⟩ := exists_plan_of_foreignMarkers heval
  obtain ⟨hcount, hfirst⟩ := foreignMarkers_of_evaluate heval
  have hlisted : listed = editor.sightings base edits := foreign_of_inspect hplan
  have hperm : ∀ {β : Type} {f : Match → β},
      (∀ a ∈ editor.stemLines base, ∀ b ∈ editor.stemLines base, f a = f b → a = b) →
      (listed.map f ~ (editor.stemLines base).map f ↔ editor.Thorough base edits) := by
    rw [hlisted]
    exact perm_map_stemLines_iff
  refine ⟨hlisted, hlisted ▸ sightings_subset base edits, hcount, hfirst, ?_,
    fun both hboth ↦ thorough_iff_of_plan hboth,
    fun set checkout next file indices hread hedits ↦ ?_⟩
  · have hsame := hperm (f := id) fun _ _ _ _ heq ↦ heq
    rwa [List.map_id, List.map_id] at hsame
  · refine ⟨_, by rw [PatchSet.checkFile, hread, hedits], ?_, ?_⟩
    · simp only [PatchSet.status, h]
      rfl
    · rw [foreignLines_eq]
      exact hperm fun a ha b hb heq ↦ eq_of_lineNumber ha hb heq

/-- Two lines of other namespaces hold one stem each. Both are listed, and the report on the file
tells their numbers. -/
theorem foreign_listed_iff_apart :
    let editor : Editor :=
      { owner := ⟨['b'], by simp, List.forall_mem_singleton.mpr rfl⟩, style := .hash
        usable := by decide }
    let edit : Edit :=
      { anchors := [['x']], anchors_ne_nil := by simp, anchor_ne_nil := by simp
        before := ['z'] }
    let set : PatchSet :=
      { info := { owner := ['b'], style := .hash }
        patches := [{ file := ['f'], search := some ['x'], before := ['z'] }] }
    let t := "# - PL:a - # y\nx\n# + PL:a + # w".toList
    (editor.inspect t [edit]).error = some (.foreignMarkers 2 1) ∧
      (editor.inspect t [edit]).foreign ~
        [⟨0, 15, "# - PL:a - # y\n".toList⟩, ⟨17, 31, "# + PL:a + # w".toList⟩] ∧
      ∃ report, (set.checkFile editor (.single t) ['f'] [0]).1 = .ok report ∧
        report.foreignLines ~ [1, 3] := by
  intro editor edit set t
  have herror : (editor.inspect t [edit]).error = some (.foreignMarkers 2 1) := by
    simp only [editor, edit, t]
    decide +kernel
  have hstems : editor.stemLines (editor.revert t) =
      [⟨0, 15, "# - PL:a - # y\n".toList⟩, ⟨17, 31, "# + PL:a + # w".toList⟩] := by
    simp only [editor, t]
    decide +kernel
  have hnumbers : editor.markers.foreignLines (editor.revert t) = [1, 3] := by
    simp only [editor, t]
    decide +kernel
  have hplanned : (Plan.ofEdits (editor.revert t) ([edit] ++ editor.guards)).toOption.isSome := by
    simp only [editor, edit, t]
    decide +kernel
  have hsingle : ∀ guard ∈ editor.guards, (Plan.matchesOf (editor.revert t) guard).Nodup := by
    simp only [editor, t]
    decide +kernel
  obtain ⟨-, -, -, -, hlisted, hthorough, hcheck⟩ := foreign_listed_iff editor t [edit] herror
  obtain ⟨both, hboth⟩ := Option.isSome_iff_exists.mp hplanned
  replace hthorough := (hthorough both (toOption_eq_some_iff.mp hboth)).mpr hsingle
  have hread := Checkout.read_ok_iff.mpr
    ⟨[['f']], 0o644, Checkout.target?_single t, Checkout.holds_single t, rfl⟩
  obtain ⟨report, hreport, -, hreported⟩ := hcheck set (.single t) _ ['f'] [0] hread rfl
  exact ⟨herror, hstems ▸ hlisted.mpr hthorough, report, hreport,
    hnumbers ▸ hreported.mpr hthorough⟩

/-- A line with two stems is counted once and listed twice. When an edit matches the first of two
lines that hold a stem, both are counted and the second one is not listed. -/
theorem not_foreign_listed :
    let editor (scope : Scope) : Editor :=
      { owner := ⟨['b'], by simp, List.forall_mem_singleton.mpr rfl⟩, style := .hash
        usable := by decide, scope }
    let edit : Edit :=
      { anchors := [['y']], anchors_ne_nil := by simp, anchor_ne_nil := by simp
        before := ['z'] }
    let twice := "# + PL:a + # # + PL:a + #\ny\n".toList
    let line : Match := ⟨0, 26, "# + PL:a + # # + PL:a + #\n".toList⟩
    let short := "# + PL:a + # y\n# + PL:a + # w\n".toList
    ((editor .file).inspect twice [edit]).error = some (.foreignMarkers 1 1) ∧
      ((editor .file).inspect twice [edit]).foreign = [line, line] ∧
      ((editor .span).inspect short [edit]).error = some (.foreignMarkers 2 1) ∧
      ((editor .span).inspect short [edit]).foreign = [⟨0, 15, "# + PL:a + # y\n".toList⟩] := by
  intro editor edit twice line short
  simp only [editor, edit, twice, line, short]
  refine ⟨?_, ?_, ?_, ?_⟩
  all_goals decide +kernel

end Editor

end MarkedEdits
