import Dockerfile.Rule.Checks
import Dockerfile.Proofs.Optimize.Step

/-!
Rules and the passes that mend them.

Five rules have a pass that mends what they report. Rule and pass look for it each in its own way;
`remedies_agree` says that they find the same, in the same order and at the same lines, and that
the rule has nothing to say about what the pass leaves.

Four of the pairs test one instruction at a time (`lines_replaceEach_eq`). The rule on consecutive
RUNs looks at each instruction with the ones before and after it, the pass at whole blocks:
`runStarts_flatten` reads the rule on a list of blocks.
-/

namespace Dockerfile

open Optimize Rule Text

/-- The rules that a pass mends, each with that pass. -/
def remedies : List (Rule × Pass) :=
  [(.consecutiveRuns, .mergeRuns), (.uncleanedInstall, .clean),
   (.portWithoutProtocol, .addProtocol), (.addUsed, .addToCopy),
   (.installWithoutUpdate, .prependUpdate)]

/-- The rule reports at exactly the lines at which the pass logs its changes. -/
def SameLines (rule : Rule) (pass : Pass) : Prop :=
  ∀ (registry : Registry) (xs : List Instruction), ∃ findings,
    rule.check registry xs = .ok findings ∧
      (pass.apply xs).changes.map Change.line = findings.map Finding.line

/-! ### One instruction at a time -/

/-- A rule that reports what it finds by a test agrees with a pass that replaces by that test. -/
theorem lines_replaceEach_eq {f : Instruction → Option (Instruction × Change)}
    {test : Instruction → Bool} {report : Instruction → Finding}
    (same : ∀ x, (f x).isSome = test x)
    (logged : ∀ x y change, f x = some (y, change) → change.line = x.line)
    (reported : ∀ x, (report x).line = x.line) (xs : List Instruction) :
    (replaceEach f xs).changes.map Change.line =
      ((xs.filter test).map report).map Finding.line := by
  rw [lines_replaceEach logged, List.map_map, List.filter_congr fun x _ => same x]
  exact List.map_congr_left fun x _ => (reported x).symm

theorem sameLines_clean : SameLines .uncleanedInstall .clean := by
  intro registry xs
  refine ⟨_, rfl, lines_replaceEach_eq (fun x => ?_) (fun x y change h => ?_) (fun x => rfl) xs⟩
  · rw [Bool.eq_iff_iff, clean?, Option.isSome_ite]
  · obtain ⟨-, -, -, -, rfl⟩ := clean?_eq_some.mp h
    rfl

theorem sameLines_addProtocol : SameLines .portWithoutProtocol .addProtocol := by
  intro registry xs
  refine ⟨_, rfl, lines_replaceEach_eq (fun x => ?_) (fun x y change h => ?_) (fun x => rfl) xs⟩
  · rw [Bool.eq_iff_iff, addProtocol?, Option.isSome_ite]
  · obtain ⟨-, -, -, rfl⟩ := addProtocol?_eq_some.mp h
    rfl

theorem sameLines_addToCopy : SameLines .addUsed .addToCopy := by
  intro registry xs
  refine ⟨_, rfl, lines_replaceEach_eq (fun x => ?_) (fun x y change h => ?_) (fun x => rfl) xs⟩
  · rw [Bool.eq_iff_iff, addToCopy?, Option.isSome_ite, beq_iff_eq]
  · obtain ⟨-, -, rfl⟩ := addToCopy?_eq_some.mp h
    rfl

theorem sameLines_prependUpdate : SameLines .installWithoutUpdate .prependUpdate := by
  intro registry xs
  refine ⟨_, rfl, lines_replaceEach_eq (fun x => ?_) (fun x y change h => ?_) (fun x => rfl) xs⟩
  · rw [Bool.eq_iff_iff, prependUpdate?, Option.isSome_ite]
  · obtain ⟨-, -, -, -, rfl⟩ := prependUpdate?_eq_some.mp h
    rfl

/-! ### Consecutive RUNs -/

/-- The first instruction of a block that is reported: one of RUNs, and of more than one. -/
def blockStart : List Instruction → List Instruction
  | first :: _ :: _ => if first.keyword = .run then [first] else []
  | _ => []

/-- What stands before a list matters only if the list starts with a RUN. -/
theorem runStarts_eq_of_head {xs : List Instruction} (h : ∀ x ∈ xs.head?, x.keyword ≠ .run)
    (afterRun : Bool) : runStarts afterRun xs = runStarts false xs := by
  match xs with
  | [] => rfl
  | [_] => rfl
  | first :: second :: rest =>
    have ne : first.keyword ≠ .run := h first rfl
    simp [runStarts, ne]

/-- After a RUN, no RUN of the same block is reported, and reading goes on behind the block. -/
theorem runStarts_append_of_afterRun {block rest : List Instruction}
    (runs : ∀ x ∈ block, x.keyword = .run) (other : ∀ x ∈ rest.head?, x.keyword ≠ .run) :
    runStarts true (block ++ rest) = runStarts false rest := by
  induction block with
  | nil => exact runStarts_eq_of_head other true
  | cons first block ih =>
    have hfirst : first.keyword = .run := runs first List.mem_cons_self
    have later := ih fun x hx => runs x (List.mem_cons_of_mem _ hx)
    cases hrest : block ++ rest with
    | nil =>
      obtain ⟨rfl, rfl⟩ := List.append_eq_nil_iff.mp hrest
      rfl
    | cons next more =>
      rw [hrest] at later
      rw [List.cons_append, hrest]
      simp [runStarts, hfirst, later]

/-- Of a block without RUNs nothing is reported. -/
theorem runStarts_append_of_not_run {block rest : List Instruction}
    (others : ∀ x ∈ block, x.keyword ≠ .run) (afterRun : Bool) :
    runStarts afterRun (block ++ rest) = runStarts (afterRun && block.isEmpty) rest := by
  induction block generalizing afterRun with
  | nil => simp
  | cons first block ih =>
    have hfirst : first.keyword ≠ .run := others first List.mem_cons_self
    have later := ih (fun x hx => others x (List.mem_cons_of_mem _ hx)) false
    cases hrest : block ++ rest with
    | nil =>
      obtain ⟨rfl, rfl⟩ := List.append_eq_nil_iff.mp hrest
      rfl
    | cons next more =>
      rw [hrest] at later
      rw [List.cons_append, hrest]
      have afterFirst : (first.keyword == .run) = false := by simpa using hfirst
      simpa [runStarts, hfirst, afterFirst] using later

/-- A block adds its start to what is reported of the rest. -/
theorem runStarts_block {block rest : List Instruction}
    (same : ∀ x ∈ block, ∀ y ∈ block, x.keyword = y.keyword)
    (differ : ∀ x ∈ block, ∀ y ∈ rest.head?, x.keyword ≠ y.keyword) :
    runStarts false (block ++ rest) = blockStart block ++ runStarts false rest := by
  match block with
  | [] => rfl
  | first :: block =>
    by_cases hfirst : first.keyword = .run
    · have runs : ∀ x ∈ block, x.keyword = .run := fun x hx =>
        (same x (List.mem_cons_of_mem _ hx) first List.mem_cons_self).trans hfirst
      have other : ∀ x ∈ rest.head?, x.keyword ≠ .run := fun x hx heq =>
        differ first List.mem_cons_self x hx (hfirst.trans heq.symm)
      have later := runStarts_append_of_afterRun runs other
      match block, rest with
      | [], [] => rfl
      | [], next :: rest =>
        have hnext : next.keyword ≠ .run := other next rfl
        simpa [runStarts, blockStart, hnext, hfirst] using later
      | second :: block, rest =>
        have hsecond : second.keyword = .run := runs second List.mem_cons_self
        rw [List.cons_append] at later
        simp [runStarts, blockStart, hfirst, hsecond, later]
    · have others : ∀ x ∈ first :: block, x.keyword ≠ .run := fun x hx heq =>
        hfirst ((same first List.mem_cons_self x hx).trans heq)
      have nothing : blockStart (first :: block) = [] := by
        cases block <;> simp [blockStart, hfirst]
      rw [runStarts_append_of_not_run others, nothing]
      rfl

theorem runStarts_flatten {bs : List (List Instruction)} (ne : [] ∉ bs)
    (same : ∀ b ∈ bs, ∀ x ∈ b, ∀ y ∈ b, x.keyword = y.keyword) (differ : bs.IsChain Differ) :
    runStarts false bs.flatten = bs.flatMap blockStart := by
  induction bs with
  | nil => rfl
  | cons block bs ih =>
    have later := ih (fun h => ne (List.mem_cons_of_mem _ h))
      (fun b hb => same b (List.mem_cons_of_mem _ hb)) differ.tail
    have apart : ∀ x ∈ block, ∀ y ∈ bs.flatten.head?, x.keyword ≠ y.keyword := by
      intro x hx y hy
      match bs with
      | [] => simp at hy
      | next :: bs =>
        -- The next block is not empty, so its first instruction follows.
        have hnext : next ≠ [] := fun h => ne (by simp [h])
        rw [List.flatten_cons, List.head?_append_of_ne_nil _ hnext] at hy
        exact (List.isChain_cons_cons.mp differ).1 x hx y (List.mem_of_mem_head? hy)
    rw [List.flatten_cons, runStarts_block (same block List.mem_cons_self) apart, later,
      List.flatMap_cons]

theorem lines_mergeBlock_eq (block : List Instruction) :
    (mergeBlock (· == .run) " \\\n    && " (fun _ count line => .mergedRuns count line)
      block).changes.map Change.line = (blockStart block).map Instruction.line := by
  match block with
  | [] => rfl
  | [_] => rfl
  | first :: second :: rest =>
    by_cases h : first.keyword = .run <;> simp [mergeBlock, blockStart, h, Change.line]

theorem sameLines_mergeRuns : SameLines .consecutiveRuns .mergeRuns := by
  intro registry xs
  refine ⟨_, rfl, ?_⟩
  have starts : runStarts false xs = (blocks xs).flatMap blockStart := by
    have := runStarts_flatten (nil_notMem_blocks xs)
      (fun b hb x hx y hy => keyword_eq_of_mem_block hb hx hy) (blocks_differ xs)
    rwa [flatten_blocks] at this
  calc (Pass.mergeRuns.apply xs).changes.map Change.line
      = (blocks xs).flatMap fun block => (blockStart block).map Instruction.line := by
        simp only [Pass.apply, mergeRuns, mergeBlocks_changes, List.map_flatten, List.map_map,
          List.flatMap_def]
        exact congrArg _ (List.map_congr_left fun block _ => lines_mergeBlock_eq block)
    _ = (runStarts false xs).map Instruction.line := by rw [starts, List.map_flatMap]
    _ = (checkConsecutiveRuns xs).map Finding.line := by
        simp [checkConsecutiveRuns, Function.comp_def]

/-! ### All remedies -/

/-- Where the pass has nothing to do, the rule has nothing to report. -/
theorem SameLines.check_of_idle {rule : Rule} {pass : Pass} (h : SameLines rule pass)
    {xs : List Instruction} (idle : pass.Idle xs) (registry : Registry) :
    rule.check registry xs = .ok [] := by
  obtain ⟨findings, checked, lines⟩ := h registry xs
  have quiet : (pass.apply xs).changes = [] := idle
  rw [quiet, List.map_nil, eq_comm, List.map_eq_nil_iff] at lines
  rw [checked, lines]

theorem sameLines_of_mem_remedies {remedy : Rule × Pass} (h : remedy ∈ remedies) :
    SameLines remedy.1 remedy.2 ∧ remedy.2 ≠ .dropSudo := by
  simp only [remedies, List.mem_cons, List.not_mem_nil, or_false] at h
  rcases h with rfl | rfl | rfl | rfl | rfl
  · exact ⟨sameLines_mergeRuns, by decide⟩
  · exact ⟨sameLines_clean, by decide⟩
  · exact ⟨sameLines_addProtocol, by decide⟩
  · exact ⟨sameLines_addToCopy, by decide⟩
  · exact ⟨sameLines_prependUpdate, by decide⟩

/-- On every list, a pass logs one change for each finding of its rule, in the same order and at the
same line, and the rule finds nothing in what the pass makes of the list. -/
theorem remedies_agree (registry : Registry) (xs : List Instruction) (rule : Rule) (pass : Pass)
    (h : (rule, pass) ∈ remedies) :
    (∃ findings, rule.check registry xs = .ok findings ∧
      (pass.apply xs).changes.map Change.line = findings.map Finding.line) ∧
    rule.check registry (pass.apply xs).instructions = .ok [] := by
  obtain ⟨lines, ne⟩ := sameLines_of_mem_remedies h
  exact ⟨lines registry xs, lines.check_of_idle (Pass.idle_apply ne xs) registry⟩

/-- Two blocks of RUN, and a single one that is left alone. -/
theorem remedies_agree_two_blocks :
    let xs : List Instruction := [.write 1 .run "a", .write 2 .run "b", .write 3 .cmd "c",
      .write 4 .run "d", .write 5 .cmd "e", .write 6 .run "f", .write 7 .run "g", .write 8 .run "h"]
    (Rule.consecutiveRuns, Pass.mergeRuns) ∈ remedies ∧
      (Pass.mergeRuns.apply xs).changes = [.mergedRuns 2 1, .mergedRuns 3 6] ∧
      (∃ findings, Rule.consecutiveRuns.check (fun _ => none) xs = .ok findings ∧
        (Pass.mergeRuns.apply xs).changes.map Change.line = findings.map Finding.line) ∧
      Rule.consecutiveRuns.check (fun _ => none) (Pass.mergeRuns.apply xs).instructions = .ok [] :=
  ⟨by decide, by decide +kernel, remedies_agree _ _ _ _ (by decide)⟩

end Dockerfile
