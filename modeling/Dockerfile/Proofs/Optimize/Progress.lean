import Mathlib.Algebra.GroupWithZero.Nat
import Mathlib.Algebra.Order.BigOperators.Group.List
import Mathlib.Algebra.Order.Group.Nat
import Mathlib.Data.Prod.Lex
import Dockerfile.Proofs.Optimize.Order

/-!
Runs of passes never come back to where they were.

A pass that replaces an instruction leaves a mark on it that no pass takes away, and replaces
nothing that bears the mark (`Pass.marked`). Only taking out `sudo` leaves none, but it makes a
command shorter. So each change brings a list closer to an end, by the measure `effort`: the length
of the list first, which merging reduces, then the marks that are missing in it, then the length of
its values (`effort_apply_lt`).

A run that logs a change therefore ends in another list than it started from, whatever the passes
and their order (`progress_applyAll`), and one that logs none gives its list back.
-/

namespace Dockerfile

open Optimize Rule Text

/-! ### Marks -/

namespace Pass

/-- The instruction shows that the pass is done with it. -/
def marked : Pass → Instruction → Bool
  | .pin, x => x.keyword == .fromImage && x.tag.isSome
  | .clean, x => x.keyword == .run && mentions x.value "rm -rf /var/lib/apt/lists/*"
  | .addProtocol, x => x.keyword == .expose && hasProtocol x.value
  | .addToCopy, x => x.keyword == .copy
  | .prependUpdate, x => x.keyword == .run && startsWith x.value "apt-get update"
  | .mergeRuns, _ | .mergeMetadata, _ | .dropSudo, _ => false

variable {pass : Pass} {x y : Instruction} {change : Change}

theorem subject?_of_replacement? (h : pass.replacement? x = some (y, change)) :
    pass.subject? = some x.keyword := by
  by_contra other
  rw [replacement?_eq_none other] at h
  cases h

theorem mentions_removal {v : String} (h : mentions v "rm -rf /var/lib/apt/lists/*" = true) :
    mentions v "rm -rf /var/lib/apt/lists" = true := by
  rw [mentions_iff] at h ⊢
  exact List.IsInfix.trans ⟨[], "/*".toList, by simp⟩ h

theorem mentions_update {v : String} (h : startsWith v "apt-get update" = true) :
    mentions v "apt-get update" = true :=
  mentions_iff.mpr (List.isPrefixOf_iff_prefix.mp h).isInfix

/-- A pass marks what it replaces. -/
theorem marked_of_replacement? (ne : pass ≠ .dropSudo)
    (h : pass.replacement? x = some (y, change)) : pass.marked y = true := by
  cases pass with
  | mergeRuns | mergeMetadata => cases h
  | dropSudo => exact absurd rfl ne
  | pin =>
    obtain ⟨-, -, rfl, -⟩ := pin?_eq_some.mp h
    rfl
  | clean =>
    obtain ⟨-, -, -, rfl, -⟩ := clean?_eq_some.mp h
    have cleaned : mentions (strip x.value ++ " \\\n    && rm -rf /var/lib/apt/lists/*")
        "rm -rf /var/lib/apt/lists/*" = true :=
      mentions_append_right (by decide +kernel)
    simp [marked, cleaned]
  | addProtocol =>
    obtain ⟨-, -, rfl, -⟩ := addProtocol?_eq_some.mp h
    have tcp : mentions (strip x.value ++ "/tcp") "/tcp" = true :=
      mentions_append_right (by decide +kernel)
    simp [marked, hasProtocol, tcp]
  | addToCopy =>
    obtain ⟨-, rfl, -⟩ := addToCopy?_eq_some.mp h
    rfl
  | prependUpdate =>
    obtain ⟨-, -, -, rfl, -⟩ := prependUpdate?_eq_some.mp h
    have updated : startsWith ("apt-get update && " ++ strip x.value) "apt-get update" = true := by
      rw [startsWith, List.isPrefixOf_iff_prefix, String.toList_append]
      exact List.IsPrefix.trans ⟨" && ".toList, by simp⟩ (List.prefix_append _ _)
    simp [marked, updated]

/-- A pass replaces nothing that it has marked. -/
theorem marked_eq_false (h : pass.replacement? x = some (y, change)) : pass.marked x = false := by
  rw [Bool.eq_false_iff]
  intro mark
  cases pass with
  | mergeRuns | mergeMetadata | dropSudo => cases mark
  | pin => simp [marked, (pin?_eq_some.mp h).2.1] at mark
  | addProtocol => simp [marked, (addProtocol?_eq_some.mp h).2.1] at mark
  | addToCopy => simp [marked, (addToCopy?_eq_some.mp h).1] at mark
  | clean =>
    obtain ⟨-, -, dirty, -, -⟩ := clean?_eq_some.mp h
    have cleaned := mentions_removal (Bool.and_eq_true_iff.mp mark).2
    exact Bool.false_ne_true (dirty.symm.trans cleaned)
  | prependUpdate =>
    obtain ⟨-, -, stale, -, -⟩ := prependUpdate?_eq_some.mp h
    have updated := mentions_update (Bool.and_eq_true_iff.mp mark).2
    exact Bool.false_ne_true (stale.symm.trans updated)

/-- Taking out `sudo` leaves a cleanup alone: this starts and ends in a character that `sudo` does
not have. -/
theorem mentions_removeAll_cleanup {v : String}
    (h : mentions v "rm -rf /var/lib/apt/lists/*" = true) :
    mentions (removeAll v "sudo ") "rm -rf /var/lib/apt/lists/*" = true := by
  rw [mentions_iff] at h ⊢
  obtain ⟨before, after, heq⟩ := h
  have parts : v.toList
      = before ++ 'r' :: ("m -rf /var/lib/apt/lists/".toList ++ '*' :: after) := by
    rw [← heq]
    simp
  have inside : removeFrom "sudo ".toList 0 "m -rf /var/lib/apt/lists/".toList
      = "m -rf /var/lib/apt/lists/".toList := by
    decide +kernel
  refine ⟨removeFrom "sudo ".toList 0 before, removeFrom "sudo ".toList 0 after, ?_⟩
  rw [toList_removeAll, parts,
    removeFrom_append_cons (by decide) (by decide) (Nat.zero_le _),
    removeFrom_append_cons (by decide) (by decide) (Nat.zero_le _), inside]
  simp

/-- Taking out `sudo` leaves an update at the start of a command alone. -/
theorem startsWith_removeAll_update {v : String} (h : startsWith v "apt-get update" = true) :
    startsWith (removeAll v "sudo ") "apt-get update" = true := by
  rw [startsWith, List.isPrefixOf_iff_prefix] at h ⊢
  obtain ⟨rest, heq⟩ := h
  have parts : v.toList = "apt-get updat".toList ++ 'e' :: rest := by
    rw [← heq]
    simp
  have inside : removeFrom "sudo ".toList 0 "apt-get updat".toList = "apt-get updat".toList := by
    decide +kernel
  refine ⟨removeFrom "sudo ".toList 0 rest, ?_⟩
  rw [toList_removeAll, parts,
    removeFrom_append_cons (by decide) (by decide) (Nat.zero_le _), inside]
  simp

theorem startsWith_strip_append {v t : String} (h : startsWith v "apt-get update" = true) :
    startsWith (strip v ++ t) "apt-get update" = true := by
  rw [startsWith, List.isPrefixOf_iff_prefix] at h ⊢
  obtain ⟨rest, heq⟩ := h
  rw [String.toList_append, toList_strip, ← heq,
    trim_append_of_trimmed trimmed_update (by simp), List.append_assoc]
  exact List.prefix_append _ _

theorem trimmed_cleanup : Trimmed "rm -rf /var/lib/apt/lists/*".toList := by
  decide

/-- No pass takes a mark away. -/
theorem marked_of_marked {other : Pass} (h : other.replacement? x = some (y, change))
    (mark : pass.marked x = true) : pass.marked y = true := by
  have subject := subject?_of_replacement? h
  have settled := marked_eq_false h
  cases pass with
  | mergeRuns | mergeMetadata | dropSudo => cases mark
  | pin =>
    rw [beq_iff_eq.mp (Bool.and_eq_true_iff.mp mark).1] at subject
    cases other with
    | pin => cases settled.symm.trans mark
    | _ => cases subject
  | addProtocol =>
    rw [beq_iff_eq.mp (Bool.and_eq_true_iff.mp mark).1] at subject
    cases other with
    | addProtocol => cases settled.symm.trans mark
    | _ => cases subject
  | addToCopy =>
    rw [beq_iff_eq.mp mark] at subject
    exact absurd subject other.spares_copy.2
  | clean =>
    obtain ⟨hx, cleaned⟩ := Bool.and_eq_true_iff.mp mark
    rw [beq_iff_eq.mp hx] at subject
    cases other with
    | clean => cases settled.symm.trans mark
    | dropSudo =>
      obtain ⟨-, -, rfl, -⟩ := dropSudo?_eq_some.mp h
      simp [marked, mentions_removeAll_cleanup cleaned]
    | prependUpdate =>
      obtain ⟨-, -, -, rfl, -⟩ := prependUpdate?_eq_some.mp h
      rw [← mentions_strip (by simp) trimmed_cleanup] at cleaned
      simp [marked, mentions_append_right cleaned]
    | _ => cases subject
  | prependUpdate =>
    obtain ⟨hx, updated⟩ := Bool.and_eq_true_iff.mp mark
    rw [beq_iff_eq.mp hx] at subject
    cases other with
    | prependUpdate => cases settled.symm.trans mark
    | clean =>
      obtain ⟨-, -, -, rfl, -⟩ := clean?_eq_some.mp h
      simp [marked, startsWith_strip_append updated]
    | dropSudo =>
      obtain ⟨-, -, rfl, -⟩ := dropSudo?_eq_some.mp h
      simp [marked, startsWith_removeAll_update updated]
    | _ => cases subject

end Pass

/-! ### The measure -/

/-- The number of marks that the instruction lacks. -/
def unmarked (x : Instruction) : Nat :=
  (Pass.all.map fun pass => (!pass.marked x).toNat).sum

/-- What is left to do: instructions that could be merged, marks that are missing, and text that
could be taken out, in this order. -/
def effort (xs : List Instruction) : Nat ×ₗ Nat ×ₗ Nat :=
  toLex (xs.length, toLex ((xs.map unmarked).sum, (xs.map fun x => x.value.length).sum))

section Replacement

variable {pass : Pass} {x y : Instruction} {change : Change}

theorem toNat_marked_le (h : pass.replacement? x = some (y, change)) (other : Pass) :
    (!other.marked y).toNat ≤ (!other.marked x).toNat := by
  cases mark : other.marked x with
  | false => exact Bool.toNat_le _
  | true => simp [Pass.marked_of_marked h mark]

theorem unmarked_le (h : pass.replacement? x = some (y, change)) : unmarked y ≤ unmarked x :=
  List.sum_le_sum fun other _ => toNat_marked_le h other

theorem unmarked_lt (ne : pass ≠ .dropSudo) (h : pass.replacement? x = some (y, change)) :
    unmarked y < unmarked x := by
  refine List.sum_lt_sum _ _ (fun other _ => toNat_marked_le h other) ⟨pass, pass.mem_all, ?_⟩
  simp [Pass.marked_of_replacement? ne h, Pass.marked_eq_false h]

theorem length_dropSudo_lt (h : dropSudo? x = some (y, change)) :
    y.value.length < x.value.length := by
  obtain ⟨-, found, rfl, -⟩ := dropSudo?_eq_some.mp h
  rw [write_value, ← String.length_toList, ← String.length_toList, toList_removeAll]
  exact length_removeFrom_lt (by simp) (mentions_iff.mp found)

end Replacement

/-! ### One pass -/

section Step

variable {xs : List Instruction} {f : Instruction → Option (Instruction × Change)}

/-- A measure of instructions that no replacement raises does not rise in the sum. -/
theorem sum_map_replaced_le {measure : Instruction → Nat}
    (le : ∀ x y change, f x = some (y, change) → measure y ≤ measure x) (xs : List Instruction) :
    ((xs.map (replaced f)).map measure).sum ≤ (xs.map measure).sum := by
  rw [List.map_map]
  refine List.sum_le_sum fun x _ => ?_
  cases hx : f x with
  | none => simp [replaced_of_none hx]
  | some result => simpa [replaced_of_some hx] using le x _ _ hx

theorem sum_map_replaced_lt {measure : Instruction → Nat}
    (lt : ∀ x y change, f x = some (y, change) → measure y < measure x)
    (h : (replaceEach f xs).changes ≠ []) :
    ((xs.map (replaced f)).map measure).sum < (xs.map measure).sum := by
  obtain ⟨c, hc⟩ := List.exists_mem_of_ne_nil _ h
  obtain ⟨x, hx, y, found⟩ := mem_replaceEach_changes.mp hc
  obtain ⟨before, after, rfl⟩ := List.append_of_mem hx
  have here : measure (replaced f x) < measure x := by
    rw [replaced_of_some found]
    exact lt x y c found
  have first := sum_map_replaced_le (fun x y c found => (lt x y c found).le) before
  have last := sum_map_replaced_le (fun x y c found => (lt x y c found).le) after
  simp only [List.map_append, List.map_cons, List.sum_append, List.sum_cons]
  omega

theorem effort_replaceEach_lt (pass : Pass) (h : (replaceEach pass.replacement? xs).changes ≠ []) :
    effort (replaceEach pass.replacement? xs).instructions < effort xs := by
  have same : (xs.map (replaced pass.replacement?)).length = xs.length := List.length_map _
  refine Prod.Lex.toLex_lt_toLex.mpr (Or.inr ⟨same, ?_⟩)
  by_cases own : pass = .dropSudo
  · subst own
    refine Prod.Lex.toLex_lt_toLex'.mpr ⟨?_, fun _ => ?_⟩
    · exact sum_map_replaced_le (fun _ _ _ => unmarked_le) xs
    · exact sum_map_replaced_lt (fun _ _ _ => length_dropSudo_lt) h
  · refine Prod.Lex.toLex_lt_toLex.mpr (Or.inl ?_)
    exact sum_map_replaced_lt (fun _ _ _ => unmarked_lt own) h

/-- Merging leaves fewer instructions. -/
theorem length_mergeBlocks_lt {mergeable : Keyword → Bool} {separator : String}
    {change : Keyword → Nat → Int → Change}
    (h : (mergeBlocks mergeable separator change xs).changes ≠ []) :
    (mergeBlocks mergeable separator change xs).instructions.length < xs.length := by
  obtain ⟨c, hc⟩ := List.exists_mem_of_ne_nil _ h
  rw [mergeBlocks_changes] at hc
  obtain ⟨log, hlog, hc⟩ := List.mem_flatten.mp hc
  obtain ⟨merged, hmerged, rfl⟩ := List.mem_map.mp hlog
  have total : xs.length = ((blocks xs).map List.length).sum := by
    rw [← List.length_flatten, flatten_blocks]
  rw [mergeBlocks_instructions, List.length_flatten, List.map_map, total]
  refine List.sum_lt_sum _ _ (fun block _ => ?_) ⟨merged, hmerged, ?_⟩
  · rcases mergeBlock_cases mergeable separator change block with
      ⟨first, second, rest, rfl, -, heq⟩ | ⟨-, heq⟩ <;> simp [heq]
  · rcases mergeBlock_cases mergeable separator change merged with
      ⟨first, second, rest, rfl, -, heq⟩ | ⟨-, heq⟩
    · simp [heq]
    · simp [heq] at hc

/-- A pass that logs a change leaves less to do. -/
theorem effort_apply_lt {pass : Pass} (h : (pass.apply xs).changes ≠ []) :
    effort (pass.apply xs).instructions < effort xs := by
  cases pass with
  | mergeRuns | mergeMetadata =>
    exact Prod.Lex.toLex_lt_toLex.mpr (Or.inl (length_mergeBlocks_lt h))
  | pin => exact effort_replaceEach_lt .pin h
  | clean => exact effort_replaceEach_lt .clean h
  | addProtocol => exact effort_replaceEach_lt .addProtocol h
  | addToCopy => exact effort_replaceEach_lt .addToCopy h
  | dropSudo => exact effort_replaceEach_lt .dropSudo h
  | prependUpdate => exact effort_replaceEach_lt .prependUpdate h

end Step

/-! ### Whole runs -/

/-- Nothing was done to the list, or changes were logged and less is left to do. -/
def Progress (xs : List Instruction) (revision : Revision) : Prop :=
  revision = ⟨xs, []⟩ ∨ revision.changes ≠ [] ∧ effort revision.instructions < effort xs

theorem Progress.quiet_iff {xs : List Instruction} {revision : Revision}
    (h : Progress xs revision) : revision.changes = [] ↔ revision.instructions = xs := by
  rcases h with rfl | ⟨logged, less⟩
  · simp
  · refine ⟨fun quiet => absurd quiet logged, fun same => ?_⟩
    rw [same] at less
    exact absurd less (lt_irrefl _)

theorem progress_apply (pass : Pass) (xs : List Instruction) : Progress xs (pass.apply xs) := by
  by_cases idle : pass.Idle xs
  · exact Or.inl (Pass.apply_of_idle idle)
  · exact Or.inr ⟨idle, effort_apply_lt idle⟩

theorem progress_applyAll (passes : List Pass) (xs : List Instruction) :
    Progress xs (Pass.applyAll xs passes) := by
  induction passes generalizing xs with
  | nil => exact Or.inl rfl
  | cons pass passes ih =>
    rw [Pass.applyAll]
    rcases progress_apply pass xs with same | ⟨logged, less⟩
    · rw [same]
      exact ih xs
    · refine Or.inr ⟨by simp [logged], ?_⟩
      rcases ih (pass.apply xs).instructions with same | ⟨-, later⟩
      · rwa [same]
      · exact later.trans less

/-- The log is honest: the pipeline, and each pass by itself, logs nothing exactly if it gives back
the list that it was given. -/
theorem changes_optimize_eq_nil_iff (xs : List Instruction) :
    ((optimize xs).changes = [] ↔ (optimize xs).instructions = xs) ∧
      ∀ pass : Pass, (pass.apply xs).changes = [] ↔ (pass.apply xs).instructions = xs :=
  ⟨(progress_applyAll Pass.all xs).quiet_iff, fun pass => (progress_apply pass xs).quiet_iff⟩

end Dockerfile
