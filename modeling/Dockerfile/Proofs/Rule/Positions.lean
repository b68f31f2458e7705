import Mathlib.Data.List.DropRight
import Mathlib.Order.Fin.Basic
import Dockerfile.Proofs.Optimize.Partition
import Dockerfile.Proofs.Rule.Places
import Dockerfile.Proofs.Rule.Scope

/-!
Lines as positions.

Three rules ask what stands above or below some instruction, and answer by comparing lines. On any
list of instructions that is not the same: lines may be in any order, and one of the rules takes the
line -1 for none. Where lines are positive and increase (`Numbered`), the instructions on smaller
lines are those above and the ones on greater lines those below (`Numbered.takeWhile_line`,
`Numbered.filter_line`), and the rules report by position. Texts are read into such lists, and no
pass of the optimizer makes another of them.
-/

namespace Dockerfile

open Text Optimize

/-- Lines are positive, and later instructions have higher ones. -/
structure Numbered (xs : List Instruction) : Prop where
  positive : ∀ x ∈ xs, 1 ≤ x.line
  increasing : xs.Pairwise fun x y => x.line < y.line

theorem numbered_parse (content : String) : Numbered (parse content) where
  positive _ hx := (line_of_mem_parse hx).1
  increasing := pairwise_line_parse content

namespace Numbered

variable {xs above below : List Instruction} {x : Instruction}

/-- A run of passes leaves out lines and adds none. -/
theorem applyAll (h : Numbered xs) (passes : List Pass) :
    Numbered (Pass.applyAll xs passes).instructions := by
  obtain ⟨pieces, rfl, made⟩ := Pass.exists_pieces_applyAll gathers_standsFor passes
    (fun _ _ _ _ rewritten => rewritten.standsFor) xs
  have sublist := lines_sublist made
  constructor
  · intro y hy
    obtain ⟨x, hx, same⟩ := List.mem_map.mp (sublist.subset (List.mem_map_of_mem hy))
    rw [← same]
    exact h.positive x hx
  · exact List.pairwise_map.mp ((List.pairwise_map.mpr h.increasing).sublist sublist)

theorem line_lt_iff (h : Numbered xs) (i j : Fin xs.length) :
    (xs.get i).line < (xs.get j).line ↔ i < j := by
  have mono : StrictMono fun i => (xs.get i).line := List.pairwise_iff_get.mp h.increasing
  exact mono.lt_iff_lt

theorem line_lt_of_mem_above (h : Numbered (above ++ x :: below)) :
    ∀ y ∈ above, y.line < x.line := by
  intro y hy
  exact (List.pairwise_append.mp h.increasing).2.2 y hy x List.mem_cons_self

theorem line_lt_of_mem_below (h : Numbered (above ++ x :: below)) :
    ∀ y ∈ below, x.line < y.line := by
  intro y hy
  exact List.rel_of_pairwise_cons (List.pairwise_append.mp h.increasing).2.1 hy

theorem takeWhile_line (h : Numbered (above ++ x :: below)) :
    (above ++ x :: below).takeWhile (fun y => y.line < x.line) = above := by
  rw [List.takeWhile_append_of_pos (by simpa using h.line_lt_of_mem_above),
    List.takeWhile_cons_of_neg (by simp), List.append_nil]

theorem filter_line (h : Numbered (above ++ x :: below)) (p : Instruction → Bool) :
    (above ++ x :: below).filter (fun y => x.line < y.line && p y) = below.filter p := by
  have none : above.filter (fun y => x.line < y.line && p y) = [] := by
    rw [List.filter_eq_nil_iff]
    intro y hy
    simp [(h.line_lt_of_mem_above y hy).le]
  have same : below.filter (fun y => x.line < y.line && p y) = below.filter p := by
    refine List.filter_congr fun y hy => ?_
    simp [h.line_lt_of_mem_below y hy]
  rw [List.filter_append, none, List.nil_append, List.filter_cons_of_neg (by simp), same]

theorem find?_line (h : Numbered (above ++ x :: below)) (p : Instruction → Bool) :
    (above ++ x :: below).find? (fun y => x.line < y.line && p y) = below.find? p := by
  rw [← List.head?_filter, h.filter_line, List.head?_filter]

end Numbered

namespace Rule

variable {xs : List Instruction}

/-! ### What the rules look for -/

/-- The first RUN below the first FROM, if that FROM is of the empty image. -/
def runBelowScratch (xs : List Instruction) : List Instruction :=
  match xs.dropWhile (·.keyword != .fromImage) with
  | [] => []
  | base :: below =>
    if lower (strip base.value) = "scratch" then (below.find? (·.keyword == .run)).toList else []

def installsDependencies (x : Instruction) : Bool :=
  dependencyInstallers.any (runs x)

/-- The COPYs of everything above the first RUN that installs dependencies, if there is one. -/
def broadCopiesAbove (xs : List Instruction) : List Instruction :=
  match xs.dropWhile (! installsDependencies ·) with
  | [] => []
  | _ :: _ => (xs.takeWhile (! installsDependencies ·)).filter fun x =>
      x.keyword == .copy && startsWith (strip x.value) ". "

/-- The COPYs and ADDs without an owner below the last USER, if that USER is another than root. -/
def copiesBelowUser (xs : List Instruction) : List Instruction :=
  match lastUser? xs with
  | none => []
  | some user =>
    if strip user.value = "root" then []
    else (xs.rtakeWhile (·.keyword != .user)).filter fun x =>
      isCopy x && !mentions x.value "--chown="

/-! ### What they report -/

/-- The first instruction of a kind, with what stands above and below it. -/
theorem exists_split_of_find? {p : Instruction → Bool} {x : Instruction}
    (h : xs.find? p = some x) :
    ∃ above below, xs = above ++ x :: below ∧ xs.takeWhile (! p ·) = above ∧
      xs.dropWhile (! p ·) = x :: below := by
  obtain ⟨here, above, below, rfl, others⟩ := List.find?_eq_some_iff_append.mp h
  refine ⟨above, below, rfl, ?_, ?_⟩
  · rw [List.takeWhile_append_of_pos others, List.takeWhile_cons_of_neg (by simp [here]),
      List.append_nil]
  · rw [List.dropWhile_append_of_pos others, List.dropWhile_cons_of_neg (by simp [here])]

theorem dropWhile_of_find?_eq_none {p : Instruction → Bool} (h : xs.find? p = none) :
    xs.dropWhile (! p ·) = [] := by
  rw [List.dropWhile_eq_nil_iff]
  simpa using h

theorem toList_runInScratch? (h : Numbered xs) :
    (runInScratch? xs).toList = runBelowScratch xs := by
  unfold runInScratch? runBelowScratch
  cases found : xs.find? (·.keyword == .fromImage) with
  | none =>
    have nothing : xs.dropWhile (·.keyword != .fromImage) = [] := dropWhile_of_find?_eq_none found
    rw [nothing]
    rfl
  | some base =>
    obtain ⟨above, below, rfl, -, split⟩ := exists_split_of_find? found
    have hsplit : (above ++ base :: below).dropWhile (·.keyword != .fromImage) = base :: below :=
      split
    rw [hsplit]
    simp only [Option.bind_eq_bind, Option.bind_some]
    split
    · rw [h.find?_line]
    · rfl

theorem earlyBroadCopies_eq (h : Numbered xs) : earlyBroadCopies xs = broadCopiesAbove xs := by
  unfold earlyBroadCopies broadCopiesAbove installLine?
  cases found : xs.find? fun x => dependencyInstallers.any (runs x) with
  | none =>
    have nothing : xs.dropWhile (! installsDependencies ·) = [] :=
      dropWhile_of_find?_eq_none found
    rw [nothing]
    rfl
  | some install =>
    obtain ⟨above, below, hxs, before, split⟩ := exists_split_of_find? found
    have hsplit : xs.dropWhile (! installsDependencies ·) = install :: below := split
    have habove : xs.takeWhile (! installsDependencies ·) = above := before
    -- -1 is no line of the list, so the installation is not passed over
    have positive := h.positive install (List.mem_of_find?_eq_some found)
    have real : install.line ≠ -1 := by omega
    rw [hsplit, habove, Option.map_some]
    subst hxs
    simp only [real, if_false, h.takeWhile_line]

theorem reportsEach_map {rule : Rule} {report : Instruction → Finding}
    (reports : ∀ x, (report x).rule = rule ∧ (report x).line = x.line)
    (chosen : List Instruction) : ReportsEach rule (chosen.map report) chosen := by
  rw [ReportsEach, List.forall₂_map_left_iff, List.forall₂_same]
  exact fun x _ => reports x

/-- Nothing of a kind stands below the last instruction of that kind. -/
theorem rtakeWhile_append_cons {k : Keyword} {above below : List Instruction} {x : Instruction}
    (hx : x.keyword = k) (others : ∀ y ∈ below, y.keyword ≠ k) :
    (above ++ x :: below).rtakeWhile (·.keyword != k) = below := by
  rw [List.rtakeWhile, List.reverse_append, List.reverse_cons, List.append_assoc,
    List.takeWhile_append_of_pos (by simpa using others), List.singleton_append,
    List.takeWhile_cons_of_neg (by simp [hx]), List.append_nil, List.reverse_reverse]

theorem reportsEach_checkCopyWithoutOwner (h : Numbered xs) :
    ReportsEach .copyWithoutOwner (checkCopyWithoutOwner xs) (copiesBelowUser xs) := by
  unfold checkCopyWithoutOwner copiesBelowUser
  cases last : lastUser? xs with
  | none => exact .nil
  | some user =>
    simp only
    split
    · exact .nil
    · obtain ⟨isUser, above, below, rfl, later⟩ := getLast?_filter_eq_some_iff.mp last
      rw [beq_iff_eq] at isUser
      have others : ∀ y ∈ below, y.keyword ≠ .user := by simpa using later
      simp only [Bool.and_assoc]
      rw [rtakeWhile_append_cons isUser others, h.filter_line]
      apply reportsEach_map
      exact fun _ => ⟨rfl, rfl⟩

/-- In a text as it is read, and as it is optimized, lines compare as positions do. So the rules
that compare lines report by position: the first RUN below a first FROM of the empty image, the
COPYs of everything above the first installation of dependencies, and the COPYs and ADDs without an
owner below a last USER other than root. -/
theorem reports_by_position (content : String) {xs : List Instruction}
    (h : xs = parse content ∨ xs = (optimize (parse content)).instructions) :
    (∀ i j : Fin xs.length, (xs.get i).line < (xs.get j).line ↔ i < j) ∧
      ReportsEach .runInScratch (checkRunInScratch xs) (runBelowScratch xs) ∧
      ReportsEach .earlyBroadCopy (checkEarlyBroadCopy xs) (broadCopiesAbove xs) ∧
      ReportsEach .copyWithoutOwner (checkCopyWithoutOwner xs) (copiesBelowUser xs) := by
  have numbered : Numbered xs := by
    rcases h with h | h
    · rw [h]
      exact numbered_parse content
    · rw [h]
      exact (numbered_parse content).applyAll Pass.all
  refine ⟨numbered.line_lt_iff, ?_, ?_, reportsEach_checkCopyWithoutOwner numbered⟩
  · rw [← toList_runInScratch? numbered]
    apply reportsEach_map
    exact fun _ => ⟨rfl, rfl⟩
  · rw [← earlyBroadCopies_eq numbered]
    apply reportsEach_map
    exact fun _ => ⟨rfl, rfl⟩

/-- The empty image is pinned, an ADD becomes a COPY, and a blank line leaves a gap in the
numbers. -/
theorem reports_by_position_optimized :
    let content := "FROM scratch\n\nCOPY . a\nRUN pip install b\nUSER c\nADD d e"
    let xs := parse content
    let ys := (optimize xs).instructions
    (ys = parse content ∨ ys = (optimize (parse content)).instructions) ∧
      ReportsEach .runInScratch (checkRunInScratch xs) (runBelowScratch xs) ∧
      ReportsEach .runInScratch (checkRunInScratch ys) (runBelowScratch ys) ∧
      ReportsEach .earlyBroadCopy (checkEarlyBroadCopy ys) (broadCopiesAbove ys) ∧
      ReportsEach .copyWithoutOwner (checkCopyWithoutOwner ys) (copiesBelowUser ys) ∧
      (runBelowScratch xs).map Instruction.line = [4] ∧
      (runBelowScratch ys).map Instruction.line = [] ∧
      (broadCopiesAbove ys).map Instruction.line = [3] ∧
      (copiesBelowUser ys).map Instruction.line = [6] := by
  intro content xs ys
  obtain ⟨-, scratch, -, -⟩ := reports_by_position content (.inl rfl)
  obtain ⟨-, pinned, early, owner⟩ := reports_by_position content (.inr rfl)
  exact ⟨.inr rfl, scratch, pinned, early, owner, by decide +kernel⟩

end Rule

end Dockerfile
