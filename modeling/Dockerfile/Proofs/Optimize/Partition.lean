import Dockerfile.Proofs.Optimize.Step

/-!
What a run of passes makes of a list, whatever the passes and their order.

One pass cuts its list into pieces and makes one instruction of each (`Pass.exists_rewrites`). After
several passes the pieces of the last one consist of what the passes before made, so each of its
instructions comes from several neighbouring pieces of the first list. A relation between a piece
and its instruction that survives this is `Gathers`; a run keeps every such relation that its passes
keep (`Pass.exists_pieces_applyAll`).

`StandsFor` is the relation that every pass keeps: line and keyword are those of the first
instruction of the piece, and only RUNs and settings are ever joined. Hence no run loses, doubles or
moves an instruction, and line numbers that increase before it increase after it.
-/

namespace Dockerfile

open Optimize

/-! ### Pieces of pieces -/

/-- A relation between a piece and what is made of it that holds of an instruction alone and that
can be followed through pieces of pieces. -/
structure Gathers (R : List Instruction → Instruction → Prop) : Prop where
  keep : ∀ x, R [x] x
  gather : ∀ {pieces : List (List Instruction)} {block : List Instruction} {y : Instruction},
    List.Forall₂ R pieces block → R block y → R pieces.flatten y

namespace Gathers

variable {R : List Instruction → Instruction → Prop}

theorem forall₂_gather (h : Gathers R) {groups : List (List (List Instruction))}
    {blocks : List (List Instruction)} {zs : List Instruction}
    (first : List.Forall₂ (List.Forall₂ R) groups blocks) (second : List.Forall₂ R blocks zs) :
    List.Forall₂ R (groups.map List.flatten) zs := by
  induction first generalizing zs with
  | nil =>
    rw [List.forall₂_nil_left_iff.mp second]
    exact .nil
  | cons here _ ih =>
    obtain ⟨z, zs', hz, later, rfl⟩ := List.forall₂_cons_left_iff.mp second
    exact .cons (h.gather here hz) (ih later)

/-- Two steps, each of which cuts its list into pieces, are one such step. -/
theorem exists_pieces_trans (h : Gathers R) {first second : List (List Instruction)}
    {zs : List Instruction} (before : List.Forall₂ R first second.flatten)
    (after : List.Forall₂ R second zs) :
    ∃ pieces, pieces.flatten = first.flatten ∧ List.Forall₂ R pieces zs := by
  obtain ⟨groups, rfl, related⟩ := exists_groups before
  exact ⟨groups.map List.flatten, List.flatten_flatten.symm, h.forall₂_gather related after⟩

end Gathers

/-- A run keeps what each of its passes keeps. -/
theorem Pass.exists_pieces_applyAll {R : List Instruction → Instruction → Prop} (h : Gathers R)
    (passes : List Pass) (step : ∀ pass ∈ passes, ∀ block y, pass.Rewrites block y → R block y)
    (xs : List Instruction) :
    ∃ pieces, pieces.flatten = xs ∧ List.Forall₂ R pieces (applyAll xs passes).instructions := by
  induction passes generalizing xs with
  | nil => exact ⟨xs.map ([·]), flatten_singletons xs, forall₂_singletons h.keep xs⟩
  | cons pass passes ih =>
    obtain ⟨first, rfl, rewritten⟩ := exists_rewrites pass xs
    have here : List.Forall₂ R first (pass.apply first.flatten).instructions :=
      rewritten.imp fun block y => step pass List.mem_cons_self block y
    obtain ⟨second, hsecond, later⟩ :=
      ih (fun p hp => step p (List.mem_cons_of_mem _ hp)) (pass.apply first.flatten).instructions
    rw [← hsecond] at here
    exact h.exists_pieces_trans here later

/-! ### What every pass keeps -/

/-- The keywords of the instructions that may be joined with their neighbours. -/
def joinable : List Keyword :=
  [.run, .env, .label, .arg]

/-- The keywords of the instructions that a pass may rewrite. -/
def rewritable : List Keyword :=
  [.fromImage, .run, .expose, .add, .env, .label, .arg]

/-- `y` stands for the instructions of the block. -/
structure StandsFor (block : List Instruction) (y : Instruction) : Prop where
  ne_nil : block ≠ []
  joined : 1 < block.length → ∃ k ∈ joinable, ∀ x ∈ block, x.keyword = k
  line : ∀ x ∈ block.head?, y.line = x.line
  keyword : ∀ x ∈ block.head?, y.keyword = x.keyword ∨ x.keyword = .add ∧ y.keyword = .copy
  unchanged : ∀ x ∈ block, x.keyword ∉ rewritable → block = [x] ∧ y = x
  text : block = [y] ∨ y.text = y.keyword.name ++ " " ++ y.value

namespace StandsFor

variable {block : List Instruction} {y : Instruction}

theorem self (x : Instruction) : StandsFor [x] x where
  ne_nil := List.cons_ne_nil x []
  joined := by simp
  line := by simp
  keyword := by simp
  unchanged := by simp
  text := Or.inl rfl

theorem keyword_of_mem (h : StandsFor block y) {x : Instruction} (hx : x ∈ block) :
    y.keyword = x.keyword ∨ x.keyword = .add ∧ y.keyword = .copy := by
  obtain ⟨first, rest, rfl⟩ := List.exists_cons_of_ne_nil h.ne_nil
  have hfirst : x.keyword = first.keyword := by
    cases rest with
    | nil => rw [List.mem_singleton.mp hx]
    | cons second rest =>
      obtain ⟨k, -, same⟩ := h.joined (by simp)
      rw [same x hx, same first List.mem_cons_self]
  rw [hfirst]
  exact h.keyword first rfl

/-- Only a COPY can stand for another keyword than its own. -/
theorem keyword_eq (h : StandsFor block y) (ne : y.keyword ≠ .copy) :
    ∀ x ∈ block, x.keyword = y.keyword := by
  intro x hx
  rcases h.keyword_of_mem hx with same | ⟨-, hcopy⟩
  · exact same.symm
  · exact absurd hcopy ne

end StandsFor

theorem copy_notMem_joinable : Keyword.copy ∉ joinable := by
  decide

/-- An instruction of a joined block stands for instructions with the same keyword. -/
theorem keyword_of_mem_flatten {pieces : List (List Instruction)} {block : List Instruction}
    (h : List.Forall₂ StandsFor pieces block) {k : Keyword} (hk : k ≠ .copy)
    (same : ∀ b ∈ block, b.keyword = k) : ∀ x ∈ pieces.flatten, x.keyword = k := by
  intro x hx
  obtain ⟨piece, hpiece, b, hb, here, hx⟩ := exists_of_mem_flatten h hx
  have hbk : b.keyword = k := same b hb
  rw [here.keyword_eq (hbk ▸ hk) x hx, hbk]

/-- An instruction that no pass rewrites is among those made of the pieces. -/
theorem mem_of_unchanged {pieces : List (List Instruction)} {block : List Instruction}
    (h : List.Forall₂ StandsFor pieces block) {x : Instruction} (hx : x ∈ pieces.flatten)
    (fixed : x.keyword ∉ rewritable) : x ∈ block := by
  obtain ⟨piece, hpiece, b, hb, here, hx⟩ := exists_of_mem_flatten h hx
  rwa [← (here.unchanged x hx fixed).2]

theorem gathers_standsFor : Gathers StandsFor where
  keep := StandsFor.self
  gather := by
    intro pieces block y made top
    obtain ⟨b, bs, rfl⟩ := List.exists_cons_of_ne_nil top.ne_nil
    obtain ⟨piece, pieces, here, later, rfl⟩ := List.forall₂_cons_right_iff.mp made
    obtain ⟨first, rest, rfl⟩ := List.exists_cons_of_ne_nil here.ne_nil
    have heads : ∀ x ∈ ((first :: rest) :: pieces).flatten.head?, x = first := by
      simp [eq_comm]
    -- A block of one instruction stands for a single piece.
    have alone : bs = [] → ((first :: rest) :: pieces).flatten = first :: rest := by
      rintro rfl
      simp [List.forall₂_nil_right_iff.mp later]
    refine ⟨by simp, ?_, ?_, ?_, ?_, ?_⟩
    · intro long
      by_cases single : bs = []
      · rw [alone single] at long ⊢
        exact here.joined long
      · obtain ⟨k, hk, same⟩ := top.joined (by simpa [List.length_pos_iff] using single)
        have ne : k ≠ .copy := fun heq => copy_notMem_joinable (heq ▸ hk)
        exact ⟨k, hk, keyword_of_mem_flatten made ne same⟩
    · intro x hx
      rw [heads x hx, top.line b rfl, here.line first rfl]
    · intro x hx
      rw [heads x hx]
      rcases top.keyword b rfl with hy | ⟨hadd, hcopy⟩
      · rw [hy]
        exact here.keyword first rfl
      · rcases here.keyword first rfl with hb | ⟨-, hb⟩
        · exact Or.inr ⟨hb ▸ hadd, hcopy⟩
        · cases hadd.symm.trans hb
    · intro x hx fixed
      obtain ⟨hblock, hy⟩ := top.unchanged x (mem_of_unchanged made hx fixed) fixed
      have single : bs = [] := (List.cons_eq_cons.mp hblock).2
      rw [alone single] at hx ⊢
      exact ⟨(here.unchanged x hx fixed).1, hy⟩
    · rcases top.text with hblock | written
      · obtain ⟨rfl, single⟩ := List.cons_eq_cons.mp hblock
        rw [alone single]
        exact here.text
      · exact Or.inr written

/-! ### One pass -/

/-- A replacement is written from its keyword and value, at the line of what it replaces. -/
theorem Pass.written_of_replacement? {pass : Pass} {x y : Instruction} {change : Change}
    (h : pass.replacement? x = some (y, change)) :
    y.line = x.line ∧ y.text = y.keyword.name ++ " " ++ y.value ∧ x.keyword ∈ rewritable ∧
      (y.keyword = x.keyword ∨ x.keyword = .add ∧ y.keyword = .copy) := by
  cases pass with
  | mergeRuns | mergeMetadata => cases h
  | pin =>
    obtain ⟨hk, -, rfl, -⟩ := pin?_eq_some.mp h
    exact ⟨rfl, rfl, by simp [hk, rewritable], Or.inl hk.symm⟩
  | clean =>
    obtain ⟨hk, -, -, rfl, -⟩ := clean?_eq_some.mp h
    exact ⟨rfl, rfl, by simp [hk, rewritable], Or.inl hk.symm⟩
  | addProtocol =>
    obtain ⟨hk, -, rfl, -⟩ := addProtocol?_eq_some.mp h
    exact ⟨rfl, rfl, by simp [hk, rewritable], Or.inl hk.symm⟩
  | addToCopy =>
    obtain ⟨hk, rfl, -⟩ := addToCopy?_eq_some.mp h
    exact ⟨rfl, rfl, by simp [hk, rewritable], Or.inr ⟨hk, rfl⟩⟩
  | dropSudo =>
    obtain ⟨hk, -, rfl, -⟩ := dropSudo?_eq_some.mp h
    exact ⟨rfl, rfl, by simp [hk, rewritable], Or.inl hk.symm⟩
  | prependUpdate =>
    obtain ⟨hk, -, -, rfl, -⟩ := prependUpdate?_eq_some.mp h
    exact ⟨rfl, rfl, by simp [hk, rewritable], Or.inl hk.symm⟩

theorem Pass.mem_joinable_of_merges {pass : Pass} {k : Keyword} (h : pass.merges k = true) :
    k ∈ joinable := by
  cases pass with
  | mergeRuns => simp [beq_iff_eq.mp h, joinable]
  | mergeMetadata =>
    change isMetadata k = true at h
    simp only [isMetadata, Bool.or_eq_true, beq_iff_eq] at h
    rcases h with (rfl | rfl) | rfl <;> decide
  | _ => cases h

theorem joinable_subset_rewritable : ∀ k ∈ joinable, k ∈ rewritable := by
  decide

theorem Pass.Rewrites.standsFor {pass : Pass} {block : List Instruction} {y : Instruction}
    (h : pass.Rewrites block y) : StandsFor block y := by
  cases h with
  | keep => exact .self y
  | @replace x _ change found =>
    obtain ⟨line, text, rewritten, keyword⟩ := written_of_replacement? found
    exact ⟨by simp, by simp, by simpa using line, by simpa using keyword,
      by simpa using fun fixed => absurd rewritten fixed, Or.inr text⟩
  | @merge first second rest merges same =>
    have joinable := mem_joinable_of_merges merges
    refine ⟨by simp, fun _ => ⟨first.keyword, joinable, same⟩, by simp, by simp, ?_, ?_⟩
    · intro x hx fixed
      rw [same x hx] at fixed
      exact absurd (joinable_subset_rewritable _ joinable) fixed
    · exact Or.inr (by simp)

/-! ### Whole runs -/

theorem lines_sublist {pieces : List (List Instruction)} {ys : List Instruction}
    (h : List.Forall₂ StandsFor pieces ys) :
    (ys.map Instruction.line).Sublist (pieces.flatten.map Instruction.line) := by
  induction h with
  | nil => exact List.Sublist.refl _
  | @cons piece y pieces ys here _ ih =>
    obtain ⟨first, rest, rfl⟩ := List.exists_cons_of_ne_nil here.ne_nil
    have hline : y.line = first.line := here.line first rfl
    rw [List.flatten_cons, List.cons_append, List.map_cons, List.map_cons, List.map_append, hline]
    exact (ih.trans (List.sublist_append_right _ _)).cons_cons _

/-- A run of passes, in any order and with any repetitions, loses, doubles and moves nothing: its
list falls into blocks of neighbours, one for each instruction of the result, which stands for that
block. So line numbers that increase still do. -/
theorem applyAll_standsFor (xs : List Instruction) (passes : List Pass) :
    (∃ pieces, pieces.flatten = xs ∧
      List.Forall₂ StandsFor pieces (Pass.applyAll xs passes).instructions) ∧
    ((xs.map Instruction.line).Pairwise (· < ·) →
      ((Pass.applyAll xs passes).instructions.map Instruction.line).Pairwise (· < ·)) := by
  obtain ⟨pieces, hpieces, made⟩ := Pass.exists_pieces_applyAll gathers_standsFor passes
    (fun _ _ _ _ rewritten => rewritten.standsFor) xs
  refine ⟨⟨pieces, hpieces, made⟩, fun increasing => ?_⟩
  have sublist := lines_sublist made
  rw [hpieces] at sublist
  exact increasing.sublist sublist

/-- RUNs around a comment, joined with their kind, rewritten and joined again. -/
theorem applyAll_standsFor_runs :
    let xs : List Instruction := [.write 1 .run "sudo a", .write 2 .run "b", .write 3 .comment "c",
      .write 5 .run "d", .write 8 .add "e f", .write 9 .copy "g h"]
    let passes : List Pass := [.mergeRuns, .dropSudo, .addToCopy, .mergeRuns]
    (xs.map Instruction.line).Pairwise (· < ·) ∧
      ((Pass.applyAll xs passes).instructions.map Instruction.line = [1, 3, 5, 8, 9]) ∧
      ((Pass.applyAll xs passes).instructions.map Instruction.line).Pairwise (· < ·) :=
  ⟨by decide, by decide +kernel, (applyAll_standsFor _ _).2 (by decide)⟩

end Dockerfile
