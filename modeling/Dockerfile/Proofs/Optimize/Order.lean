import Dockerfile.Proofs.Optimize.Verdicts

/-!
Passes that can change places.

Two passes commute on a list if either order leads to the same instructions and each pass logs the
same changes whether it comes first or second (`Pass.Commutes`).

Passes that are concerned with different keywords commute. A pass works through a list part by part,
where the parts are blocks of neighbours with one keyword (`Pass.apply_append`), and of two such
passes one leaves the block alone (`Pass.apply_append_of_spares`); the rest of the list follows by
induction. Cleaning up and updating are both concerned with RUNs. They commute since each writes at
its own end of a command, and neither writes what the other looks for.

All other passes on RUNs get in each other's way, so `Pass.commutes_iff` has both directions.
-/

namespace Dockerfile

open Optimize Rule Text

/-! ### A list in parts -/

instance : Append Revision where
  append r s := ⟨r.instructions ++ s.instructions, r.changes ++ s.changes⟩

@[simp]
theorem Revision.instructions_append (r s : Revision) :
    (r ++ s).instructions = r.instructions ++ s.instructions := rfl

@[simp]
theorem Revision.changes_append (r s : Revision) :
    (r ++ s).changes = r.changes ++ s.changes := rfl

theorem Revision.kept_append (a b : List Instruction) (r : Revision) :
    (⟨a ++ b, []⟩ : Revision) ++ r = ⟨a, []⟩ ++ ((⟨b, []⟩ : Revision) ++ r) :=
  congrArg₂ Revision.mk (List.append_assoc a b r.instructions) rfl

namespace Optimize

variable {mergeable : Keyword → Bool} {separator : String}
  {change : Keyword → Nat → Int → Change} {a : List Instruction}

theorem mergeBlocks_append {b : List Instruction}
    (differ : ∀ x ∈ a.getLast?, ∀ y ∈ b.head?, x.keyword ≠ y.keyword) :
    mergeBlocks mergeable separator change (a ++ b)
      = mergeBlocks mergeable separator change a ++ mergeBlocks mergeable separator change b := by
  have parts : blocks (a ++ b) = blocks a ++ blocks b :=
    List.splitBy_append fun x hx y hy => by simpa using differ x hx y hy
  simp only [mergeBlocks, parts, List.map_append, List.flatMap_append]
  rfl

theorem mergeBlocks_of_unmergeable (h : ∀ x ∈ a, mergeable x.keyword = false) :
    mergeBlocks mergeable separator change a = ⟨a, []⟩ := by
  refine mergeBlocks_eq_self (mergeBlocks_changes_eq_nil_iff.mpr fun k hk => apart_of_forall ?_)
  rintro x hx rfl
  exact Bool.false_ne_true ((h x hx).symm.trans hk)

/-- What cannot be merged stays in front of the rest. -/
theorem mergeBlocks_append_of_unmergeable (h : ∀ x ∈ a, mergeable x.keyword = false)
    (b : List Instruction) :
    mergeBlocks mergeable separator change (a ++ b)
      = ⟨a, []⟩ ++ mergeBlocks mergeable separator change b := by
  -- What cannot be merged at the start of `b` goes with `a`; behind it the keyword changes.
  obtain ⟨same, rest, rfl, hsame, hrest⟩ : ∃ same rest, b = same ++ rest ∧
      (∀ x ∈ same, mergeable x.keyword = false) ∧ ∀ y ∈ rest.head?, mergeable y.keyword = true := by
    refine ⟨b.takeWhile fun x => !mergeable x.keyword, b.dropWhile fun x => !mergeable x.keyword,
      List.takeWhile_append_dropWhile.symm, ?_, ?_⟩
    · intro x hx
      simpa using List.mem_takeWhile_imp hx
    · intro y hy
      have first := List.head?_dropWhile_not (fun x => !mergeable x.keyword) b
      rw [Option.mem_def.mp hy] at first
      simpa using first
  have cut : ∀ u : List Instruction, (∀ x ∈ u, mergeable x.keyword = false) →
      mergeBlocks mergeable separator change (u ++ rest)
        = ⟨u, []⟩ ++ mergeBlocks mergeable separator change rest := by
    intro u hu
    rw [mergeBlocks_append, mergeBlocks_of_unmergeable hu]
    intro x hx y hy heq
    have stays := hu x (List.mem_of_getLast? hx)
    rw [heq, hrest y hy] at stays
    cases stays
  have both : ∀ x ∈ a ++ same, mergeable x.keyword = false :=
    fun x hx => (List.mem_append.mp hx).elim (h x) (hsame x)
  rw [← List.append_assoc, cut _ both, cut _ hsame, Revision.kept_append]

theorem replaceEach_append (f : Instruction → Option (Instruction × Change))
    (a b : List Instruction) : replaceEach f (a ++ b) = replaceEach f a ++ replaceEach f b := by
  simp only [replaceEach, List.map_append, List.filterMap_append]
  rfl

end Optimize

namespace Pass

variable {pass : Pass} {a : List Instruction}

/-- A pass works on two parts by themselves where the keyword changes between them. -/
theorem apply_append (pass : Pass) {b : List Instruction}
    (differ : ∀ x ∈ a.getLast?, ∀ y ∈ b.head?, x.keyword ≠ y.keyword) :
    pass.apply (a ++ b) = pass.apply a ++ pass.apply b := by
  cases pass with
  | mergeRuns | mergeMetadata => exact mergeBlocks_append differ
  | _ => exact replaceEach_append _ a b

theorem apply_of_spares (h : ∀ x ∈ a, pass.Spares x.keyword) : pass.apply a = ⟨a, []⟩ := by
  refine apply_of_idle (idle_iff.mpr ⟨fun x hx => replacement?_eq_none (h x hx).2, fun k hk => ?_⟩)
  apply apart_of_forall
  rintro x hx rfl
  exact Bool.false_ne_true ((h x hx).1.symm.trans hk)

/-- What a pass leaves alone stays in front of the rest. -/
theorem apply_append_of_spares (h : ∀ x ∈ a, pass.Spares x.keyword) (b : List Instruction) :
    pass.apply (a ++ b) = ⟨a, []⟩ ++ pass.apply b := by
  have alone := apply_of_spares h
  cases pass with
  | mergeRuns | mergeMetadata => exact mergeBlocks_append_of_unmergeable (fun x hx => (h x hx).1) b
  | _ =>
    rw [← alone]
    exact replaceEach_append _ a b

theorem spares_copy (pass : Pass) : pass.Spares .copy :=
  spares_of_notMem (by decide) pass

/-- The first instruction that a pass leaves has the keyword of the first one that it found, unless
it is a COPY. -/
theorem keyword_head_apply (pass : Pass) {xs : List Instruction} {y : Instruction}
    (hy : y ∈ (pass.apply xs).instructions.head?) (ne : y.keyword ≠ .copy) :
    ∃ x ∈ xs.head?, x.keyword = y.keyword := by
  obtain ⟨pieces, rfl, rewritten⟩ := exists_rewrites pass xs
  obtain ⟨rest, heq⟩ := List.head?_eq_some_iff.mp hy
  rw [heq] at rewritten
  obtain ⟨piece, pieces, here, -, rfl⟩ := List.forall₂_cons_right_iff.mp rewritten
  obtain ⟨x, more, rfl⟩ := List.exists_cons_of_ne_nil here.ne_nil
  exact ⟨x, by simp, here.keyword_eq ne x List.mem_cons_self⟩

/-- A pass leaves instructions with the keyword that it found, or COPYs. -/
theorem keyword_of_mem_apply (pass : Pass) {block : List Instruction} {k : Keyword}
    (same : ∀ x ∈ block, x.keyword = k) {y : Instruction}
    (hy : y ∈ (pass.apply block).instructions) : y.keyword = k ∨ y.keyword = .copy := by
  refine forall_mem_apply (P := fun y => y.keyword = k ∨ y.keyword = .copy) ?_
    (fun x hx => Or.inl (same x hx)) y hy
  intro piece z rewritten kept
  by_cases copy : z.keyword = .copy
  · exact Or.inr copy
  · obtain ⟨x, more, rfl⟩ := List.exists_cons_of_ne_nil rewritten.ne_nil
    have hz := rewritten.keyword_eq copy x List.mem_cons_self
    exact hz ▸ kept x List.mem_cons_self

/-! ### Different keywords -/

/-- The order of the two passes does not matter to the list: they lead to the same instructions, and
each of them logs the same changes. -/
structure Commutes (p q : Pass) (xs : List Instruction) : Prop where
  instructions :
    (q.apply (p.apply xs).instructions).instructions
      = (p.apply (q.apply xs).instructions).instructions
  first : (p.apply (q.apply xs).instructions).changes = (p.apply xs).changes
  second : (q.apply (p.apply xs).instructions).changes = (q.apply xs).changes

theorem Commutes.symm {p q : Pass} {xs : List Instruction} (h : Commutes p q xs) :
    Commutes q p xs :=
  ⟨h.instructions.symm, h.second, h.first⟩

theorem commutes_append {p q : Pass} {block rest : List Instruction} {k : Keyword}
    (same : ∀ x ∈ block, x.keyword = k) (differ : ∀ y ∈ rest.head?, y.keyword ≠ k)
    (spared : p.Spares k) (h : Commutes p q rest) : Commutes p q (block ++ rest) := by
  have hblock : ∀ x ∈ block, p.Spares x.keyword := fun x hx => same x hx ▸ spared
  have left : p.apply (block ++ rest) = ⟨block, []⟩ ++ p.apply rest :=
    apply_append_of_spares hblock rest
  have right : q.apply (block ++ rest) = q.apply block ++ q.apply rest :=
    q.apply_append fun x hx y hy heq =>
      differ y hy (heq.symm.trans (same x (List.mem_of_getLast? hx)))
  -- Only COPYs can come to stand behind instructions with the same keyword, and nobody minds them.
  have afterLeft : q.apply (block ++ (p.apply rest).instructions)
      = q.apply block ++ q.apply (p.apply rest).instructions := by
    by_cases copy : k = .copy
    · have hq : ∀ x ∈ block, q.Spares x.keyword := fun x hx => by
        rw [same x hx, copy]
        exact q.spares_copy
      rw [apply_append_of_spares hq, apply_of_spares hq]
    · apply q.apply_append
      intro x hx y hy heq
      have hy' : y.keyword = k := heq.symm.trans (same x (List.mem_of_getLast? hx))
      obtain ⟨z, hz, hzk⟩ := p.keyword_head_apply hy (hy' ▸ copy)
      exact differ z hz (hzk.trans hy')
  have afterRight : p.apply ((q.apply block).instructions ++ (q.apply rest).instructions)
      = ⟨(q.apply block).instructions, []⟩ ++ p.apply (q.apply rest).instructions := by
    refine apply_append_of_spares (fun y hy => ?_) _
    rcases q.keyword_of_mem_apply same hy with hy | hy
    · exact hy ▸ spared
    · exact hy ▸ p.spares_copy
  constructor
  · simp only [left, right, Revision.instructions_append, afterLeft, afterRight, h.instructions]
  · simp only [left, right, Revision.instructions_append, afterRight, Revision.changes_append,
      h.first]
  · simp only [left, right, Revision.instructions_append, afterLeft, Revision.changes_append,
      h.second]

/-- Every list is empty, or a block of instructions with one keyword and a list that does not start
with that keyword. -/
theorem keyword_induction {motive : List Instruction → Prop} (nil : motive [])
    (append : ∀ k block rest, (∀ x ∈ block, x.keyword = k) → (∀ y ∈ rest.head?, y.keyword ≠ k) →
      motive rest → motive (block ++ rest)) (xs : List Instruction) : motive xs := by
  induction hlength : xs.length using Nat.strong_induction_on generalizing xs with
  | _ n ih =>
    cases xs with
    | nil => exact nil
    | cons x xs =>
      have start : (x :: xs).takeWhile (·.keyword == x.keyword)
          = x :: xs.takeWhile (·.keyword == x.keyword) :=
        List.takeWhile_cons_of_pos (beq_self_eq_true x.keyword)
      have hparts := List.takeWhile_append_dropWhile (p := (·.keyword == x.keyword)) (l := x :: xs)
      rw [← hparts]
      refine append x.keyword _ _ (fun y hy => ?_) (fun y hy => ?_) (ih _ ?_ _ rfl)
      · simpa using List.mem_takeWhile_imp hy
      · have stop := List.head?_dropWhile_not (·.keyword == x.keyword) (x :: xs)
        rw [Option.mem_def.mp hy] at stop
        simpa using stop
      · have hlen := congrArg List.length hparts
        rw [start, List.length_append, List.length_cons] at hlen
        omega

/-- Passes that are concerned with different keywords commute. -/
theorem commutes_of_spares {p q : Pass} (h : ∀ k, p.Spares k ∨ q.Spares k)
    (xs : List Instruction) : Commutes p q xs := by
  induction xs using keyword_induction with
  | nil =>
    have nothing : ∀ pass : Pass, pass.apply [] = ⟨[], []⟩ :=
      fun pass => apply_of_spares (fun x hx => absurd hx List.not_mem_nil)
    constructor <;> simp only [nothing]
  | append k block rest same differ ih =>
    rcases h k with hp | hq
    · exact commutes_append same differ hp ih
    · exact (commutes_append same differ hq ih.symm).symm

end Pass

/-! ### The two ends of a command -/

namespace Optimize

variable {f g : Instruction → Option (Instruction × Change)} {x y z : Instruction} {c d : Change}

/-- Neither replacement gets in the way of the other. -/
structure Independent (f g : Instruction → Option (Instruction × Change)) : Prop where
  left : ∀ {x y c}, f x = some (y, c) → g x = none → g y = none
  right : ∀ {x z d}, g x = some (z, d) → f x = none → f z = none
  both : ∀ {x y z c d}, f x = some (y, c) → g x = some (z, d) →
    ∃ w, g y = some (w, d) ∧ f z = some (w, c)

/-- The instruction that takes the place of another, which may be that one itself. -/
def replaced (f : Instruction → Option (Instruction × Change)) (x : Instruction) : Instruction :=
  ((f x).map Prod.fst).getD x

theorem replaced_of_none (h : f x = none) : replaced f x = x := by
  rw [replaced, h]
  rfl

theorem replaced_of_some (h : f x = some (y, c)) : replaced f x = y := by
  rw [replaced, h]
  rfl

/-- A replacement that is concerned with one keyword and writes no other. -/
theorem replaced_of_subject {k : Keyword}
    (subject : ∀ {x y c}, f x = some (y, c) → x.keyword = k ∧ y.keyword = k) (x : Instruction) :
    (replaced f x).keyword = x.keyword ∧ (x.keyword ≠ k → replaced f x = x) := by
  cases found : f x with
  | none => exact ⟨by rw [replaced_of_none found], fun _ => replaced_of_none found⟩
  | some result =>
    obtain ⟨before, after⟩ := subject found
    exact ⟨by rw [replaced_of_some found, before, after], fun other => absurd before other⟩

theorem Independent.replaced (h : Independent f g) (x : Instruction) :
    replaced g (replaced f x) = replaced f (replaced g x) ∧
      (f (replaced g x)).map Prod.snd = (f x).map Prod.snd ∧
      (g (replaced f x)).map Prod.snd = (g x).map Prod.snd := by
  cases hf : f x with
  | none =>
    cases hg : g x with
    | none => simp [replaced_of_none hf, replaced_of_none hg, hf, hg]
    | some result =>
      obtain ⟨z, d⟩ := result
      have hz := h.right hg hf
      simp [replaced_of_none hf, replaced_of_some hg, replaced_of_none hz, hg, hz]
  | some result =>
    obtain ⟨y, c⟩ := result
    cases hg : g x with
    | none =>
      have hy := h.left hf hg
      simp [replaced_of_some hf, replaced_of_none hg, replaced_of_none hy, hf, hy]
    | some result =>
      obtain ⟨z, d⟩ := result
      obtain ⟨w, hy, hz⟩ := h.both hf hg
      simp [replaced_of_some hf, replaced_of_some hg, replaced_of_some hy, replaced_of_some hz,
        hy, hz]

theorem trimmed_install : Trimmed "apt-get install".toList := by
  decide

theorem trimmed_update : Trimmed "apt-get update".toList := by
  decide

/-- Text after a command in which the phrase cannot end. -/
theorem mentions_strip_append {v t phrase : String} {c : Char} (ends : Trimmed phrase.toList)
    (last : phrase.toList.getLast? = some c) (hc : c ∉ t.toList) :
    mentions (strip v ++ t) phrase = mentions v phrase := by
  have ne : phrase.toList ≠ [] := List.ne_nil_of_mem (List.mem_of_getLast? last)
  rw [← mentions_strip (s := v) ne ends]
  cases h : mentions (strip v) phrase with
  | true => exact mentions_append_left h
  | false => exact mentions_append_eq_false_left h last hc

/-- Text before a command in which the phrase cannot start. -/
theorem mentions_append_strip {v t phrase : String} {c : Char} (ends : Trimmed phrase.toList)
    (head : phrase.toList.head? = some c) (hc : c ∉ t.toList) :
    mentions (t ++ strip v) phrase = mentions v phrase := by
  have ne : phrase.toList ≠ [] := List.ne_nil_of_mem (List.mem_of_mem_head? head)
  rw [← mentions_strip (s := v) ne ends]
  cases h : mentions (strip v) phrase with
  | true => exact mentions_append_right h
  | false => exact mentions_append_eq_false_right h head hc

/-- A command that installs something is not blank. -/
theorem toList_strip_ne_nil {v : String} (install : mentions v "apt-get install" = true) :
    (strip v).toList ≠ [] := by
  intro nothing
  have inside := mentions_iff.mp ((mentions_strip (by simp) trimmed_install).trans install)
  rw [nothing, List.infix_nil] at inside
  simp at inside

theorem independent_clean_update : Independent clean? prependUpdate? where
  left := by
    intro x y c hc none
    obtain ⟨hx, install, -, rfl, -⟩ := clean?_eq_some.mp hc
    rw [Option.eq_none_iff_forall_ne_some]
    rintro ⟨w, d⟩ hw
    obtain ⟨-, -, stale, -, -⟩ := prependUpdate?_eq_some.mp hw
    rw [write_value, mentions_strip_append trimmed_update rfl (by decide)] at stale
    have found := prependUpdate?_eq_some.mpr ⟨hx, install, stale, rfl, rfl⟩
    cases none.symm.trans found
  right := by
    intro x z d hd none
    obtain ⟨hx, install, -, rfl, -⟩ := prependUpdate?_eq_some.mp hd
    rw [Option.eq_none_iff_forall_ne_some]
    rintro ⟨w, c⟩ hw
    obtain ⟨-, -, dirty, -, -⟩ := clean?_eq_some.mp hw
    rw [write_value, mentions_append_strip trimmed_removal rfl (by decide)] at dirty
    have found := clean?_eq_some.mpr ⟨hx, install, dirty, rfl, rfl⟩
    cases none.symm.trans found
  both := by
    intro x y z c d hc hd
    obtain ⟨hx, install, dirty, rfl, rfl⟩ := clean?_eq_some.mp hc
    obtain ⟨-, -, stale, rfl, rfl⟩ := prependUpdate?_eq_some.mp hd
    have ne := toList_strip_ne_nil install
    have stripped : Trimmed (strip x.value).toList := toList_strip x.value ▸ trimmed_trim _
    have installs := (mentions_strip (by simp) trimmed_install).trans install
    have cleaned : strip (strip x.value ++ " \\\n    && rm -rf /var/lib/apt/lists/*")
        = strip x.value ++ " \\\n    && rm -rf /var/lib/apt/lists/*" := by
      apply strip_eq_self
      rw [String.toList_append]
      exact trimmed_append ne (by simp) stripped.head (by simp [isBlank])
    have updated : strip ("apt-get update && " ++ strip x.value)
        = "apt-get update && " ++ strip x.value := by
      apply strip_eq_self
      rw [String.toList_append]
      exact trimmed_append (by simp) ne (by simp [isBlank]) stripped.last
    refine ⟨_, prependUpdate?_eq_some.mpr ⟨rfl, mentions_append_left installs, ?_, rfl, rfl⟩,
      clean?_eq_some.mpr ⟨rfl, mentions_append_right installs, ?_, ?_, rfl⟩⟩
    · rw [write_value, mentions_strip_append trimmed_update rfl (by decide)]
      exact stale
    · rw [write_value, mentions_append_strip trimmed_removal rfl (by decide)]
      exact dirty
    · simp only [write_line, write_value, cleaned, updated, String.append_assoc]

end Optimize

namespace Pass

theorem commutes_clean_update (xs : List Instruction) : Commutes .clean .prependUpdate xs := by
  have each := independent_clean_update.replaced
  constructor
  · change (xs.map (replaced clean?)).map (replaced prependUpdate?)
      = (xs.map (replaced prependUpdate?)).map (replaced clean?)
    rw [List.map_map, List.map_map]
    exact List.map_congr_left fun x _ => (each x).1
  · change (xs.map (replaced prependUpdate?)).filterMap (fun x => (clean? x).map Prod.snd) = _
    rw [List.filterMap_map]
    exact List.filterMap_congr fun x _ => (each x).2.1
  · change (xs.map (replaced clean?)).filterMap (fun x => (prependUpdate? x).map Prod.snd) = _
    rw [List.filterMap_map]
    exact List.filterMap_congr fun x _ => (each x).2.2

/-! ### Which passes commute -/

/-- The passes whose keywords no other pass is concerned with. -/
def movable : List Pass :=
  [.pin, .addProtocol, .addToCopy, .mergeMetadata]

theorem mem_all (pass : Pass) : pass ∈ all := by
  cases pass <;> decide

theorem spares_or_spares :
    ∀ p ∈ movable, ∀ q ∈ all, p ≠ q → ∀ k ∈ Keyword.all, p.Spares k ∨ q.Spares k := by
  decide

theorem commutes_of_mem_movable {p q : Pass} (h : p ∈ movable) (ne : p ≠ q)
    (xs : List Instruction) : Commutes p q xs :=
  commutes_of_spares (fun k => spares_or_spares p h q (mem_all q) ne k (Keyword.mem_all k)) xs

/-- Three commands, of which the second installs something once `sudo` is taken out. -/
def installs : List Instruction :=
  [.write 1 .run "apt-get install a", .write 2 .run "apt-get sudo install b",
   .write 3 .run "apt-get install c"]

/-- Merging RUNs and taking out `sudo` change what the other passes on RUNs find. -/
theorem changes_installs :
    ∀ p ∈ [mergeRuns, dropSudo], ∀ q ∈ [dropSudo, clean, prependUpdate], p ≠ q →
      (q.apply (p.apply installs).instructions).changes ≠ (q.apply installs).changes := by
  decide +kernel

theorem cases_of_ne :
    ∀ p ∈ all, ∀ q ∈ all, p ≠ q →
      (p ∈ movable ∨ q ∈ movable ∨ p ∈ [clean, prependUpdate] ∧ q ∈ [clean, prependUpdate]) ∨
      (p ∈ [mergeRuns, dropSudo] ∧ q ∈ [dropSudo, clean, prependUpdate]) ∨
      q ∈ [mergeRuns, dropSudo] ∧ p ∈ [dropSudo, clean, prependUpdate] := by
  decide

/-- Two passes commute on every list exactly if one of them pins images, adds protocols, turns ADD
into COPY or merges settings, or if the one cleans up and the other updates. -/
theorem commutes_iff {p q : Pass} (ne : p ≠ q) :
    (∀ xs, Commutes p q xs) ↔
      p ∈ movable ∨ q ∈ movable ∨ p ∈ [clean, prependUpdate] ∧ q ∈ [clean, prependUpdate] := by
  constructor
  · intro commutes
    rcases cases_of_ne p (mem_all p) q (mem_all q) ne with listed | ⟨hp, hq⟩ | ⟨hq, hp⟩
    · exact listed
    · exact absurd (commutes installs).second (changes_installs p hp q hq ne)
    · exact absurd (commutes installs).first (changes_installs q hq p hp ne.symm)
  · rintro (hp | hq | ⟨hp, hq⟩) xs
    · exact commutes_of_mem_movable hp ne xs
    · exact (commutes_of_mem_movable hq ne.symm xs).symm
    · simp only [List.mem_cons, List.not_mem_nil, or_false] at hp hq
      rcases hp with rfl | rfl <;> rcases hq with rfl | rfl
      · exact absurd rfl ne
      · exact commutes_clean_update xs
      · exact (commutes_clean_update xs).symm
      · exact absurd rfl ne

/-- Blocks of settings and of RUNs, both of which are merged. -/
theorem commutes_iff_settings :
    let xs : List Instruction := [.write 1 .env "A=1", .write 2 .env "B=2", .write 3 .run "c",
      .write 4 .run "d", .write 5 .env "E=3", .write 6 .env "F=4"]
    mergeMetadata ≠ mergeRuns ∧ mergeMetadata ∈ movable ∧
      (mergeMetadata.apply xs).changes = [.mergedMetadata .env 2 1, .mergedMetadata .env 2 5] ∧
      (mergeRuns.apply xs).changes = [.mergedRuns 2 3] ∧ Commutes mergeMetadata mergeRuns xs :=
  ⟨by decide, by decide, by decide +kernel, by decide +kernel,
    (commutes_iff (by decide)).mpr (Or.inl (by decide)) _⟩

end Pass

end Dockerfile
