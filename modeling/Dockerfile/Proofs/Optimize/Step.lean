import Dockerfile.Optimize
import Dockerfile.Proofs.Related
import Dockerfile.Proofs.Optimize.Blocks
import Dockerfile.Proofs.Optimize.Replacement

/-!
What one pass does to a list, said once for all passes.

A pass cuts its list into pieces of neighbours and makes one instruction of each piece:
`Pass.Rewrites` lists the ways, and `exists_rewrites` says that there is no other. What a whole run
keeps follows from what these ways keep: `forall_mem_apply` and `forall_mem_applyAll` for a property
of single instructions, `map_filter_applyAll` for a view of some of them, `apart_apply` for
neighbours.

A pass is idle on a list if it logs no change there. Then it gives the list back (`apply_of_idle`),
and a run of passes that are all idle does too (`applyAll_of_idle`).
-/

namespace Dockerfile

open Optimize

/-- The pass that makes a change. -/
def Change.pass : Change → Pass
  | .mergedRuns .. => .mergeRuns
  | .pinned .. => .pin
  | .cleaned _ => .clean
  | .protocolAdded _ => .addProtocol
  | .addReplaced _ => .addToCopy
  | .mergedMetadata .. => .mergeMetadata
  | .sudoRemoved _ => .dropSudo
  | .updatePrepended _ => .prependUpdate

namespace Pass

/-- The replacement that a pass has for a single instruction. -/
def replacement? : Pass → Instruction → Option (Instruction × Change)
  | .pin => pin?
  | .clean => clean?
  | .addProtocol => addProtocol?
  | .addToCopy => addToCopy?
  | .dropSudo => dropSudo?
  | .prependUpdate => prependUpdate?
  | .mergeRuns | .mergeMetadata => fun _ => none

/-- The keywords whose blocks a pass merges. -/
def merges : Pass → Keyword → Bool
  | .mergeRuns => (· == .run)
  | .mergeMetadata => isMetadata
  | _ => fun _ => false

/-- What stands between the values that a pass joins. -/
def separator : Pass → String
  | .mergeRuns => " \\\n    && "
  | _ => " \\\n    "

/-- The ways in which a pass makes one instruction of some neighbours. -/
inductive Rewrites (pass : Pass) : List Instruction → Instruction → Prop
  | keep (x : Instruction) : Rewrites pass [x] x
  | replace {x y : Instruction} {change : Change} :
      pass.replacement? x = some (y, change) → Rewrites pass [x] y
  | merge {first second : Instruction} {rest : List Instruction} :
      pass.merges first.keyword = true →
      (∀ x ∈ first :: second :: rest, x.keyword = first.keyword) →
      Rewrites pass (first :: second :: rest)
        (.write first.line first.keyword (joined pass.separator (first :: second :: rest)))

/-- A replacement keeps the keyword, unless it turns ADD into COPY. -/
theorem keyword_of_replacement? {pass : Pass} {x y : Instruction} {change : Change}
    (h : pass.replacement? x = some (y, change)) (ne : y.keyword ≠ .copy) :
    x.keyword = y.keyword := by
  cases pass with
  | mergeRuns | mergeMetadata => cases h
  | pin =>
    obtain ⟨hk, -, rfl, -⟩ := pin?_eq_some.mp h
    exact hk
  | clean =>
    obtain ⟨hk, -, -, rfl, -⟩ := clean?_eq_some.mp h
    exact hk
  | addProtocol =>
    obtain ⟨hk, -, rfl, -⟩ := addProtocol?_eq_some.mp h
    exact hk
  | addToCopy =>
    obtain ⟨-, rfl, -⟩ := addToCopy?_eq_some.mp h
    exact absurd rfl ne
  | dropSudo =>
    obtain ⟨hk, -, rfl, -⟩ := dropSudo?_eq_some.mp h
    exact hk
  | prependUpdate =>
    obtain ⟨hk, -, -, rfl, -⟩ := prependUpdate?_eq_some.mp h
    exact hk

namespace Rewrites

variable {pass : Pass} {block : List Instruction} {y : Instruction}

theorem ne_nil (h : pass.Rewrites block y) : block ≠ [] := by
  cases h <;> simp

theorem keyword_eq (h : pass.Rewrites block y) (ne : y.keyword ≠ .copy) :
    ∀ x ∈ block, x.keyword = y.keyword := by
  cases h with
  | keep => simp
  | replace found => simpa using keyword_of_replacement? found ne
  | merge _ same => exact same

end Rewrites

/-! ### A pass as a list of rewritings -/

theorem forall₂_replaceEach {pass : Pass} {f : Instruction → Option (Instruction × Change)}
    (hf : pass.replacement? = f) (xs : List Instruction) :
    List.Forall₂ pass.Rewrites (xs.map ([·])) (replaceEach f xs).instructions := by
  induction xs with
  | nil => exact .nil
  | cons x xs ih =>
    refine .cons ?_ ih
    subst hf
    cases hx : pass.replacement? x with
    | none => simpa [hx] using Rewrites.keep x
    | some result => simpa [hx] using Rewrites.replace hx

theorem exists_rewrites_mergeBlocks {pass : Pass} {change : Keyword → Nat → Int → Change}
    (xs : List Instruction) :
    ∃ pieces, pieces.flatten = xs ∧ List.Forall₂ pass.Rewrites pieces
      (mergeBlocks pass.merges pass.separator change xs).instructions := by
  have each : ∀ block ∈ blocks xs, ∃ pieces, pieces.flatten = block ∧
      List.Forall₂ pass.Rewrites pieces
        (mergeBlock pass.merges pass.separator change block).instructions := by
    intro block hb
    rcases mergeBlock_cases pass.merges pass.separator change block with
      ⟨first, second, rest, rfl, hm, heq⟩ | ⟨-, heq⟩
    · refine ⟨[first :: second :: rest], by simp, ?_⟩
      rw [heq]
      refine .cons (.merge hm fun x hx => ?_) .nil
      exact keyword_eq_of_mem_block hb hx List.mem_cons_self
    · refine ⟨block.map ([·]), flatten_singletons block, ?_⟩
      rw [heq]
      exact forall₂_singletons Rewrites.keep block
  suffices gathered : ∃ pieces, pieces.flatten = (blocks xs).flatten ∧
      List.Forall₂ pass.Rewrites pieces ((blocks xs).map fun block =>
        (mergeBlock pass.merges pass.separator change block).instructions).flatten by
    rwa [flatten_blocks, ← mergeBlocks_instructions] at gathered
  generalize blocks xs = bs at each
  induction bs with
  | nil => exact ⟨[], rfl, .nil⟩
  | cons block bs ih =>
    obtain ⟨here, hflat, hhere⟩ := each block List.mem_cons_self
    obtain ⟨later, lflat, hlater⟩ := ih fun b hb => each b (List.mem_cons_of_mem _ hb)
    refine ⟨here ++ later, by simp [hflat, lflat], ?_⟩
    exact List.rel_append hhere hlater

/-- Every pass cuts its list into pieces and makes one instruction of each. -/
theorem exists_rewrites (pass : Pass) (xs : List Instruction) :
    ∃ pieces, pieces.flatten = xs ∧
      List.Forall₂ pass.Rewrites pieces (pass.apply xs).instructions := by
  cases pass with
  | mergeRuns | mergeMetadata => exact exists_rewrites_mergeBlocks xs
  | _ => exact ⟨xs.map ([·]), flatten_singletons xs, forall₂_replaceEach rfl xs⟩

theorem nil_notMem_pieces {pass : Pass} {pieces : List (List Instruction)}
    {ys : List Instruction} (h : List.Forall₂ pass.Rewrites pieces ys) : [] ∉ pieces := by
  induction h with
  | nil => simp
  | cons hy _ ih =>
    intro hnil
    rcases List.mem_cons.mp hnil with heq | later
    · exact hy.ne_nil heq.symm
    · exact ih later

/-! ### What a pass keeps -/

/-- A property of instructions that survives each way of rewriting survives the pass. -/
theorem forall_mem_apply {P : Instruction → Prop} {pass : Pass}
    (step : ∀ block y, pass.Rewrites block y → (∀ x ∈ block, P x) → P y)
    {xs : List Instruction} (h : ∀ x ∈ xs, P x) : ∀ y ∈ (pass.apply xs).instructions, P y := by
  obtain ⟨pieces, rfl, rewritten⟩ := exists_rewrites pass xs
  generalize (pass.apply pieces.flatten).instructions = ys at rewritten
  induction rewritten with
  | nil => simp
  | cons hy _ ih =>
    intro z hz
    rcases List.mem_cons.mp hz with rfl | hz
    · exact step _ _ hy fun x hx => h x (by simp [hx])
    · exact ih (fun x hx => h x (by rw [List.flatten_cons]; exact List.mem_append_right _ hx)) z hz

theorem forall_mem_applyAll {P : Instruction → Prop} (passes : List Pass)
    (step : ∀ pass ∈ passes, ∀ block y, pass.Rewrites block y → (∀ x ∈ block, P x) → P y)
    {xs : List Instruction} (h : ∀ x ∈ xs, P x) : ∀ y ∈ (applyAll xs passes).instructions, P y := by
  induction passes generalizing xs with
  | nil => exact h
  | cons pass passes ih =>
    exact ih (fun p hp => step p (List.mem_cons_of_mem _ hp))
      (forall_mem_apply (step pass List.mem_cons_self) h)

/-- The pass keeps what the view shows of the instructions that `p` selects: it shows the same of a
piece and of what is made of it. -/
def Keeps {α : Type} (pass : Pass) (p : Instruction → Bool) (view : Instruction → α) : Prop :=
  ∀ block y, pass.Rewrites block y → ([y].filter p).map view = (block.filter p).map view

section Keeps

variable {α : Type} {pass : Pass} {p : Instruction → Bool} {view : Instruction → α}

/-- A view is kept that a replacement does not change and that selects nothing that is merged. -/
theorem Keeps.of_replacement?
    (replaced : ∀ x y change, pass.replacement? x = some (y, change) →
      p y = p x ∧ (p x = true → view y = view x))
    (merged : ∀ x : Instruction, pass.merges x.keyword = true → p x = false) :
    pass.Keeps p view := by
  intro block y h
  cases h with
  | keep => rfl
  | @replace x _ change found =>
    obtain ⟨same, shown⟩ := replaced x y change found
    by_cases hx : p x = true
    · simp [same, hx, shown hx]
    · simp [same, hx]
  | @merge first second rest merges same =>
    have others : ∀ x ∈ first :: second :: rest, ¬ p x = true := by
      intro x hx
      rw [merged x (by rwa [same x hx])]
      exact Bool.false_ne_true
    have whole := merged (.write first.line first.keyword
      (joined pass.separator (first :: second :: rest))) merges
    rw [List.filter_eq_nil_iff.mpr others, List.filter_cons_of_neg (Bool.eq_false_iff.mp whole)]
    rfl

theorem map_filter_apply (keeps : pass.Keeps p view) (xs : List Instruction) :
    ((pass.apply xs).instructions.filter p).map view = (xs.filter p).map view := by
  obtain ⟨pieces, rfl, rewritten⟩ := exists_rewrites pass xs
  exact map_filter_flatten rewritten keeps

theorem map_filter_applyAll {passes : List Pass} (keeps : ∀ pass ∈ passes, pass.Keeps p view)
    (xs : List Instruction) :
    ((applyAll xs passes).instructions.filter p).map view = (xs.filter p).map view := by
  induction passes generalizing xs with
  | nil => rfl
  | cons pass passes ih =>
    have later := ih (fun q hq => keeps q (List.mem_cons_of_mem _ hq)) (pass.apply xs).instructions
    exact later.trans (map_filter_apply (keeps pass List.mem_cons_self) xs)

end Keeps

/-- No pass brings two instructions with one keyword together, except that it may turn an ADD into
a COPY. -/
theorem apart_apply {k : Keyword} (ne : k ≠ .copy) (pass : Pass) {xs : List Instruction}
    (h : Apart k xs) : Apart k (pass.apply xs).instructions := by
  obtain ⟨pieces, rfl, rewritten⟩ := exists_rewrites pass xs
  have between := ((List.isChain_flatten (nil_notMem_pieces rewritten)).mp h).2
  refine isChain_of_forall₂ rewritten ?_ between
  rintro a b y z ha hb apart ⟨rfl, hz⟩
  -- The last instruction of the one piece and the first of the other have the keyword already.
  have hlast := ha.keyword_eq ne _ (List.getLast_mem ha.ne_nil)
  have hhead := hb.keyword_eq (hz ▸ ne) _ (List.head_mem hb.ne_nil)
  exact apart _ (List.getLast?_eq_some_getLast ha.ne_nil) _ (List.head?_eq_some_head hb.ne_nil)
    ⟨hlast, hhead.trans hz⟩

theorem applyAll_append (xs : List Instruction) (ps qs : List Pass) :
    (applyAll xs (ps ++ qs)).instructions =
      (applyAll (applyAll xs ps).instructions qs).instructions := by
  induction ps generalizing xs with
  | nil => rfl
  | cons p ps ih => exact ih _

theorem applyAll_singleton (xs : List Instruction) (p : Pass) :
    (applyAll xs [p]).instructions = (p.apply xs).instructions := rfl

/-! ### Idle passes -/

/-- The pass logs no change. -/
def Idle (pass : Pass) (xs : List Instruction) : Prop :=
  (pass.apply xs).changes = []

instance (pass : Pass) (xs : List Instruction) : Decidable (pass.Idle xs) :=
  inferInstanceAs (Decidable (_ = []))

/-- A pass is idle on a list in which it has nothing to replace and nothing to merge. -/
theorem idle_iff {pass : Pass} {xs : List Instruction} :
    pass.Idle xs ↔ (∀ x ∈ xs, pass.replacement? x = none) ∧
      ∀ k, pass.merges k = true → Apart k xs := by
  cases pass with
  | mergeRuns | mergeMetadata =>
    exact mergeBlocks_changes_eq_nil_iff.trans ⟨fun h => ⟨fun _ _ => rfl, h⟩, fun h => h.2⟩
  | _ =>
    refine replaceEach_changes_eq_nil_iff.trans ⟨fun h => ⟨h, fun k hk => ?_⟩, fun h => h.1⟩
    exact absurd hk (by simp [merges])

theorem apply_of_idle {pass : Pass} {xs : List Instruction} (h : pass.Idle xs) :
    pass.apply xs = ⟨xs, []⟩ := by
  cases pass with
  | mergeRuns | mergeMetadata => exact mergeBlocks_eq_self h
  | _ => exact replaceEach_eq_self h

theorem pass_eq_of_mem_mergeBlocks {mergeable : Keyword → Bool} {separator : String}
    {change : Keyword → Nat → Int → Change} {xs : List Instruction} {c : Change}
    (h : c ∈ (mergeBlocks mergeable separator change xs).changes) {pass : Pass}
    (own : ∀ k count line, (change k count line).pass = pass) : c.pass = pass := by
  rw [mergeBlocks_changes] at h
  obtain ⟨log, hlog, hc⟩ := List.mem_flatten.mp h
  obtain ⟨block, -, rfl⟩ := List.mem_map.mp hlog
  rcases mergeBlock_cases mergeable separator change block with
    ⟨_, _, _, -, -, heq⟩ | ⟨-, heq⟩
  · rw [heq, List.mem_singleton] at hc
    rw [hc, own]
  · simp [heq] at hc

/-- The log of a pass holds changes of that pass only. -/
theorem pass_eq_of_mem_changes {pass : Pass} {xs : List Instruction} {change : Change}
    (h : change ∈ (pass.apply xs).changes) : change.pass = pass := by
  cases pass with
  | mergeRuns => exact pass_eq_of_mem_mergeBlocks h fun _ _ _ => rfl
  | mergeMetadata => exact pass_eq_of_mem_mergeBlocks h fun _ _ _ => rfl
  | pin =>
    obtain ⟨x, -, y, found⟩ := mem_replaceEach_changes.mp h
    rw [(pin?_eq_some.mp found).2.2.2]
    rfl
  | clean =>
    obtain ⟨x, -, y, found⟩ := mem_replaceEach_changes.mp h
    rw [(clean?_eq_some.mp found).2.2.2.2]
    rfl
  | addProtocol =>
    obtain ⟨x, -, y, found⟩ := mem_replaceEach_changes.mp h
    rw [(addProtocol?_eq_some.mp found).2.2.2]
    rfl
  | addToCopy =>
    obtain ⟨x, -, y, found⟩ := mem_replaceEach_changes.mp h
    rw [(addToCopy?_eq_some.mp found).2.2]
    rfl
  | dropSudo =>
    obtain ⟨x, -, y, found⟩ := mem_replaceEach_changes.mp h
    rw [(dropSudo?_eq_some.mp found).2.2.2]
    rfl
  | prependUpdate =>
    obtain ⟨x, -, y, found⟩ := mem_replaceEach_changes.mp h
    rw [(prependUpdate?_eq_some.mp found).2.2.2.2]
    rfl

/-- A run of idle passes changes nothing. -/
theorem applyAll_of_idle {passes : List Pass} {xs : List Instruction}
    (h : ∀ pass ∈ passes, pass.Idle xs) : applyAll xs passes = ⟨xs, []⟩ := by
  induction passes with
  | nil => rfl
  | cons pass passes ih =>
    have here := apply_of_idle (h pass List.mem_cons_self)
    have later := ih fun p hp => h p (List.mem_cons_of_mem _ hp)
    simp only [applyAll, here, later, List.append_nil]

/-- Every pass but the one that takes out `sudo` finishes its work in one go. -/
theorem idle_apply {pass : Pass} (ne : pass ≠ .dropSudo) (xs : List Instruction) :
    pass.Idle (pass.apply xs).instructions := by
  cases pass with
  | mergeRuns | mergeMetadata =>
    refine mergeBlocks_changes_eq_nil_iff.mpr fun k hk => ?_
    apply apart_mergeBlocks
    exact hk
  | pin => exact replaceEach_replaceEach fun _ _ _ => pin?_of_pin?
  | clean => exact replaceEach_replaceEach fun _ _ _ => clean?_of_clean?
  | addProtocol => exact replaceEach_replaceEach fun _ _ _ => addProtocol?_of_addProtocol?
  | addToCopy => exact replaceEach_replaceEach fun _ _ _ => addToCopy?_of_addToCopy?
  | dropSudo => exact absurd rfl ne
  | prependUpdate => exact replaceEach_replaceEach fun _ _ _ => prependUpdate?_of_prependUpdate?

end Pass

end Dockerfile
