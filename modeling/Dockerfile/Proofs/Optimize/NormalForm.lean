import Dockerfile.Proofs.Optimize.Remedy
import Dockerfile.Proofs.Text.Trim

/-!
The list that the pipeline leaves.

Each pass finishes its own work (`Pass.idle_apply`). For five passes, the lasting ones, no pass
after them undoes it: what any pass writes is nothing they would replace
(`replacement?_of_rewrites`), and no pass brings together what they keep apart (`Pass.apart_apply`).
So they are idle on everything that a run in which they took part leaves (`idle_applyAll`).

Taking out `sudo` may destroy a cleanup and lay open an installation. Where no RUN mentions `sudo`
this does not arise (`sudoFree_of_rewrites`), and then every pass is idle on the result.
-/

namespace Dockerfile

open Optimize Rule Text

namespace Pass

/-- The passes whose work no other pass undoes. -/
def lasting : List Pass :=
  [.mergeRuns, .pin, .addProtocol, .addToCopy, .mergeMetadata]

theorem merges_ne_copy {pass : Pass} {k : Keyword} (h : pass.merges k = true) : k ≠ .copy := by
  rintro rfl
  cases pass <;> exact absurd h (by decide)

theorem keyword_of_merges {pass : Pass} {k : Keyword} (h : pass.merges k = true) :
    k ≠ .fromImage ∧ k ≠ .expose ∧ k ≠ .add := by
  refine ⟨?_, ?_, ?_⟩ <;> rintro rfl <;> cases pass <;> exact absurd h (by decide)

/-- The keyword of the instructions that a pass replaces. -/
def subject? : Pass → Option Keyword
  | .pin => some .fromImage
  | .addProtocol => some .expose
  | .addToCopy => some .add
  | .clean | .dropSudo | .prependUpdate => some .run
  | .mergeRuns | .mergeMetadata => none

theorem replacement?_eq_none {pass : Pass} {x : Instruction}
    (h : pass.subject? ≠ some x.keyword) : pass.replacement? x = none := by
  rw [Option.eq_none_iff_forall_ne_some]
  rintro ⟨y, change⟩ found
  apply h
  cases pass with
  | mergeRuns | mergeMetadata => cases found
  | pin => rw [subject?, (pin?_eq_some.mp found).1]
  | clean => rw [subject?, (clean?_eq_some.mp found).1]
  | addProtocol => rw [subject?, (addProtocol?_eq_some.mp found).1]
  | addToCopy => rw [subject?, (addToCopy?_eq_some.mp found).1]
  | dropSudo => rw [subject?, (dropSudo?_eq_some.mp found).1]
  | prependUpdate => rw [subject?, (prependUpdate?_eq_some.mp found).1]

/-- A replacement neither takes nor gives a keyword that the pass does not look for, COPY apart. -/
theorem keyword_ne_of_replacement? {pass : Pass} {x y : Instruction} {change : Change}
    {k : Keyword} (found : pass.replacement? x = some (y, change)) (other : pass.subject? ≠ some k)
    (ne : k ≠ .copy) : x.keyword ≠ k ∧ y.keyword ≠ k := by
  have hx : x.keyword ≠ k := by
    rintro rfl
    simp [replacement?_eq_none other] at found
  refine ⟨hx, ?_⟩
  rintro rfl
  exact hx (keyword_of_replacement? found ne)

/-- The lasting passes replace only FROM, EXPOSE and ADD. -/
theorem replacement?_eq_none_of_lasting {pass : Pass} (h : pass ∈ lasting) {x : Instruction}
    (hk : x.keyword ≠ .fromImage ∧ x.keyword ≠ .expose ∧ x.keyword ≠ .add) :
    pass.replacement? x = none := by
  apply replacement?_eq_none
  intro sub
  cases pass with
  | mergeRuns | mergeMetadata => cases sub
  | pin => exact hk.1 (Option.some.inj sub).symm
  | addProtocol => exact hk.2.1 (Option.some.inj sub).symm
  | addToCopy => exact hk.2.2 (Option.some.inj sub).symm
  | clean | dropSudo | prependUpdate => exact absurd h (by decide)

/-- A lasting pass has no replacement for what any pass writes. -/
theorem replacement?_of_rewrites {pass other : Pass} (h : pass ∈ lasting)
    {block : List Instruction} {y : Instruction} (rewritten : other.Rewrites block y)
    (settled : ∀ x ∈ block, pass.replacement? x = none) : pass.replacement? y = none := by
  cases rewritten with
  | keep => exact settled y List.mem_cons_self
  | merge hm _ => exact replacement?_eq_none_of_lasting h (keyword_of_merges hm)
  | @replace x _ change found =>
    cases other with
    | mergeRuns | mergeMetadata => cases found
    | clean =>
      obtain ⟨-, -, -, rfl, -⟩ := clean?_eq_some.mp found
      exact replacement?_eq_none_of_lasting h ⟨nofun, nofun, nofun⟩
    | addToCopy =>
      obtain ⟨-, rfl, -⟩ := addToCopy?_eq_some.mp found
      exact replacement?_eq_none_of_lasting h ⟨nofun, nofun, nofun⟩
    | dropSudo =>
      obtain ⟨-, -, rfl, -⟩ := dropSudo?_eq_some.mp found
      exact replacement?_eq_none_of_lasting h ⟨nofun, nofun, nofun⟩
    | prependUpdate =>
      obtain ⟨-, -, -, rfl, -⟩ := prependUpdate?_eq_some.mp found
      exact replacement?_eq_none_of_lasting h ⟨nofun, nofun, nofun⟩
    | pin =>
      -- A pinned FROM has a tag; no other pass looks at a FROM.
      have again := pin?_of_pin? found
      obtain ⟨-, -, rfl, -⟩ := pin?_eq_some.mp found
      by_cases own : pass = .pin
      · rw [own]
        exact again
      · apply replacement?_eq_none
        intro sub
        cases pass with
        | pin => exact own rfl
        | _ => cases sub
    | addProtocol =>
      have again := addProtocol?_of_addProtocol? found
      obtain ⟨-, -, rfl, -⟩ := addProtocol?_eq_some.mp found
      by_cases own : pass = .addProtocol
      · rw [own]
        exact again
      · apply replacement?_eq_none
        intro sub
        cases pass with
        | addProtocol => exact own rfl
        | _ => cases sub

/-- No pass makes work for a lasting one. -/
theorem Idle.apply {pass : Pass} (h : pass ∈ lasting) {xs : List Instruction}
    (idle : pass.Idle xs) (other : Pass) : pass.Idle (other.apply xs).instructions := by
  obtain ⟨settled, apart⟩ := idle_iff.mp idle
  refine idle_iff.mpr ⟨?_, fun k hk => apart_apply (merges_ne_copy hk) other (apart k hk)⟩
  exact forall_mem_apply (fun block y rewritten => replacement?_of_rewrites h rewritten) settled

theorem Idle.applyAll {pass : Pass} (h : pass ∈ lasting) {xs : List Instruction}
    (idle : pass.Idle xs) (passes : List Pass) : pass.Idle (applyAll xs passes).instructions := by
  induction passes generalizing xs with
  | nil => exact idle
  | cons other passes ih => exact ih (idle.apply h other)

/-- A run in which a lasting pass took part leaves nothing for it to do. -/
theorem idle_applyAll {pass : Pass} (h : pass ∈ lasting) {passes : List Pass}
    (took : pass ∈ passes) (xs : List Instruction) :
    pass.Idle (applyAll xs passes).instructions := by
  induction passes generalizing xs with
  | nil => simp at took
  | cons other passes ih =>
    rcases List.mem_cons.mp took with rfl | later
    · have ne : pass ≠ .dropSudo := by
        rintro rfl
        exact absurd h (by decide)
      exact (idle_apply ne xs).applyAll h passes
    · exact ih later _

/-- A lasting pass that is idle stays so through a run, and logs nothing in it. -/
theorem pass_ne_of_mem_changes {pass : Pass} (h : pass ∈ lasting) {xs : List Instruction}
    (idle : pass.Idle xs) {passes : List Pass} {change : Change}
    (logged : change ∈ (applyAll xs passes).changes) : change.pass ≠ pass := by
  induction passes generalizing xs with
  | nil => simp [applyAll] at logged
  | cons other passes ih =>
    rcases List.mem_append.mp logged with here | later
    · rintro rfl
      have own := pass_eq_of_mem_changes here
      rw [own, Idle] at idle
      simp [idle] at here
    · exact ih (idle.apply h other) later

end Pass

/-! ### Commands without `sudo` -/

/-- An instruction that does not run `sudo`. -/
def SudoFree (x : Instruction) : Prop :=
  x.keyword = .run → mentions x.value "sudo" = false

instance (x : Instruction) : Decidable (SudoFree x) :=
  inferInstanceAs (Decidable (_ → _))

theorem mentions_strip {s phrase : String} (ne : phrase.toList ≠ [])
    (ends : Trimmed phrase.toList) : mentions (strip s) phrase = mentions s phrase := by
  rw [Bool.eq_iff_iff, mentions_iff, mentions_iff, toList_strip, infix_trim ne ends]

theorem trimmed_sudo : Trimmed "sudo".toList := by
  decide

theorem mentions_strip_sudo (s : String) : mentions (strip s) "sudo" = mentions s "sudo" :=
  mentions_strip (by simp) trimmed_sudo

theorem mentions_sudo_joined {separator : String} (ne : separator.toList ≠ [])
    (disjoint : ∀ c ∈ separator.toList, c ∉ "sudo".toList) {block : List Instruction}
    (h : ∀ x ∈ block, mentions x.value "sudo" = false) :
    mentions (joined separator block) "sudo" = false := by
  rw [Bool.eq_false_iff, Ne, mentions_iff, joined, String.toList_intercalate]
  intro found
  obtain ⟨l, hl, inside⟩ :=
    exists_infix_of_infix_intercalate (by simp) ne disjoint found
  simp only [List.map_map, List.mem_map, Function.comp_apply] at hl
  obtain ⟨x, hx, rfl⟩ := hl
  have : mentions (strip x.value) "sudo" = true := mentions_iff.mpr inside
  rw [mentions_strip_sudo, h x hx] at this
  exact Bool.false_ne_true this

theorem dropSudo?_of_sudoFree {x : Instruction} (h : SudoFree x) : dropSudo? x = none := by
  rw [Option.eq_none_iff_forall_ne_some]
  rintro ⟨y, change⟩ found
  obtain ⟨hx, hsudo, -, -⟩ := dropSudo?_eq_some.mp found
  have inside : mentions x.value "sudo" = true := by
    rw [mentions_iff] at hsudo ⊢
    exact List.IsInfix.trans ⟨[], [' '], by simp⟩ hsudo
  rw [h hx] at inside
  exact Bool.false_ne_true inside

/-- No pass brings `sudo` into a command. -/
theorem sudoFree_of_rewrites {pass : Pass} {block : List Instruction} {y : Instruction}
    (rewritten : pass.Rewrites block y) (h : ∀ x ∈ block, SudoFree x) : SudoFree y := by
  intro hy
  cases rewritten with
  | keep => exact h y List.mem_cons_self hy
  | merge hm same =>
    have free := fun x hx => h x hx ((same x hx).trans hy)
    rw [write_value]
    cases pass with
    | mergeRuns => exact mentions_sudo_joined (by decide) (by simp [Pass.separator]) free
    | mergeMetadata => exact mentions_sudo_joined (by decide) (by simp [Pass.separator]) free
    | _ => cases hm
  | @replace x _ change found =>
    have free : x.keyword = .run → mentions x.value "sudo" = false := h x List.mem_cons_self
    cases pass with
    | mergeRuns | mergeMetadata => cases found
    | pin =>
      obtain ⟨-, -, rfl, -⟩ := pin?_eq_some.mp found
      cases hy
    | addProtocol =>
      obtain ⟨-, -, rfl, -⟩ := addProtocol?_eq_some.mp found
      cases hy
    | addToCopy =>
      obtain ⟨-, rfl, -⟩ := addToCopy?_eq_some.mp found
      cases hy
    | clean =>
      obtain ⟨hx, -, -, rfl, -⟩ := clean?_eq_some.mp found
      have stripped := (mentions_strip_sudo x.value).trans (free hx)
      rw [write_value]
      exact mentions_append_eq_false_left (c := 'o') stripped (by decide) (by decide)
    | dropSudo =>
      rw [Pass.replacement?, dropSudo?_of_sudoFree free] at found
      cases found
    | prependUpdate =>
      obtain ⟨hx, -, -, rfl, -⟩ := prependUpdate?_eq_some.mp found
      have stripped := (mentions_strip_sudo x.value).trans (free hx)
      rw [write_value]
      exact mentions_append_eq_false_right (c := 's') stripped (by decide) (by decide)

theorem trimmed_removal : Trimmed "rm -rf /var/lib/apt/lists".toList := by
  decide

/-- Without `sudo`, what has been cleaned up stays so in every pass that merges no RUNs. -/
theorem clean?_of_rewrites {pass : Pass} (ne : pass ≠ .mergeRuns) {block : List Instruction}
    {y : Instruction} (rewritten : pass.Rewrites block y)
    (h : ∀ x ∈ block, clean? x = none ∧ SudoFree x) : clean? y = none := by
  rw [Option.eq_none_iff_forall_ne_some]
  rintro ⟨z, logged⟩ found
  obtain ⟨hy, -, dirty, -, -⟩ := clean?_eq_some.mp found
  cases rewritten with
  | keep => simp [(h y List.mem_cons_self).1] at found
  | merge hm _ =>
    have hrun : pass.merges .run = true := hy ▸ hm
    cases pass with
    | mergeRuns => exact ne rfl
    | _ => cases hrun
  | @replace x _ change replaced =>
    obtain ⟨cleaned, free⟩ := h x List.mem_cons_self
    have hx : x.keyword = .run :=
      (Pass.keyword_of_replacement? replaced (by rw [hy]; nofun)).trans hy
    cases pass with
    | mergeRuns | mergeMetadata => cases replaced
    | pin => cases hx.symm.trans (pin?_eq_some.mp replaced).1
    | clean => cases cleaned.symm.trans replaced
    | addProtocol => cases hx.symm.trans (addProtocol?_eq_some.mp replaced).1
    | addToCopy => cases hx.symm.trans (addToCopy?_eq_some.mp replaced).1
    | dropSudo => cases (dropSudo?_of_sudoFree free).symm.trans replaced
    | prependUpdate =>
      obtain ⟨-, install, -, rfl, -⟩ := prependUpdate?_eq_some.mp replaced
      -- The installation was cleaned up after, and trimming keeps that.
      have removal : mentions x.value "rm -rf /var/lib/apt/lists" = true := by
        by_contra missing
        rw [Bool.not_eq_true] at missing
        exact absurd (clean?_eq_some.mpr ⟨hx, install, missing, rfl, rfl⟩) (by simp [cleaned])
      rw [← mentions_strip (by simp) trimmed_removal] at removal
      rw [write_value, mentions_append_right removal] at dirty
      cases dirty

/-! ### The result of the pipeline -/

theorem sudoFree_optimize {xs : List Instruction} (h : ∀ x ∈ xs, SudoFree x) :
    ∀ y ∈ (optimize xs).instructions, SudoFree y :=
  Pass.forall_mem_applyAll Pass.all (fun _ _ _ _ rewritten => sudoFree_of_rewrites rewritten) h

theorem idle_optimize {pass : Pass} (h : pass ∈ Pass.lasting) (xs : List Instruction) :
    pass.Idle (optimize xs).instructions :=
  Pass.idle_applyAll h (by cases pass <;> decide) xs

theorem idle_prependUpdate_optimize (xs : List Instruction) :
    Pass.prependUpdate.Idle (optimize xs).instructions := by
  have last : Pass.all = [Pass.mergeRuns, .pin, .clean, .addProtocol, .addToCopy, .mergeMetadata,
    .dropSudo] ++ [.prependUpdate] := rfl
  rw [optimize, last, Pass.applyAll_append, Pass.applyAll_singleton]
  exact Pass.idle_apply (by decide) _

theorem idle_clean_optimize {xs : List Instruction} (h : ∀ x ∈ xs, SudoFree x) :
    Pass.clean.Idle (optimize xs).instructions := by
  have parts : Pass.all = [Pass.mergeRuns, .pin] ++ ([Pass.clean] ++ [Pass.addProtocol, .addToCopy,
    .mergeMetadata, .dropSudo, .prependUpdate]) := rfl
  rw [optimize, parts, Pass.applyAll_append, Pass.applyAll_append, Pass.applyAll_singleton]
  have free := Pass.forall_mem_applyAll [.mergeRuns, .pin]
    (fun _ _ _ _ rewritten => sudoFree_of_rewrites rewritten) h
  generalize (Pass.applyAll xs [.mergeRuns, .pin]).instructions = before at free
  have both : ∀ x ∈ (Pass.clean.apply before).instructions, clean? x = none ∧ SudoFree x :=
    fun x hx => ⟨(Pass.idle_iff.mp (Pass.idle_apply (by decide) before)).1 x hx,
      Pass.forall_mem_apply (fun _ _ rewritten => sudoFree_of_rewrites rewritten) free x hx⟩
  refine Pass.idle_iff.mpr ⟨fun y hy => ?_, fun k hk => absurd hk (by simp [Pass.merges])⟩
  refine (Pass.forall_mem_applyAll _ ?_ both y hy).1
  intro pass hp block z rewritten kept
  refine ⟨clean?_of_rewrites ?_ rewritten kept,
    sudoFree_of_rewrites rewritten fun x hx => (kept x hx).2⟩
  rintro rfl
  exact absurd hp (by decide)

/-- The normal form: on what the pipeline leaves, the rules on consecutive RUNs, ports, ADD and
stale package lists find nothing, every FROM has a tag, and settings of one kind never stand next to
each other. If no RUN mentioned `sudo`, the rule on package lists left behind finds nothing
either. -/
theorem optimize_normalForm (registry : Registry) (xs : List Instruction) :
    (∀ rule ∈ [Rule.consecutiveRuns, .portWithoutProtocol, .addUsed, .installWithoutUpdate],
      rule.check registry (optimize xs).instructions = .ok []) ∧
    (∀ y ∈ (optimize xs).instructions, y.keyword = .fromImage → y.tag ≠ none) ∧
    (∀ k ∈ [Keyword.env, .label, .arg], Apart k (optimize xs).instructions) ∧
    ((∀ x ∈ xs, x.keyword = .run → mentions x.value "sudo" = false) →
      Rule.uncleanedInstall.check registry (optimize xs).instructions = .ok []) := by
  refine ⟨?_, ?_, ?_, ?_⟩
  · intro rule hrule
    simp only [List.mem_cons, List.not_mem_nil, or_false] at hrule
    rcases hrule with rfl | rfl | rfl | rfl
    · exact sameLines_mergeRuns.check_of_idle (idle_optimize (by decide) xs) registry
    · exact sameLines_addProtocol.check_of_idle (idle_optimize (by decide) xs) registry
    · exact sameLines_addToCopy.check_of_idle (idle_optimize (by decide) xs) registry
    · exact sameLines_prependUpdate.check_of_idle (idle_prependUpdate_optimize xs) registry
  · intro y hy hfrom htag
    have idle : Pass.pin.Idle (optimize xs).instructions := idle_optimize (by decide) xs
    have settled : pin? y = none := (Pass.idle_iff.mp idle).1 y hy
    exact absurd (pin?_eq_some.mpr ⟨hfrom, htag, rfl, rfl⟩) (by simp [settled])
  · intro k hk
    have idle : Pass.mergeMetadata.Idle (optimize xs).instructions := idle_optimize (by decide) xs
    refine (Pass.idle_iff.mp idle).2 k ?_
    simp only [List.mem_cons, List.not_mem_nil, or_false] at hk
    rcases hk with rfl | rfl | rfl <;> rfl
  · intro free
    exact sameLines_clean.check_of_idle (idle_clean_optimize free) registry

/-- An installation after another command, which the pipeline merges, cleans up and updates. -/
theorem optimize_normalForm_install :
    let xs : List Instruction := [.write 1 .run "a", .write 2 .run "apt-get install b"]
    (∀ x ∈ xs, x.keyword = .run → mentions x.value "sudo" = false) ∧
      (optimize xs).changes = [.mergedRuns 2 1, .cleaned 1, .updatePrepended 1] ∧
      Rule.uncleanedInstall.check (fun _ => none) (optimize xs).instructions = .ok [] :=
  ⟨by decide +kernel, by decide +kernel, (optimize_normalForm _ _).2.2.2 (by decide +kernel)⟩

/-- Optimizing twice: if no RUN mentions `sudo`, the second time changes and logs nothing; in any
case it logs nothing of the lasting passes. -/
theorem optimize_optimize (xs : List Instruction) :
    ((∀ x ∈ xs, x.keyword = .run → mentions x.value "sudo" = false) →
      optimize (optimize xs).instructions = ⟨(optimize xs).instructions, []⟩) ∧
    ∀ change ∈ (optimize (optimize xs).instructions).changes,
      change.pass ∉ [Pass.mergeRuns, .pin, .addProtocol, .addToCopy, .mergeMetadata] := by
  constructor
  · intro free
    apply Pass.applyAll_of_idle
    intro pass _
    by_cases hlasting : pass ∈ Pass.lasting
    · exact idle_optimize hlasting xs
    · cases pass with
      | clean => exact idle_clean_optimize free
      | prependUpdate => exact idle_prependUpdate_optimize xs
      | dropSudo =>
        refine Pass.idle_iff.mpr ⟨fun y hy => ?_, fun k hk => absurd hk (by simp [Pass.merges])⟩
        exact dropSudo?_of_sudoFree (sudoFree_optimize free y hy)
      | _ => exact absurd (by decide) hlasting
  · intro change logged lasting
    exact Pass.pass_ne_of_mem_changes lasting (idle_optimize lasting xs) logged rfl

theorem optimize_optimize_install :
    let xs : List Instruction := [.write 1 .fromImage "a", .write 2 .run "b",
      .write 3 .run "apt-get install c", .write 4 .env "D=1", .write 5 .env "E=2",
      .write 6 .add "f g", .write 7 .expose "80"]
    (∀ x ∈ xs, x.keyword = .run → mentions x.value "sudo" = false) ∧
      (optimize xs).changes.map Change.pass = [.mergeRuns, .pin, .clean, .addProtocol, .addToCopy,
        .mergeMetadata, .prependUpdate] ∧
      optimize (optimize xs).instructions = ⟨(optimize xs).instructions, []⟩ :=
  ⟨by decide +kernel, by decide +kernel, (optimize_optimize _).1 (by decide +kernel)⟩

/-- The first run may uncover an installation that only the second one cleans up after. -/
example : (optimize (optimize [.write 1 .run "apt-get sudo install a"]).instructions).changes
    = [.cleaned 1] := by
  decide +kernel

end Dockerfile
