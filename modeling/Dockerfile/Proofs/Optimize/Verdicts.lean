import Dockerfile.Proofs.Optimize.Partition
import Dockerfile.Proofs.Optimize.Pinning
import Dockerfile.Proofs.Optimize.Remedy
import Dockerfile.Proofs.Rule.Analysis

/-!
The verdicts of the rules, before and after optimizing.

A rule sees of a list only some instructions and only some of their parts. Where the pipeline keeps
that view, the rule has the same to say about both lists:

* instructions with a keyword that no pass rewrites stay as they are (`filter_optimize`), EXPOSEs
  keep their lines, and COPYs and ADDs their lines and values, though an ADD becomes a COPY
  (`Pass.keeps_copies`);
* a keyword stays present or absent (`any_keyword_optimize`);
* where the FROMs are in the plain form, stages keep their names (`stageNames_optimize`).

So optimizing adds no error. Of the three rules whose breach is one, two have nothing to say about
an optimized list at all: it installs nothing without an update, and no FROM of it names the empty
image.
-/

namespace Dockerfile

open Text Rule Optimize

variable {x y : Instruction}

/-! ### What the pipeline keeps -/

namespace Pass

variable {α : Type} {p : Instruction → Bool} {view : Instruction → α}

theorem spares_of_notMem {k : Keyword} (h : k ∉ rewritable) (pass : Pass) : pass.Spares k := by
  have subjects : ∀ k ∈ pass.subject?, k ∈ rewritable := by cases pass <;> decide
  refine ⟨?_, fun subject => h (subjects k subject)⟩
  rw [Bool.eq_false_iff]
  intro merges
  exact h (joinable_subset_rewritable k (mem_joinable_of_merges merges))

/-- A replacement of a COPY or an ADD is one of them too, with the same line and value. -/
theorem copy_of_replacement? {pass : Pass} {change : Change}
    (h : pass.replacement? x = some (y, change)) :
    isCopy y = isCopy x ∧ (isCopy x = true → y.line = x.line ∧ y.value = x.value) := by
  by_cases add : pass = .addToCopy
  · subst add
    obtain ⟨hk, rfl, -⟩ := addToCopy?_eq_some.mp h
    exact ⟨by simp [isCopy, hk], fun _ => ⟨rfl, rfl⟩⟩
  · have other : pass.subject? ≠ some .add := by
      cases pass with
      | addToCopy => exact absurd rfl add
      | _ => decide
    have hx : x.keyword ≠ .add := (keyword_ne_of_replacement? h other (by decide)).1
    obtain ⟨-, -, rewritten, keyword⟩ := written_of_replacement? h
    have notCopy : x.keyword ≠ .copy := by
      intro copy
      rw [copy] at rewritten
      exact absurd rewritten (by decide)
    have hy : y.keyword = x.keyword := keyword.resolve_right fun both => hx both.1
    simp [isCopy, hy, hx, notCopy]

/-- A pass keeps every view of COPYs and ADDs that shows line and value only. -/
theorem keeps_copies (pass : Pass) (copies : ∀ x, p x = true → isCopy x = true)
    (seen : ∀ x y, isCopy x = true → isCopy y = true → y.line = x.line → y.value = x.value →
      p y = p x ∧ view y = view x) : pass.Keeps p view := by
  refine .of_replacement? (fun x y change found => ?_) (fun x merges => ?_)
  · obtain ⟨same, shown⟩ := copy_of_replacement? found
    by_cases hx : isCopy x = true
    · obtain ⟨line, value⟩ := shown hx
      obtain ⟨hp, hview⟩ := seen x y hx (same.trans hx) line value
      exact ⟨hp, fun _ => hview⟩
    · have px : ¬ p x = true := fun px => hx (copies x px)
      have py : ¬ p y = true := fun py => hx (same.symm.trans (copies y py))
      simp [px, py]
  · rw [Bool.eq_false_iff]
    intro hx
    have copy := copies x hx
    simp only [isCopy, Bool.or_eq_true, beq_iff_eq] at copy
    have joinable := mem_joinable_of_merges merges
    rcases copy with copy | add
    · rw [copy] at joinable
      exact absurd joinable (by decide)
    · rw [add] at joinable
      exact absurd joinable (by decide)

theorem keeps_ports (pass : Pass) : pass.Keeps (·.keyword == .expose) Instruction.line := by
  refine .of_replacement? (fun x y change found => ?_) (fun x merges => ?_)
  · obtain ⟨line, -, -, keyword⟩ := written_of_replacement? found
    refine ⟨?_, fun _ => line⟩
    rcases keyword with same | ⟨add, copy⟩
    · rw [same]
    · rw [add, copy]
      rfl
  · have joinable := mem_joinable_of_merges merges
    rw [beq_eq_false_iff_ne]
    intro expose
    rw [expose] at joinable
    exact absurd joinable (by decide)

end Pass

/-- Instructions with a keyword that no pass rewrites stay as they are. -/
theorem filter_optimize {p : Instruction → Bool}
    (h : ∀ x, p x = true → x.keyword ∉ rewritable ∧ x.keyword ≠ .copy) (xs : List Instruction) :
    (optimize xs).instructions.filter p = xs.filter p :=
  Pass.filter_applyAll
    (fun pass _ x hx => ⟨Pass.spares_of_notMem (h x hx).1 pass, (h x hx).2⟩) xs

/-- No keyword gets lost and none is added, but for the ADDs that become COPYs. -/
theorem any_keyword_optimize {k : Keyword} (copy : k ≠ .copy) (add : k ≠ .add)
    (xs : List Instruction) :
    (optimize xs).instructions.any (·.keyword == k) = xs.any (·.keyword == k) := by
  obtain ⟨pieces, rfl, made⟩ := Pass.exists_pieces_applyAll gathers_standsFor Pass.all
    (fun _ _ _ _ rewritten => rewritten.standsFor) xs
  rw [Bool.eq_iff_iff, List.any_eq_true, List.any_eq_true]
  simp only [beq_iff_eq]
  constructor
  · rintro ⟨y, hy, rfl⟩
    obtain ⟨piece, hpiece, here⟩ := exists_of_mem_right made hy
    have hx := List.head_mem here.ne_nil
    refine ⟨_, List.mem_flatten_of_mem hpiece hx, ?_⟩
    rcases here.keyword_of_mem hx with same | ⟨-, hcopy⟩
    · exact same.symm
    · exact absurd hcopy copy
  · rintro ⟨x, hx, rfl⟩
    obtain ⟨piece, -, y, hy, here, hx⟩ := exists_of_mem_flatten made hx
    refine ⟨y, hy, ?_⟩
    rcases here.keyword_of_mem hx with same | ⟨hadd, -⟩
    · exact same
    · exact absurd hadd add

/-! ### Names of stages -/

theorem upper_of_isMarker {m : List Char} (h : BaseImage.IsMarker m) :
    upper (String.ofList m) = "AS" := by
  obtain ⟨a, s, rfl, hmarker⟩ := h
  simp only [BaseImage.isWordAs, Bool.and_eq_true, Bool.or_eq_true, beq_iff_eq] at hmarker
  obtain ⟨ha, hs⟩ := hmarker
  rcases ha with rfl | rfl <;> rcases hs with (rfl | rfl) | rfl <;> decide

theorem stageName?_of_stageWords {value : String} {image : List Char} {rest : List (List Char)}
    {stage : Option String} (hwords : wordsOf value.toList = image :: rest)
    (hrest : BaseImage.StageWords stage rest) : stageName? value = stage := by
  rw [stageName?, words, hwords]
  cases hrest with
  | absent => rfl
  | named s marker => simp [upper_of_isMarker marker]

theorem stageName?_pinned {content : String} (h : x ∈ froms (parse content))
    (known : x.image ≠ none) : stageName? (pinned x).value = stageName? x.value := by
  by_cases tagged : x.tag = none
  · obtain ⟨image, rest, rest', hwords, hwords', hrest, hrest'⟩ :=
      exists_words_pinned h known tagged
    rw [stageName?_of_stageWords hwords hrest, stageName?_of_stageWords hwords' hrest']
  · rw [pinned_of_tag tagged]

theorem stageNames_optimize {content : String}
    (bases : ∀ x ∈ froms (parse content), x.image ≠ none) :
    stageNames (optimize (parse content)).instructions = stageNames (parse content) := by
  change (froms _).filterMap _ = (froms _).filterMap _
  rw [froms_optimize, List.filterMap_map]
  exact List.filterMap_congr fun x hx => stageName?_pinned hx (bases x hx)

/-! ### The same verdict -/

theorem checkMissingHealthcheck_optimize (xs : List Instruction) :
    checkMissingHealthcheck (optimize xs).instructions = checkMissingHealthcheck xs := by
  have ports : ((optimize xs).instructions.find? (·.keyword == .expose)).map Instruction.line
      = (xs.find? (·.keyword == .expose)).map Instruction.line := by
    rw [← List.head?_filter, ← List.head?_filter, ← List.head?_map, ← List.head?_map, optimize,
      Pass.map_filter_applyAll (fun pass _ => pass.keeps_ports)]
  rw [checkMissingHealthcheck, checkMissingHealthcheck,
    any_keyword_optimize (by decide) (by decide)]
  cases hx : xs.find? (·.keyword == .expose) with
  | none =>
    rw [hx, Option.map_none, Option.map_eq_none_iff] at ports
    rw [ports]
  | some x =>
    rw [hx] at ports
    obtain ⟨y, hy, line⟩ := Option.map_eq_some_iff.mp ports
    rw [hy]
    simp only [line]

theorem checkMissingLabel_optimize (xs : List Instruction) :
    checkMissingLabel (optimize xs).instructions = checkMissingLabel xs := by
  rw [checkMissingLabel, checkMissingLabel, any_keyword_optimize (by decide) (by decide)]

theorem checkShellForm_optimize (xs : List Instruction) :
    checkShellForm (optimize xs).instructions = checkShellForm xs := by
  rw [checkShellForm, checkShellForm, filter_optimize]
  intro x hx
  simp only [isShellForm, Bool.and_eq_true, Bool.or_eq_true, beq_iff_eq] at hx
  rcases hx.1 with hk | hk <;> simp [hk, rewritable]

theorem checkRelativeWorkdir_optimize (xs : List Instruction) :
    checkRelativeWorkdir (optimize xs).instructions = checkRelativeWorkdir xs := by
  rw [checkRelativeWorkdir, checkRelativeWorkdir, filter_optimize]
  intro x hx
  simp only [Bool.and_eq_true, beq_iff_eq] at hx
  simp [hx.1.1, rewritable]

theorem checkUnknownStage_optimize {content : String}
    (bases : ∀ x ∈ froms (parse content), x.image ≠ none) :
    checkUnknownStage (optimize (parse content)).instructions
      = checkUnknownStage (parse content) := by
  rw [checkUnknownStage, checkUnknownStage, stageNames_optimize bases]
  have copies : ((optimize (parse content)).instructions.filter isCopy).map
        (fun x => (x.line, x.value))
      = ((parse content).filter isCopy).map (fun x => (x.line, x.value)) := by
    refine Pass.map_filter_applyAll (fun pass _ => pass.keeps_copies (fun _ copy => copy) ?_) _
    intro x y hx hy line value
    rw [hx, hy, line, value]
    exact ⟨rfl, rfl⟩
  refine congrArg _ (mapM_eq_of_map_eq copies fun x y same => ?_)
  obtain ⟨line, value⟩ := Prod.mk.inj same
  rw [unknownStageFinding, unknownStageFinding, line, value]

theorem lastUser?_optimize (xs : List Instruction) :
    lastUser? (optimize xs).instructions = lastUser? xs := by
  rw [lastUser?, lastUser?, filter_optimize]
  intro x hx
  simp [beq_iff_eq.mp hx, rewritable]

theorem lines_checkCopyWithoutOwner_optimize (xs : List Instruction) :
    (checkCopyWithoutOwner (optimize xs).instructions).map Finding.line
      = (checkCopyWithoutOwner xs).map Finding.line := by
  rw [checkCopyWithoutOwner, checkCopyWithoutOwner, lastUser?_optimize]
  cases lastUser? xs with
  | none => rfl
  | some switch =>
    dsimp only
    split
    · rfl
    · rw [List.map_map, List.map_map]
      -- The texts of a finding name the keyword, but its line is that of the instruction.
      refine Pass.map_filter_applyAll (fun pass _ => pass.keeps_copies (fun x hx => ?_) ?_) _
      · simp only [Bool.and_eq_true] at hx
        exact hx.1.2
      · intro x y hx hy line value
        rw [hx, hy, line, value]
        exact ⟨rfl, line⟩

/-! ### No new errors -/

/-- Pinned, a FROM has a tag in its value, whatever its form. -/
theorem colon_mem_pinned {content : String} (h : x ∈ froms (parse content)) :
    ':' ∈ (pinned x).value.toList := by
  by_cases tagged : x.tag = none
  · rw [pinned_of_untagged (keyword_of_mem_froms h) tagged]
    change ':' ∈ (pinnedValue x).toList
    rw [pinnedValue]
    split
    · simp
    · split <;> simp
  · rw [pinned_of_tag tagged]
    obtain ⟨-, htag, -, -⟩ := base_of_mem_parse h
    cases hbase : BaseImage.ofValue? x.value with
    | none =>
      rw [hbase] at htag
      exact absurd htag tagged
    | some base =>
      rw [htag, hbase] at tagged
      exact BaseImage.colon_mem_of_tag hbase tagged

theorem lower_strip_ne_scratch {value : String} (h : ':' ∈ value.toList) :
    lower (strip value) ≠ "scratch" := by
  intro scratch
  have kept : ':' ∈ (lower (strip value)).toList := by
    rw [lower, toList_strip, String.toList_ofList, List.mem_flatMap]
    exact ⟨':', mem_trim h (by decide), by decide⟩
  rw [scratch] at kept
  exact absurd kept (by decide)

/-- Pinned, no FROM names the empty image. -/
theorem checkRunInScratch_optimize (content : String) :
    checkRunInScratch (optimize (parse content)).instructions = [] := by
  have none : runInScratch? (optimize (parse content)).instructions = none := by
    rw [runInScratch?, ← List.head?_filter, ← froms, froms_optimize, List.head?_map]
    cases hx : (froms (parse content)).head? with
    | none => rfl
    | some x =>
      have other := lower_strip_ne_scratch (colon_mem_pinned (List.mem_of_mem_head? hx))
      rw [Option.map_some, Option.bind_eq_bind, Option.bind_some, if_neg other]
  rw [checkRunInScratch, none]
  rfl

theorem mem_analyze_of_error {content : String}
    (bases : ∀ x ∈ froms (parse content), x.image ≠ none) {registry : Registry}
    {before after : List Finding} (hbefore : analyze registry (parse content) = .ok before)
    (hafter : analyze registry (optimize (parse content)).instructions = .ok after) {f : Finding}
    (hf : f ∈ after) (error : f.severity = "error") : f ∈ before := by
  obtain ⟨part, checked, hpart⟩ := (mem_analyze_iff hafter).mp hf
  refine (mem_analyze_iff hbefore).mpr ⟨part, ?_, hpart⟩
  have grave := (reports_of_mem_check checked hpart).severity
  rcases severity_eq_error_iff.mp (grave.symm.trans error) with hrule | hrule | hrule
  · rw [hrule, Rule.check, Except.ok.injEq, checkRunInScratch_optimize] at checked
    rw [← checked] at hpart
    cases hpart
  · rw [hrule, Rule.check, checkUnknownStage_optimize bases] at checked
    rw [hrule, Rule.check, checked]
  · rw [hrule, sameLines_prependUpdate.check_of_idle (idle_prependUpdate_optimize _),
      Except.ok.injEq] at checked
    rw [← checked] at hpart
    cases hpart

/-! ### All verdicts -/

/-- The rules that have the same to say about a list and the optimized one. -/
def untargeted : List Rule :=
  [.missingHealthcheck, .missingLabel, .unknownStage, .shellForm, .relativeWorkdir]

/-- Optimizing leaves alone the verdicts it does not aim at. Where all FROMs are in the plain form,
the untargeted rules come to the same result, be it findings or a fault, copies without an owner are
found at the same lines, and every error that is found afterwards was found before. -/
theorem verdicts_optimize (content : String)
    (bases : ∀ x ∈ froms (parse content), x.image ≠ none) (registry : Registry) :
    let xs := parse content
    let ys := (optimize xs).instructions
    (∀ rule ∈ untargeted, rule.check registry ys = rule.check registry xs) ∧
      (∃ found found', Rule.copyWithoutOwner.check registry xs = .ok found ∧
        Rule.copyWithoutOwner.check registry ys = .ok found' ∧
        found'.map Finding.line = found.map Finding.line) ∧
      ∀ before after, analyze registry xs = .ok before → analyze registry ys = .ok after →
        ∀ f ∈ after, f.severity = "error" → f ∈ before := by
  intro xs ys
  refine ⟨?_, ⟨_, _, rfl, rfl, lines_checkCopyWithoutOwner_optimize xs⟩, ?_⟩
  · intro rule hrule
    simp only [untargeted, List.mem_cons, List.not_mem_nil, or_false] at hrule
    rcases hrule with rfl | rfl | rfl | rfl | rfl
    · exact congrArg Except.ok (checkMissingHealthcheck_optimize xs)
    · exact congrArg Except.ok (checkMissingLabel_optimize xs)
    · exact checkUnknownStage_optimize bases
    · exact checkShellForm_optimize xs
    · exact congrArg Except.ok (checkRelativeWorkdir_optimize xs)
  · intro before after hbefore hafter f hf error
    exact mem_analyze_of_error bases hbefore hafter hf error

/-- A FROM that is pinned, an ADD that becomes a COPY and an installation that is mended: of the two
errors, the one about a stage that does not exist is left. -/
theorem verdicts_optimize_stages :
    let xs := parse
      "FROM go AS b\nRUN apt-get install git\nUSER u\nADD --from=b x y\nCOPY --from=c x y"
    let ys := (optimize xs).instructions
    let errors (found : List Finding) := (found.filter (·.severity == "error")).map Finding.line
    (∀ x ∈ froms xs, x.image ≠ none) ∧
      (∀ rule ∈ untargeted, rule.check (fun _ => none) ys = rule.check (fun _ => none) xs) ∧
      ∃ before after, analyze (fun _ => none) xs = .ok before ∧
        analyze (fun _ => none) ys = .ok after ∧ errors before = [5, 2] ∧ errors after = [5] ∧
        ∀ f ∈ after, f.severity = "error" → f ∈ before := by
  intro xs ys errors
  have facts : (∀ x ∈ froms xs, x.image ≠ none) ∧
      (analyze (fun _ => none) xs).map errors = .ok [5, 2] ∧
      (analyze (fun _ => none) ys).map errors = .ok [5] := by
    decide +kernel
  obtain ⟨bases, hbefore, hafter⟩ := facts
  obtain ⟨before, foundBefore, errorsBefore⟩ := map_eq_ok_iff.mp hbefore
  obtain ⟨after, foundAfter, errorsAfter⟩ := map_eq_ok_iff.mp hafter
  obtain ⟨same, -, kept⟩ := verdicts_optimize _ bases (fun _ => none)
  exact ⟨bases, same, before, after, foundBefore, foundAfter, errorsBefore, errorsAfter,
    kept before after foundBefore foundAfter⟩

end Dockerfile
