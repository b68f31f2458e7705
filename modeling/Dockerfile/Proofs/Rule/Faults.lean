import Dockerfile.Instruction
import Dockerfile.Proofs.Rule.Scope
import Dockerfile.Proofs.Text.Words

/-!
Which Dockerfiles end an analysis in a fault.

Two rules take the first word of a text that may have none: the rule on commands, of the value of a
CMD or an ENTRYPOINT (`LacksProgram`), and the rule on secrets, of what an ENV has before its equals
sign (`LacksVariable`). Each of them ends in a fault at the first instruction of that sort
(`checkShellForm_eq_error_iff`, `checkSecretInEnv_eq_error_iff`). The rule on stages takes what
follows the equals sign of a flag, and every flag that it takes has one
(`checkUnknownStage_ne_error`). No other rule ends in a fault, as long as the registry does not
answer, and the analysis ends in the fault of the first rule that has one (`analyze_eq_error_iff`).
-/

namespace Dockerfile

open Text

/-! ### Texts without a word -/

/-- Every character of the text is blank. -/
def Text.Blank (s : String) : Prop :=
  ∀ c ∈ s.toList, isBlank c = true

instance (s : String) : Decidable (Blank s) :=
  List.decidableBAll _ s.toList

theorem head?_words_eq_none_iff {s : String} : (words s).head? = none ↔ Blank s := by
  rw [List.head?_eq_none_iff, words, List.map_eq_nil_iff, wordsOf_eq_nil_iff, Blank]

theorem strip_of_blank {s : String} (h : Blank s) : strip s = "" := by
  rw [strip, trim_eq_nil_iff.mpr h, String.ofList_nil]

/-- A registry that does not answer, whatever it is asked for. -/
def Registry.unreachable : Registry :=
  fun _ => none

/-! ### Instructions without the word that a rule looks for -/

namespace Rule

/-- A command without a program. -/
def LacksProgram (x : Instruction) : Prop :=
  (x.keyword = .cmd ∨ x.keyword = .entrypoint) ∧ Blank x.value

/-- An ENV without a variable. -/
def LacksVariable (x : Instruction) : Prop :=
  x.keyword = .env ∧ Blank (before '=' x.value)

instance : DecidablePred LacksProgram :=
  fun x => inferInstanceAs (Decidable ((x.keyword = .cmd ∨ x.keyword = .entrypoint) ∧ _))

instance : DecidablePred LacksVariable :=
  fun x => inferInstanceAs (Decidable (x.keyword = .env ∧ _))

variable {x : Instruction} {xs : List Instruction} {fault : Fault}

theorem shellFormFinding_eq_error_iff :
    shellFormFinding x = .error fault ↔ Blank x.value ∧ fault = .noProgram x.line := by
  rw [← head?_words_eq_none_iff, shellFormFinding]
  cases (words x.value).head? with
  | none => simp [eq_comm]
  | some program => simp

theorem secretFinding_eq_error_iff :
    secretFinding x = .error fault ↔ Blank (before '=' x.value) ∧ fault = .noVariable x.line := by
  rw [← head?_words_eq_none_iff, ← envKey?, secretFinding]
  cases envKey? x.value with
  | none => simp [eq_comm]
  | some key => simp

theorem lacksProgram_iff :
    LacksProgram x ↔ isShellForm x = true ∧ ∃ fault, shellFormFinding x = .error fault := by
  simp only [shellFormFinding_eq_error_iff, exists_and_left, exists_eq, and_true]
  unfold LacksProgram isShellForm
  constructor
  · rintro ⟨command, blank⟩
    refine ⟨?_, blank⟩
    -- a blank value does not start with a bracket, so the rule does look at it
    rw [strip_of_blank blank]
    rcases command with hk | hk <;> rw [hk] <;> rfl
  · rintro ⟨shell, blank⟩
    rw [Bool.and_eq_true, Bool.or_eq_true, beq_iff_eq, beq_iff_eq] at shell
    exact ⟨shell.1, blank⟩

theorem lacksVariable_iff :
    LacksVariable x ↔ (x.keyword == .env) = true ∧ ∃ fault, secretFinding x = .error fault := by
  simp only [secretFinding_eq_error_iff, exists_and_left, exists_eq, and_true, beq_iff_eq]
  rfl

/-! ### Rules that end in a fault -/

/-- Going through chosen members of a list ends in the fault of the first that has one. -/
theorem mapM_filter_eq_error_iff {β : Type} {p : Instruction → Bool} {q : Instruction → Prop}
    [DecidablePred q] {f : Instruction → Except Fault β}
    (h : ∀ x, q x ↔ p x = true ∧ ∃ fault, f x = .error fault) :
    (xs.filter p).mapM f = .error fault ↔ ∃ x, xs.find? q = some x ∧ f x = .error fault := by
  have same : (fun x => decide (p x = true ∧ (!(f x).isOk) = true)) = fun x => decide (q x) := by
    funext x
    rw [decide_eq_decide, h, not_isOk_iff]
  rw [mapM_eq_error_iff, List.find?_filter, same]

/-- What ends in a fault at the first member of some sort ends in one if there is such a member. -/
theorem exists_error_iff {β : Type} {q : Instruction → Prop} [DecidablePred q]
    {result : Except Fault β} {raised : Instruction → Fault}
    (h : ∀ fault, result = .error fault ↔ ∃ x, xs.find? q = some x ∧ fault = raised x) :
    (∃ fault, result = .error fault) ↔ ∃ x ∈ xs, q x := by
  simp only [h]
  rw [exists_comm]
  simp only [exists_and_left, exists_eq, and_true, exists_find?_iff, decide_eq_true_eq]

/-- The rule on commands ends in a fault at the first command without a program. -/
theorem checkShellForm_eq_error_iff :
    checkShellForm xs = .error fault ↔
      ∃ x, xs.find? LacksProgram = some x ∧ fault = .noProgram x.line := by
  unfold checkShellForm
  rw [mapM_filter_eq_error_iff fun x => lacksProgram_iff]
  refine exists_congr fun x => and_congr_right fun found => ?_
  have lacks : LacksProgram x := by simpa using List.find?_some found
  rw [shellFormFinding_eq_error_iff, and_iff_right lacks.2]

theorem exists_checkShellForm_error_iff :
    (∃ fault, checkShellForm xs = .error fault) ↔ ∃ x ∈ xs, LacksProgram x :=
  exists_error_iff fun _ => checkShellForm_eq_error_iff

/-- The rule on secrets ends in a fault at the first ENV without a variable. -/
theorem checkSecretInEnv_eq_error_iff :
    checkSecretInEnv xs = .error fault ↔
      ∃ x, xs.find? LacksVariable = some x ∧ fault = .noVariable x.line := by
  unfold checkSecretInEnv
  rw [map_eq_error_iff, mapM_filter_eq_error_iff fun x => lacksVariable_iff]
  refine exists_congr fun x => and_congr_right fun found => ?_
  have lacks : LacksVariable x := by simpa using List.find?_some found
  rw [secretFinding_eq_error_iff, and_iff_right lacks.2]

theorem exists_checkSecretInEnv_error_iff :
    (∃ fault, checkSecretInEnv xs = .error fault) ↔ ∃ x ∈ xs, LacksVariable x :=
  exists_error_iff fun _ => checkSecretInEnv_eq_error_iff

theorem checkUnknownStage_ne_error : checkUnknownStage xs ≠ .error fault := by
  obtain ⟨found, checked, -⟩ := reportsEach_checkUnknownStage xs
  simp [checked]

/-- A registry that does not answer has no faults. -/
theorem checkNewerTag_unreachable_ne_error : checkNewerTag .unreachable xs ≠ .error fault := by
  unfold checkNewerTag
  rw [Ne, map_eq_error_iff, mapM_eq_error_iff]
  rintro ⟨x, -, failed⟩
  rw [newerTagFinding] at failed
  split at failed
  · next found =>
    cases found
  · cases failed

/-- With such a registry only the two rules end in a fault. -/
theorem check_unreachable_eq_error_iff {rule : Rule} :
    rule.check .unreachable xs = .error fault ↔
      (rule = .shellForm ∧ checkShellForm xs = .error fault) ∨
        (rule = .secretInEnv ∧ checkSecretInEnv xs = .error fault) := by
  cases rule with
  | unknownStage => simp [check, checkUnknownStage_ne_error]
  | newerTag => simp [check, checkNewerTag_unreachable_ne_error]
  | _ => simp [check]

end Rule

/-! ### Analyses that end in a fault -/

open Rule

variable {registry : Registry} {xs : List Instruction} {fault : Fault}

/-- An analysis ends in the fault of the first rule that has one. -/
theorem analyze_eq_error_iff :
    analyze registry xs = .error fault ↔
      ∃ rule : Rule, Rule.all.find? (fun rule => !(rule.check registry xs).isOk) = some rule ∧
        rule.check registry xs = .error fault := by
  rw [analyze, map_eq_error_iff, mapM_eq_error_iff]

theorem exists_analyze_error_iff :
    (∃ fault, analyze registry xs = .error fault) ↔
      ∃ (rule : Rule) (fault : Fault), rule.check registry xs = .error fault := by
  simp only [analyze, map_eq_error_iff]
  rw [exists_mapM_error_iff]
  simp only [Rule.mem_all, true_and]

/-- The rules before the one on commands have no faults. -/
theorem analyze_of_checkShellForm (h : checkShellForm xs = .error fault) :
    analyze registry xs = .error fault := by
  obtain ⟨found, checked, -⟩ := reportsEach_checkUnknownStage xs
  refine analyze_eq_error_iff.mpr ⟨.shellForm, ?_, h⟩
  simp [Rule.all, Rule.check, h, checked, Except.isOk, Except.toBool]

/-- The fault that the instructions lead to: commands come before variables. -/
def firstFault? (xs : List Instruction) : Option Fault :=
  ((xs.find? LacksProgram).map fun x => .noProgram x.line).or
    ((xs.find? LacksVariable).map fun x => .noVariable x.line)

theorem firstFault?_of_analyze (h : analyze .unreachable xs = .error fault) :
    firstFault? xs = some fault := by
  unfold firstFault?
  -- commands are checked before variables, so a fault in one hides any other
  cases commands : xs.find? LacksProgram with
  | some x =>
    have failed := checkShellForm_eq_error_iff.mpr ⟨x, commands, rfl⟩
    cases (analyze_of_checkShellForm failed).symm.trans h
    rfl
  | none =>
    obtain ⟨rule, -, failed⟩ := analyze_eq_error_iff.mp h
    rcases check_unreachable_eq_error_iff.mp failed with ⟨-, failed⟩ | ⟨-, failed⟩
    · obtain ⟨x, hx, -⟩ := checkShellForm_eq_error_iff.mp failed
      cases commands.symm.trans hx
    · obtain ⟨x, hx, rfl⟩ := checkSecretInEnv_eq_error_iff.mp failed
      rw [hx]
      rfl

theorem message_of_firstFault? (h : firstFault? xs = some fault) :
    fault.message = "list index out of range" := by
  unfold firstFault? at h
  rw [Option.or_eq_some_iff, Option.map_eq_some_iff, Option.map_eq_some_iff] at h
  rcases h with ⟨x, -, rfl⟩ | ⟨-, x, -, rfl⟩
  · rfl
  · rfl

theorem exists_check_unreachable_error_iff :
    (∃ (rule : Rule) (fault : Fault), rule.check .unreachable xs = .error fault) ↔
      ∃ x ∈ xs, LacksProgram x ∨ LacksVariable x := by
  constructor
  · rintro ⟨rule, fault, failed⟩
    rcases check_unreachable_eq_error_iff.mp failed with ⟨-, failed⟩ | ⟨-, failed⟩
    · obtain ⟨x, hx, lacks⟩ := exists_checkShellForm_error_iff.mp ⟨fault, failed⟩
      exact ⟨x, hx, Or.inl lacks⟩
    · obtain ⟨x, hx, lacks⟩ := exists_checkSecretInEnv_error_iff.mp ⟨fault, failed⟩
      exact ⟨x, hx, Or.inr lacks⟩
  · rintro ⟨x, hx, lacks | lacks⟩
    · obtain ⟨fault, failed⟩ := exists_checkShellForm_error_iff.mpr ⟨x, hx, lacks⟩
      exact ⟨.shellForm, fault, failed⟩
    · obtain ⟨fault, failed⟩ := exists_checkSecretInEnv_error_iff.mpr ⟨x, hx, lacks⟩
      exact ⟨.secretInEnv, fault, failed⟩

/-- Where the registry does not answer, an analysis ends in a fault exactly if a command has no
program or an ENV no variable. The fault is that of a first word that is missing, and of the first
instruction to lack it. Otherwise the analysis has the findings of every rule, rule by rule. -/
theorem analyze_unreachable (xs : List Instruction) :
    ((∃ fault, analyze .unreachable xs = .error fault) ↔
        ∃ x ∈ xs, LacksProgram x ∨ LacksVariable x) ∧
      (∀ fault, analyze .unreachable xs = .error fault →
        fault.message = "list index out of range" ∧ firstFault? xs = some fault) ∧
      ((¬ ∃ x ∈ xs, LacksProgram x ∨ LacksVariable x) →
        ∃ parts, List.Forall₂ (fun (rule : Rule) part => rule.check .unreachable xs = .ok part)
            Rule.all parts ∧
          analyze .unreachable xs = .ok parts.flatten) := by
  have raises := exists_analyze_error_iff.trans (@exists_check_unreachable_error_iff xs)
  refine ⟨raises, ?_, ?_⟩
  · intro fault failed
    have first := firstFault?_of_analyze failed
    exact ⟨message_of_firstFault? first, first⟩
  · intro complete
    cases result : analyze .unreachable xs with
    | error fault => exact absurd (raises.mp ⟨fault, result⟩) complete
    | ok found =>
      obtain ⟨parts, checked, rfl⟩ := analyze_eq_ok_iff.mp result
      exact ⟨parts, checked, rfl⟩

/-- A variable without a name ends the analysis in a fault, and one without a value does not. -/
theorem analyze_unreachable_variable :
    (∃ fault, analyze .unreachable (parse "FROM a:1\nENV =b") = .error fault) ∧
      ∃ found, analyze .unreachable (parse "FROM a:1\nENV b=") = .ok found := by
  constructor
  · exact (analyze_unreachable _).1.mpr (by decide +kernel)
  · obtain ⟨parts, -, found⟩ := (analyze_unreachable (parse "FROM a:1\nENV b=")).2.2
      (by decide +kernel)
    exact ⟨parts.flatten, found⟩

end Dockerfile
