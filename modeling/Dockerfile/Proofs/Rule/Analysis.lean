import Dockerfile.Rule.Checks
import Dockerfile.Proofs.Related

/-!
What an analysis finds.

Each rule looks at instructions with certain keywords (`Rule.subjects`). A finding of it names the
rule, is as grave as all of its findings are (`Rule.severity`), carries its explanation and points
at the line of such an instruction (`Rule.reports_of_mem_check`). Only two findings are about
something that is not there: a missing label, which is reported at the first line, and a missing
user, which is reported at the last instruction (`Rule.PointsAt`).

An analysis returns normally exactly if every rule does, and then it has the findings of all of
them, rule by rule (`analyze_eq_ok_iff`).
-/

namespace Dockerfile

variable {registry : Registry} {xs : List Instruction} {rule : Rule} {found : List Finding}
  {f : Finding}

theorem exists_of_mem_mapM {α β : Type} {g : α → Except Fault β} {as : List α} {bs : List β}
    (h : as.mapM g = .ok bs) {b : β} (hb : b ∈ bs) : ∃ a ∈ as, g a = .ok b :=
  exists_of_mem_right (mapM_eq_ok_iff.mp h) hb

/-! ### The findings of a rule -/

namespace Rule

/-- How grave the findings of a rule are. -/
def severity : Rule → String
  | .runInScratch | .unknownStage | .installWithoutUpdate => "error"
  | .portWithoutProtocol | .missingLabel | .shellForm | .relativeWorkdir | .consecutiveRuns
  | .unneededPackage | .broadCopy | .repeatedUpdate => "info"
  | _ => "warning"

theorem severity_mem (rule : Rule) : rule.severity ∈ ["error", "warning", "info"] := by
  cases rule <;> decide

theorem severity_eq_error_iff : rule.severity = "error" ↔
    rule = .runInScratch ∨ rule = .unknownStage ∨ rule = .installWithoutUpdate := by
  cases rule <;> decide

/-- The keywords of the instructions that a rule reports. -/
def subjects : Rule → List Keyword
  | .unpinnedBase | .newerTag => [.fromImage]
  | .missingHealthcheck | .portWithoutProtocol => [.expose]
  | .missingLabel => []
  | .runInScratch | .installWithoutUpdate | .consecutiveRuns | .uncleanedInstall
  | .unneededPackage | .upgrade | .repeatedUpdate => [.run]
  | .unknownStage | .copyWithoutOwner => [.copy, .add]
  | .shellForm => [.cmd, .entrypoint]
  | .relativeWorkdir => [.workdir]
  | .earlyBroadCopy | .broadCopy => [.copy]
  | .addUsed => [.add]
  | .rootUser => [.user]
  | .secretInEnv => [.env]

/-- The line of the last instruction, or the first line if there is none. -/
def lastLine (xs : List Instruction) : Int :=
  (xs.getLast?.map (·.line)).getD 1

/-- The line is one that the rule may report. -/
inductive PointsAt (xs : List Instruction) : Rule → Int → Prop
  | subject {rule : Rule} {x : Instruction} :
    x ∈ xs → x.keyword ∈ rule.subjects → PointsAt xs rule x.line
  | noLabel : (∀ x ∈ xs, x.keyword ≠ .label) → PointsAt xs .missingLabel 1
  | noUser : (∀ x ∈ xs, x.keyword ≠ .user) → PointsAt xs .rootUser (lastLine xs)

/-- The finding carries what every finding of the rule does. -/
structure Makes (rule : Rule) (f : Finding) : Prop where
  names : f.rule = rule
  severity : f.severity = rule.severity
  explanation : f.explanation = some rule.explanation

/-- The finding is one that the rule may have on the instructions. -/
structure Reports (xs : List Instruction) (rule : Rule) (f : Finding) : Prop
    extends Makes rule f where
  place : PointsAt xs rule f.line

variable {chosen : List Instruction} {x : Instruction} {report : Instruction → Finding}

/-- Findings on chosen instructions, one for each. -/
theorem reports_of_mem_map (reports : ∀ x, Makes rule (report x) ∧ (report x).line = x.line)
    (subject : ∀ x ∈ chosen, x ∈ xs ∧ x.keyword ∈ rule.subjects) (hf : f ∈ chosen.map report) :
    Reports xs rule f := by
  obtain ⟨x, hx, rfl⟩ := List.mem_map.mp hf
  obtain ⟨makes, line⟩ := reports x
  obtain ⟨hx, hk⟩ := subject x hx
  exact ⟨makes, line ▸ .subject hx hk⟩

theorem reports_of_mem_filter {p : Instruction → Bool}
    (reports : ∀ x, Makes rule (report x) ∧ (report x).line = x.line)
    (subject : ∀ x, p x = true → x.keyword ∈ rule.subjects)
    (hf : f ∈ (xs.filter p).map report) : Reports xs rule f := by
  refine reports_of_mem_map reports (fun x hx => ?_) hf
  obtain ⟨hx, hp⟩ := List.mem_filter.mp hx
  exact ⟨hx, subject x hp⟩

theorem keyword_of_runs {phrase : String} (h : runs x phrase = true) : x.keyword = .run := by
  rw [runs, Bool.and_eq_true, beq_iff_eq] at h
  exact h.1

theorem keyword_of_any_runs {phrases : List String} (h : phrases.any (runs x) = true) :
    x.keyword = .run := by
  obtain ⟨phrase, -, hruns⟩ := List.any_eq_true.mp h
  exact keyword_of_runs hruns

theorem keyword_of_isCopy (h : isCopy x = true) : x.keyword = .copy ∨ x.keyword = .add := by
  rwa [isCopy, Bool.or_eq_true, beq_iff_eq, beq_iff_eq] at h

theorem reports_of_mem_missingHealthcheck (hf : f ∈ checkMissingHealthcheck xs) :
    Reports xs .missingHealthcheck f := by
  rw [checkMissingHealthcheck] at hf
  split at hf
  · cases hf
  · next x found =>
    split at hf
    · cases hf
    · rw [List.mem_singleton.mp hf]
      have hk := List.find?_some found
      exact ⟨⟨rfl, rfl, rfl⟩, .subject (List.mem_of_find?_eq_some found) (by simpa [subjects] using hk)⟩

theorem reports_of_mem_missingLabel (hf : f ∈ checkMissingLabel xs) :
    Reports xs .missingLabel f := by
  rw [checkMissingLabel] at hf
  split at hf
  · cases hf
  · next none =>
    rw [List.mem_singleton.mp hf]
    exact ⟨⟨rfl, rfl, rfl⟩, .noLabel (by simpa using none)⟩

theorem reports_of_mem_runInScratch (hf : f ∈ checkRunInScratch xs) :
    Reports xs .runInScratch f := by
  refine reports_of_mem_map (fun _ => ⟨⟨rfl, rfl, rfl⟩, rfl⟩) (fun x hx => ?_) hf
  obtain ⟨base, -, hrun⟩ := Option.bind_eq_some_iff.mp (Option.mem_toList.mp hx)
  split at hrun
  · have later := List.find?_some hrun
    rw [Bool.and_eq_true, beq_iff_eq] at later
    exact ⟨List.mem_of_find?_eq_some hrun, by simp [subjects, later.2]⟩
  · cases hrun

theorem reports_of_mem_unknownStage (h : checkUnknownStage xs = .ok found) (hf : f ∈ found) :
    Reports xs .unknownStage f := by
  obtain ⟨each, heach, rfl⟩ := map_eq_ok_iff.mp h
  obtain ⟨_, hmem, rfl⟩ := List.mem_filterMap.mp hf
  obtain ⟨x, hx, hfinding⟩ := exists_of_mem_mapM heach hmem
  obtain ⟨hx, copies⟩ := List.mem_filter.mp hx
  rw [unknownStageFinding] at hfinding
  split at hfinding
  · cases hfinding
  · obtain ⟨stage, -, hstage⟩ := map_eq_ok_iff.mp hfinding
    split at hstage
    · cases hstage
    · cases hstage
      exact ⟨⟨rfl, rfl, rfl⟩, .subject hx (by simpa [subjects] using keyword_of_isCopy copies)⟩

theorem reports_of_mem_shellForm (h : checkShellForm xs = .ok found) (hf : f ∈ found) :
    Reports xs .shellForm f := by
  obtain ⟨x, hx, hfinding⟩ := exists_of_mem_mapM h hf
  obtain ⟨hx, shell⟩ := List.mem_filter.mp hx
  rw [isShellForm, Bool.and_eq_true, Bool.or_eq_true, beq_iff_eq, beq_iff_eq] at shell
  rw [shellFormFinding] at hfinding
  split at hfinding
  · cases hfinding
  · cases hfinding
    exact ⟨⟨rfl, rfl, rfl⟩, .subject hx (by simpa [subjects] using shell.1)⟩

/-- A RUN that others follow is a RUN. -/
theorem of_mem_runStarts {afterRun : Bool} (h : x ∈ runStarts afterRun xs) :
    x ∈ xs ∧ x.keyword = .run := by
  induction xs generalizing afterRun with
  | nil => cases h
  | cons a rest ih =>
    cases rest with
    | nil => cases h
    | cons b rest =>
      rcases List.mem_append.mp h with here | later
      · obtain ⟨starts, hx⟩ := List.mem_ite_nil_right.mp here
        rw [List.mem_singleton.mp hx]
        exact ⟨List.mem_cons_self, starts.1⟩
      · obtain ⟨hx, hk⟩ := ih later
        exact ⟨List.mem_cons_of_mem a hx, hk⟩

theorem reports_of_mem_consecutiveRuns (hf : f ∈ checkConsecutiveRuns xs) :
    Reports xs .consecutiveRuns f := by
  refine reports_of_mem_map (fun _ => ⟨⟨rfl, rfl, rfl⟩, rfl⟩) (fun x hx => ?_) hf
  obtain ⟨hx, hk⟩ := of_mem_runStarts hx
  exact ⟨hx, by simp [subjects, hk]⟩

theorem reports_of_mem_earlyBroadCopy (hf : f ∈ checkEarlyBroadCopy xs) :
    Reports xs .earlyBroadCopy f := by
  refine reports_of_mem_map (fun _ => ⟨⟨rfl, rfl, rfl⟩, rfl⟩) (fun x hx => ?_) hf
  rw [earlyBroadCopies] at hx
  split at hx
  · cases hx
  · split at hx
    · cases hx
    · obtain ⟨hx, broad⟩ := List.mem_filter.mp hx
      rw [Bool.and_eq_true, beq_iff_eq] at broad
      exact ⟨(List.takeWhile_sublist _).subset hx, by simp [subjects, broad.1]⟩

theorem reports_of_mem_unneededPackage (hf : f ∈ checkUnneededPackage xs) :
    Reports xs .unneededPackage f := by
  obtain ⟨x, hx, hpackage⟩ := List.mem_flatMap.mp hf
  obtain ⟨package, -, rfl⟩ := List.mem_map.mp hpackage
  obtain ⟨hx, installs⟩ := List.mem_filter.mp hx
  exact ⟨⟨rfl, rfl, rfl⟩, .subject hx (by simp [subjects, keyword_of_any_runs installs])⟩

theorem reports_of_mem_upgrade (hf : f ∈ checkUpgrade xs) : Reports xs .upgrade f := by
  obtain ⟨x, hx, hcommand⟩ := List.mem_filterMap.mp hf
  obtain ⟨command, upgrades, rfl⟩ := Option.map_eq_some_iff.mp hcommand
  have hk := keyword_of_runs (List.find?_some upgrades)
  exact ⟨⟨rfl, rfl, rfl⟩, .subject hx (by simp [subjects, hk])⟩

theorem reports_of_mem_repeatedUpdate (hf : f ∈ checkRepeatedUpdate xs) :
    Reports xs .repeatedUpdate f := by
  refine reports_of_mem_map (fun _ => ⟨⟨rfl, rfl, rfl⟩, rfl⟩) (fun x hx => ?_) hf
  obtain ⟨hx, updates⟩ := List.mem_filter.mp (List.mem_of_mem_drop hx)
  exact ⟨hx, by simp [subjects, keyword_of_runs updates]⟩

theorem reports_of_mem_rootUser (hf : f ∈ checkRootUser xs) : Reports xs .rootUser f := by
  rw [checkRootUser] at hf
  split at hf
  · next none =>
    rw [List.mem_singleton.mp hf]
    rw [lastUser?, List.getLast?_eq_none_iff, List.filter_eq_nil_iff] at none
    exact ⟨⟨rfl, rfl, rfl⟩, .noUser (by simpa using none)⟩
  · next x user =>
    split at hf
    · rw [List.mem_singleton.mp hf]
      obtain ⟨hx, hk⟩ := List.mem_filter.mp (List.mem_of_getLast? user)
      exact ⟨⟨rfl, rfl, rfl⟩, .subject hx (by simpa [subjects] using hk)⟩
    · cases hf

theorem reports_of_mem_secretInEnv (h : checkSecretInEnv xs = .ok found) (hf : f ∈ found) :
    Reports xs .secretInEnv f := by
  obtain ⟨each, heach, rfl⟩ := map_eq_ok_iff.mp h
  obtain ⟨_, hmem, rfl⟩ := List.mem_filterMap.mp hf
  obtain ⟨x, hx, hfinding⟩ := exists_of_mem_mapM heach hmem
  obtain ⟨hx, hk⟩ := List.mem_filter.mp hx
  rw [secretFinding] at hfinding
  split at hfinding
  · cases hfinding
  · split at hfinding
    · cases hfinding
      exact ⟨⟨rfl, rfl, rfl⟩, .subject hx (by simpa [subjects] using hk)⟩
    · cases hfinding

theorem reports_of_mem_copyWithoutOwner (hf : f ∈ checkCopyWithoutOwner xs) :
    Reports xs .copyWithoutOwner f := by
  rw [checkCopyWithoutOwner] at hf
  split at hf
  · cases hf
  · dsimp only at hf
    split at hf
    · cases hf
    · refine reports_of_mem_filter (fun _ => ⟨⟨rfl, rfl, rfl⟩, rfl⟩) (fun x hx => ?_) hf
      rw [Bool.and_eq_true, Bool.and_eq_true] at hx
      simpa [subjects] using keyword_of_isCopy hx.1.2

theorem keyword_of_comparableTag? {tag : String} (h : comparableTag? x = some tag) :
    x.keyword = .fromImage := by
  rw [comparableTag?] at h
  split at h
  · assumption
  · cases h

theorem reports_of_mem_newerTag (h : checkNewerTag registry xs = .ok found) (hf : f ∈ found) :
    Reports xs .newerTag f := by
  obtain ⟨each, heach, rfl⟩ := map_eq_ok_iff.mp h
  obtain ⟨_, hmem, rfl⟩ := List.mem_filterMap.mp hf
  obtain ⟨x, hx, hfinding⟩ := exists_of_mem_mapM heach hmem
  rw [newerTagFinding] at hfinding
  split at hfinding
  · next tag body comparable answer =>
    obtain ⟨best, -, hbest⟩ := map_eq_ok_iff.mp hfinding
    obtain ⟨newer, -, rfl⟩ := Option.map_eq_some_iff.mp hbest
    exact ⟨⟨rfl, rfl, rfl⟩, .subject hx (by simp [subjects, keyword_of_comparableTag? comparable])⟩
  · cases hfinding

/-- Each finding of a rule names it, and points at a line that the rule may report. -/
theorem reports_of_mem_check (h : rule.check registry xs = .ok found) (hf : f ∈ found) :
    Reports xs rule f := by
  cases rule with
  | missingHealthcheck => cases h; exact reports_of_mem_missingHealthcheck hf
  | missingLabel => cases h; exact reports_of_mem_missingLabel hf
  | runInScratch => cases h; exact reports_of_mem_runInScratch hf
  | unknownStage => exact reports_of_mem_unknownStage h hf
  | shellForm => exact reports_of_mem_shellForm h hf
  | consecutiveRuns => cases h; exact reports_of_mem_consecutiveRuns hf
  | earlyBroadCopy => cases h; exact reports_of_mem_earlyBroadCopy hf
  | unneededPackage => cases h; exact reports_of_mem_unneededPackage hf
  | upgrade => cases h; exact reports_of_mem_upgrade hf
  | repeatedUpdate => cases h; exact reports_of_mem_repeatedUpdate hf
  | rootUser => cases h; exact reports_of_mem_rootUser hf
  | secretInEnv => exact reports_of_mem_secretInEnv h hf
  | copyWithoutOwner => cases h; exact reports_of_mem_copyWithoutOwner hf
  | newerTag => exact reports_of_mem_newerTag h hf
  | _ =>
    cases h
    refine reports_of_mem_filter (fun _ => ⟨⟨rfl, rfl, rfl⟩, rfl⟩) (fun x hx => ?_) hf
    simp only [runs, copiesAll, Bool.and_eq_true, beq_iff_eq] at hx
    simp [subjects, hx]

theorem rule_of_mem_check (h : rule.check registry xs = .ok found) (hf : f ∈ found) :
    f.rule = rule :=
  (reports_of_mem_check h hf).names

end Rule

/-! ### The findings of all rules -/

theorem analyze_eq_ok_iff : analyze registry xs = .ok found ↔
    ∃ parts, List.Forall₂ (fun (rule : Rule) part => rule.check registry xs = .ok part) Rule.all
        parts ∧
      parts.flatten = found := by
  simp only [analyze, map_eq_ok_iff, mapM_eq_ok_iff]

/-- The findings of an analysis are those of the rules that they name. -/
theorem mem_analyze_iff (h : analyze registry xs = .ok found) :
    f ∈ found ↔ ∃ part, f.rule.check registry xs = .ok part ∧ f ∈ part := by
  obtain ⟨parts, checked, rfl⟩ := analyze_eq_ok_iff.mp h
  rw [List.mem_flatten]
  constructor
  · rintro ⟨part, hpart, hf⟩
    obtain ⟨rule, -, here⟩ := exists_of_mem_right checked hpart
    rw [← Rule.rule_of_mem_check here hf] at here
    exact ⟨part, here, hf⟩
  · rintro ⟨part, here, hf⟩
    obtain ⟨part', hpart', there⟩ := exists_of_mem_left checked (Rule.mem_all f.rule)
    cases here.symm.trans there
    exact ⟨part, hpart', hf⟩

theorem Rule.reports_of_mem_analyze (h : analyze registry xs = .ok found) (hf : f ∈ found) :
    f.rule.Reports xs f := by
  obtain ⟨part, checked, mem⟩ := (mem_analyze_iff h).mp hf
  exact reports_of_mem_check checked mem

end Dockerfile
