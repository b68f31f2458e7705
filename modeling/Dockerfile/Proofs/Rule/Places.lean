import Mathlib.Data.List.Nodup
import Dockerfile.Proofs.Instruction.Groups
import Dockerfile.Proofs.Rule.Analysis
import Dockerfile.Report

/-!
Where the entries of a report come from.

An instruction of a text has the number of one of its lines (`line_of_mem_parse`), so the findings
on a text point at its lines too. Later instructions have higher numbers (`pairwise_line_parse`), so
a line tells which instruction it is that a finding is about (`eq_of_line_eq`). The findings of an
analysis that name a rule are those of that rule (`filter_rule_of_analyze`), and the entries on them
carry its code and its explanation.
-/

namespace Dockerfile

open Text

/-! ### The lines of a text -/

namespace LogicalLine

theorem number_of_mem_written {number : Nat} {physicals : List (List Char)} {l : Written}
    (h : l ∈ written number physicals) :
    number ≤ l.number ∧ l.number < number + physicals.length := by
  obtain ⟨⟨physical, n⟩, hmem, rfl⟩ := List.mem_map.mp (List.mem_filter.mp h).1
  exact ⟨List.le_snd_of_mem_zipIdx hmem, List.snd_lt_add_of_mem_zipIdx hmem⟩

theorem Group.exists_mem_lines_number (g : Group) : ∃ l ∈ g.lines, l.number = g.number := by
  rw [lines, number]
  cases g.continued with
  | nil => exact ⟨g.last, List.mem_singleton_self _, rfl⟩
  | cons l more => exact ⟨l, List.mem_cons_self, rfl⟩

theorem pairwise_number_written (number : Nat) (physicals : List (List Char)) :
    (written number physicals).Pairwise fun l l' => l.number < l'.number := by
  induction physicals generalizing number with
  | nil => exact List.Pairwise.nil
  | cons physical physicals ih =>
    by_cases blank : trim physical = []
    · rw [written_blank blank]
      exact ih (number + 1)
    · rw [written_cons blank]
      exact .cons (fun l hl => (number_of_mem_written hl).1) (ih (number + 1))

theorem Cut.pairwise_number {lines rest : List Written} {groups : List Group}
    (h : Cut lines groups rest) (increasing : lines.Pairwise fun l l' => l.number < l'.number) :
    groups.Pairwise fun g g' => g.number < g'.number := by
  rw [h.lines_eq, List.flatMap_def, List.pairwise_append, List.pairwise_flatten] at increasing
  obtain ⟨⟨-, apart⟩, -, -⟩ := increasing
  refine (List.pairwise_map.mp apart).imp fun {g g'} less => ?_
  obtain ⟨l, hl, hnumber⟩ := g.exists_mem_lines_number
  obtain ⟨l', hl', hnumber'⟩ := g'.exists_mem_lines_number
  rw [← hnumber, ← hnumber']
  exact less l hl l' hl'

end LogicalLine

/-- An instruction of a text has the number of one of its lines. -/
theorem line_of_mem_parse {content : String} {x : Instruction} (h : x ∈ parse content) :
    1 ≤ x.line ∧ x.line ≤ (linesOf content.toList).length := by
  obtain ⟨g, read, hlines⟩ := LogicalLine.exists_group_of_mem_parse h
  obtain ⟨l, hl, hnumber⟩ := g.exists_mem_lines_number
  have bounds := LogicalLine.number_of_mem_written (hlines l hl)
  rw [Instruction.line_of_read read, ← hnumber]
  omega

/-- Later instructions of a text have higher lines. -/
theorem pairwise_line_parse (content : String) :
    (parse content).Pairwise fun x y => x.line < y.line := by
  obtain ⟨groups, rest, cut, read⟩ := LogicalLine.exists_cut_parse content
  have increasing := cut.pairwise_number (LogicalLine.pairwise_number_written 1 _)
  have lines : (parse content).map Instruction.line = groups.map fun g => (g.number : Int) := by
    rw [← List.forall₂_eq_eq_eq, List.forall₂_map_left_iff, List.forall₂_map_right_iff] at read ⊢
    exact (read.imp fun g x here => Instruction.line_of_read here).flip
  rw [← List.pairwise_map (R := (· < ·)), lines, List.pairwise_map]
  exact increasing.imp fun less => Int.ofNat_lt.mpr less

theorem eq_of_line_eq {content : String} {x y : Instruction} (hx : x ∈ parse content)
    (hy : y ∈ parse content) (same : x.line = y.line) : x = y := by
  have differ : ((parse content).map Instruction.line).Nodup :=
    List.pairwise_map.mpr ((pairwise_line_parse content).imp Int.ne_of_lt)
  exact List.inj_on_of_nodup_map differ hx hy same

theorem Rule.PointsAt.bounds {content : String} {rule : Rule} {line : Int}
    (h : PointsAt (parse content) rule line) :
    1 ≤ line ∧ line ≤ max 1 (linesOf content.toList).length := by
  cases h with
  | subject hx _ =>
    have bounds := line_of_mem_parse hx
    omega
  | noLabel _ => omega
  | noUser _ =>
    rw [lastLine]
    cases last : (parse content).getLast? with
    | none =>
      simp only [Option.map_none, Option.getD_none]
      omega
    | some x =>
      have bounds := line_of_mem_parse (List.mem_of_getLast? last)
      simp only [Option.map_some, Option.getD_some]
      omega

/-! ### The findings that name a rule -/

variable {registry : Registry} {xs : List Instruction} {rule : Rule} {found : List Finding}

theorem filter_flatten_of_check {rules : List Rule} {parts : List (List Finding)}
    (checked : List.Forall₂ (fun (rule : Rule) part => rule.check registry xs = .ok part) rules
      parts)
    (nodup : rules.Nodup) (hrule : rule ∈ rules) :
    rule.check registry xs = .ok (parts.flatten.filter (·.rule == rule)) := by
  induction checked with
  | nil => cases hrule
  | @cons first part rules parts here rest ih =>
    obtain ⟨fresh, nodup⟩ := List.nodup_cons.mp nodup
    rw [List.flatten_cons, List.filter_append]
    -- no rule is checked twice, so one part is kept whole and all others are dropped
    rcases List.mem_cons.mp hrule with rfl | hrule
    · have mine : part.filter (·.rule == rule) = part := by
        rw [List.filter_eq_self]
        intro f hf
        rw [Rule.rule_of_mem_check here hf, beq_self_eq_true]
      have others : parts.flatten.filter (·.rule == rule) = [] := by
        rw [List.filter_eq_nil_iff]
        intro f hf same
        obtain ⟨part', hpart', hf⟩ := List.mem_flatten.mp hf
        obtain ⟨rule', hrule', there⟩ := exists_of_mem_right rest hpart'
        rw [Rule.rule_of_mem_check there hf, beq_iff_eq] at same
        exact fresh (same ▸ hrule')
      rw [mine, others, List.append_nil, here]
    · have foreign : part.filter (·.rule == rule) = [] := by
        rw [List.filter_eq_nil_iff]
        intro f hf same
        rw [Rule.rule_of_mem_check here hf, beq_iff_eq] at same
        exact fresh (same ▸ hrule)
      rw [foreign, List.nil_append, ih nodup hrule]

theorem Rule.nodup_all : Rule.all.Nodup := by
  decide

theorem filter_rule_of_analyze (h : analyze registry xs = .ok found) (rule : Rule) :
    rule.check registry xs = .ok (found.filter (·.rule == rule)) := by
  obtain ⟨parts, checked, rfl⟩ := analyze_eq_ok_iff.mp h
  exact filter_flatten_of_check checked Rule.nodup_all rule.mem_all

/-! ### The entries of a report -/

theorem Rule.code_injective : Function.Injective Rule.code := by
  intro a b h
  simpa using congrArg Rule.ofCode? h

namespace Report.Entry

/-- The entry is one on a finding that the rule may have on the instructions. -/
structure FromRule (e : Entry) (rule : Rule) (xs : List Instruction) : Prop where
  ruleId : e.ruleId = rule.code
  explanation : e.explanation = some rule.explanation
  severity : e.severity ∈ ["error", "warning", "info"]
  place : rule.PointsAt xs e.line

theorem fromRule_ofFinding {f : Finding} (h : rule.Reports xs f) :
    (ofFinding f).FromRule rule xs := by
  refine ⟨congrArg Rule.code h.names, h.explanation, ?_, h.place⟩
  have grave : (ofFinding f).severity = rule.severity := h.severity
  rw [grave]
  exact rule.severity_mem

theorem filter_map_ofFinding (found : List Finding) (rule : Rule) :
    (found.map ofFinding).filter (·.ruleId == rule.code)
      = (found.filter (·.rule == rule)).map ofFinding := by
  rw [List.filter_map]
  congr 2
  funext f
  rw [Bool.eq_iff_iff, beq_iff_eq]
  exact beq_iff_eq.trans Rule.code_injective.eq_iff

end Report.Entry

open Report

/-- The entries on the findings of an analysis, taken by the code of a rule, are those on what that
rule finds. Each of them carries the code and the explanation of the rule that it comes from, one of
three severities, and a line that this rule may report. On a text, that is one of its lines. -/
theorem entries_of_analyze (h : analyze registry xs = .ok found) :
    (∀ rule : Rule, ∃ part, rule.check registry xs = .ok part ∧
        (found.map Entry.ofFinding).filter (·.ruleId == rule.code) = part.map .ofFinding) ∧
      (∀ e ∈ found.map Entry.ofFinding, ∃ (rule : Rule) (part : List Finding),
        rule.check registry xs = .ok part ∧ e ∈ part.map .ofFinding ∧ e.FromRule rule xs) ∧
      ∀ content, xs = parse content → ∀ e ∈ found.map Entry.ofFinding,
        1 ≤ e.line ∧ e.line ≤ max 1 (linesOf content.toList).length := by
  have stems : ∀ e ∈ found.map Entry.ofFinding, ∃ (rule : Rule) (part : List Finding),
      rule.check registry xs = .ok part ∧ e ∈ part.map .ofFinding ∧ e.FromRule rule xs := by
    intro e he
    obtain ⟨f, hf, rfl⟩ := List.mem_map.mp he
    obtain ⟨part, checked, hpart⟩ := (mem_analyze_iff h).mp hf
    have reports := Rule.reports_of_mem_check checked hpart
    exact ⟨f.rule, part, checked, List.mem_map_of_mem hpart, Entry.fromRule_ofFinding reports⟩
  refine ⟨?_, stems, ?_⟩
  · intro rule
    exact ⟨_, filter_rule_of_analyze h rule, Entry.filter_map_ofFinding found rule⟩
  · rintro content rfl e he
    obtain ⟨rule, part, -, -, fromRule⟩ := stems e he
    exact fromRule.place.bounds

/-- Entries at a label and a user that are missing, on a text with a blank line. -/
theorem entries_of_analyze_missing :
    ∃ found, analyze (fun _ => none) (parse "FROM scratch\n\nRUN a") = .ok found ∧
      found.map (fun f => (f.rule, f.line))
        = [(.unpinnedBase, 1), (.missingLabel, 1), (.runInScratch, 3), (.rootUser, 3)] ∧
      ∀ e ∈ found.map Entry.ofFinding, 1 ≤ e.line ∧ e.line ≤ 3 := by
  have places : (analyze (fun _ => none) (parse "FROM scratch\n\nRUN a")).map
      (·.map fun f => (f.rule, f.line))
        = .ok [(.unpinnedBase, 1), (.missingLabel, 1), (.runInScratch, 3), (.rootUser, 3)] := by
    decide +kernel
  obtain ⟨found, analyzed, hplaces⟩ := map_eq_ok_iff.mp places
  have bounds := (entries_of_analyze analyzed).2.2 _ rfl
  exact ⟨found, analyzed, hplaces, bounds⟩

end Dockerfile
