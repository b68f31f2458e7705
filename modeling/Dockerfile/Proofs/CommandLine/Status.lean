import Dockerfile.CommandLine.Program
import Dockerfile.Proofs.Outcome
import Dockerfile.Proofs.Related
import Dockerfile.Proofs.Report.Shown

/-!
The exit status of a check.

On a console that refuses nothing, the report on findings is shown to its end in either format
(`Report.result_display`), so a check ends with the status that its analysis leads to
(`CommandLine.statusOf`, `CommandLine.result_lint`).
-/

namespace Dockerfile

open Outcome

namespace CommandLine

variable {console : Console} {registry : Registry} {xs : List Instruction}
  {content path : String} {source : Option Source} {fault : Fault} {found : List Finding}

section ShowsAll

variable (shows : console.ShowsAll)
include shows

theorem result_runRules (registry : Registry) (xs : List Instruction) :
    (runRules console registry xs).result = analyze registry xs := by
  unfold runRules
  rw [result_bind_of_ok (result_print (shows.prints _)), result_ofExcept]

theorem result_lintText_of_ok (h : analyze registry (parse content) = .ok found)
    (format : Report.Format) (explain : Bool) :
    (lintText console registry format explain content).result
      = .ok (some (if found.isEmpty then 0 else 1)) := by
  have ran := (result_runRules shows registry (parse content)).trans h
  -- a report that ended in a fault would turn the status into 2
  have shown : (Report.display console format explain (found.map .ofFinding)).result = .ok () :=
    Report.result_display (shows.shows .report)
      (fun _ => Report.explained_of_analyze h) format
  unfold lintText
  rw [result_bind_of_ok ran, result_bind_of_ok shown, result_pure]

theorem result_lintText_of_error (h : analyze registry (parse content) = .error fault)
    (format : Report.Format) (explain : Bool) :
    (lintText console registry format explain content).result = .error fault := by
  unfold lintText
  exact result_bind_of_error ((result_runRules shows registry (parse content)).trans h)

theorem result_analysisFault (fault : Fault) :
    (analysisFault console fault).result = .ok (some 2) := by
  unfold analysisFault
  rw [result_bind_of_ok (result_present (shows.shows _ _)), result_pure]

end ShowsAll

/-- The exit status of an analysis that ends so. -/
def statusOf : Except Fault (List Finding) → Nat
  | .error _ => 2
  | .ok found => if found.isEmpty then 0 else 1

theorem result_lint (shows : console.ShowsAll)
    (h : (Source.read console path source).result = .ok (some content))
    (format : Report.Format) (explain : Bool) :
    (lint console registry format explain path source).result
      = .ok (some (statusOf (analyze registry (parse content)))) := by
  unfold lint
  rw [result_bind_of_ok (result_say (shows.shows _ _)), result_bind_of_ok h]
  cases analyzed : analyze registry (parse content) with
  | ok found => exact result_orElse_of_ok (result_lintText_of_ok shows analyzed format explain)
  | error fault =>
    rw [result_orElse_of_error (result_lintText_of_error shows analyzed format explain)]
    exact result_analysisFault shows fault

theorem statusOf_eq_two_iff {result : Except Fault (List Finding)} :
    statusOf result = 2 ↔ ∃ fault, result = .error fault := by
  unfold statusOf
  cases result with
  | error fault => simp
  | ok found => cases found <;> simp

theorem statusOf_eq_one_iff {result : Except Fault (List Finding)} :
    statusOf result = 1 ↔ ∃ found, result = .ok found ∧ found ≠ [] := by
  unfold statusOf
  cases result with
  | error fault => simp
  | ok found => cases found <;> simp

theorem statusOf_eq_zero_iff {result : Except Fault (List Finding)} :
    statusOf result = 0 ↔ result = .ok [] := by
  unfold statusOf
  cases result with
  | error fault => simp
  | ok found => cases found <;> simp

end CommandLine

end Dockerfile
