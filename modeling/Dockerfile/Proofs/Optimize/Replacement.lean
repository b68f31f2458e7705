import Dockerfile.Optimize

/-!
The passes that look at one instruction at a time.

For each of them, when it has a replacement and which one (`pin?_eq_some`, `clean?_eq_some`, …), and
that it has none for what it has written (`pin?_of_pin?`, …). Only taking out `sudo` is missing from
the second list: what is left of `susudo do x` is `sudo x`.
-/

namespace Dockerfile.Optimize

open Text Rule

variable {x y : Instruction} {change : Change}

@[simp]
theorem write_keyword (line : Int) (k : Keyword) (v : String) :
    (Instruction.write line k v).keyword = k := rfl

@[simp]
theorem write_line (line : Int) (k : Keyword) (v : String) :
    (Instruction.write line k v).line = line := rfl

@[simp]
theorem write_value (line : Int) (k : Keyword) (v : String) :
    (Instruction.write line k v).value = v := rfl

@[simp]
theorem write_text (line : Int) (k : Keyword) (v : String) :
    (Instruction.write line k v).text = k.name ++ " " ++ v := rfl

@[simp]
theorem runs_eq_true_iff {phrase : String} :
    runs x phrase = true ↔ x.keyword = .run ∧ mentions x.value phrase = true := by
  simp [runs]

/-! ### Replacements -/

theorem pin?_eq_some :
    pin? x = some (y, change) ↔ x.keyword = .fromImage ∧ x.tag = none ∧
      y = { Instruction.write x.line .fromImage (pinnedValue x) with
        image := x.image, tag := some "latest", stage := x.stage } ∧
      change = .pinned x.image x.line := by
  rw [pin?, Option.ite_none_right_eq_some, Option.some.injEq, Prod.mk.injEq, and_assoc]
  simp only [eq_comm]

theorem clean?_eq_some :
    clean? x = some (y, change) ↔ x.keyword = .run ∧ mentions x.value "apt-get install" = true ∧
      mentions x.value "rm -rf /var/lib/apt/lists" = false ∧
      y = .write x.line .run (strip x.value ++ " \\\n    && rm -rf /var/lib/apt/lists/*") ∧
      change = .cleaned x.line := by
  rw [clean?, Option.ite_none_right_eq_some, Option.some.injEq, Prod.mk.injEq, Bool.and_eq_true,
    runs_eq_true_iff, Bool.not_eq_true', and_assoc, and_assoc]
  simp only [eq_comm]

theorem addProtocol?_eq_some :
    addProtocol? x = some (y, change) ↔ x.keyword = .expose ∧ hasProtocol x.value = false ∧
      y = .write x.line .expose (strip x.value ++ "/tcp") ∧ change = .protocolAdded x.line := by
  rw [addProtocol?, Option.ite_none_right_eq_some, Option.some.injEq, Prod.mk.injEq,
    Bool.and_eq_true, beq_iff_eq, Bool.not_eq_true', and_assoc]
  simp only [eq_comm]

theorem addToCopy?_eq_some :
    addToCopy? x = some (y, change) ↔ x.keyword = .add ∧
      y = .write x.line .copy x.value ∧ change = .addReplaced x.line := by
  rw [addToCopy?, Option.ite_none_right_eq_some, Option.some.injEq, Prod.mk.injEq]
  simp only [eq_comm]

theorem dropSudo?_eq_some :
    dropSudo? x = some (y, change) ↔ x.keyword = .run ∧ mentions x.value "sudo " = true ∧
      y = .write x.line .run (removeAll x.value "sudo ") ∧ change = .sudoRemoved x.line := by
  rw [dropSudo?, Option.ite_none_right_eq_some, Option.some.injEq, Prod.mk.injEq,
    runs_eq_true_iff, and_assoc]
  simp only [eq_comm]

theorem prependUpdate?_eq_some :
    prependUpdate? x = some (y, change) ↔
      x.keyword = .run ∧ mentions x.value "apt-get install" = true ∧
      mentions x.value "apt-get update" = false ∧
      y = .write x.line .run ("apt-get update && " ++ strip x.value) ∧
      change = .updatePrepended x.line := by
  rw [prependUpdate?, Option.ite_none_right_eq_some, Option.some.injEq, Prod.mk.injEq,
    Bool.and_eq_true, runs_eq_true_iff, Bool.not_eq_true', and_assoc, and_assoc]
  simp only [eq_comm]

/-! ### Nothing is replaced twice -/

theorem mentions_append_left {s t phrase : String} (h : mentions s phrase = true) :
    mentions (s ++ t) phrase = true := by
  rw [mentions_iff] at h ⊢
  rw [String.toList_append]
  exact List.infix_append_of_infix_left h

theorem mentions_append_right {s t phrase : String} (h : mentions t phrase = true) :
    mentions (s ++ t) phrase = true := by
  rw [mentions_iff] at h ⊢
  rw [String.toList_append]
  exact List.infix_append_of_infix_right h

theorem pin?_of_pin? (h : pin? x = some (y, change)) : pin? y = none := by
  obtain ⟨-, -, rfl, -⟩ := pin?_eq_some.mp h
  simp [pin?]

theorem clean?_of_clean? (h : clean? x = some (y, change)) : clean? y = none := by
  obtain ⟨-, -, -, rfl, -⟩ := clean?_eq_some.mp h
  have cleaned : mentions (strip x.value ++ " \\\n    && rm -rf /var/lib/apt/lists/*")
      "rm -rf /var/lib/apt/lists" = true :=
    mentions_append_right (by decide +kernel)
  simp [clean?, cleaned]

theorem addProtocol?_of_addProtocol? (h : addProtocol? x = some (y, change)) :
    addProtocol? y = none := by
  obtain ⟨-, -, rfl, -⟩ := addProtocol?_eq_some.mp h
  have tcp : mentions (strip x.value ++ "/tcp") "/tcp" = true :=
    mentions_append_right (by decide +kernel)
  simp [addProtocol?, hasProtocol, tcp]

theorem addToCopy?_of_addToCopy? (h : addToCopy? x = some (y, change)) : addToCopy? y = none := by
  obtain ⟨-, rfl, -⟩ := addToCopy?_eq_some.mp h
  simp [addToCopy?]

theorem prependUpdate?_of_prependUpdate? (h : prependUpdate? x = some (y, change)) :
    prependUpdate? y = none := by
  obtain ⟨-, -, -, rfl, -⟩ := prependUpdate?_eq_some.mp h
  have updated : mentions ("apt-get update && " ++ strip x.value) "apt-get update" = true :=
    mentions_append_left (by decide +kernel)
  simp [prependUpdate?, updated]

example : removeAll "susudo do x" "sudo " = "sudo x" := by decide +kernel

/-! ### Replacing throughout a list -/

section ReplaceEach

variable {f : Instruction → Option (Instruction × Change)} {xs : List Instruction}

theorem replaceEach_changes_eq_nil_iff :
    (replaceEach f xs).changes = [] ↔ ∀ x ∈ xs, f x = none := by
  simp [replaceEach, List.filterMap_eq_nil_iff]

theorem replaceEach_eq_self (h : (replaceEach f xs).changes = []) :
    replaceEach f xs = ⟨xs, []⟩ := by
  have none := replaceEach_changes_eq_nil_iff.mp h
  have kept : ∀ x ∈ xs, ((f x).map Prod.fst).getD x = x := by
    intro x hx
    rw [none x hx]
    rfl
  have same : (replaceEach f xs).instructions = xs := by
    rw [replaceEach, List.map_congr_left kept, List.map_id']
  calc replaceEach f xs = ⟨(replaceEach f xs).instructions, (replaceEach f xs).changes⟩ := rfl
    _ = ⟨xs, []⟩ := by rw [same, h]

/-- A pass that has no replacement for its own replacements has nothing left to replace. -/
theorem replaceEach_replaceEach (settled : ∀ x y change, f x = some (y, change) → f y = none) :
    (replaceEach f (replaceEach f xs).instructions).changes = [] := by
  rw [replaceEach_changes_eq_nil_iff]
  intro y hy
  obtain ⟨x, -, rfl⟩ := List.mem_map.mp hy
  cases hx : f x with
  | none => simpa using hx
  | some result => simpa using settled x result.1 result.2 hx

theorem mem_replaceEach_changes : change ∈ (replaceEach f xs).changes ↔
    ∃ x ∈ xs, ∃ y, f x = some (y, change) := by
  simp [replaceEach, List.mem_filterMap]

/-- One change is logged for each instruction replaced, in order and at its line. -/
theorem lines_replaceEach (line : ∀ x y change, f x = some (y, change) → change.line = x.line) :
    (replaceEach f xs).changes.map Change.line =
      (xs.filter fun x => (f x).isSome).map Instruction.line := by
  induction xs with
  | nil => rfl
  | cons x xs ih =>
    simp only [replaceEach] at ih ⊢
    cases hx : f x with
    | none => simpa [hx] using ih
    | some result => simpa [hx, line x result.1 result.2 hx] using ih

end ReplaceEach

end Dockerfile.Optimize
