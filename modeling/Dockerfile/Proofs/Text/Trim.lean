import Mathlib.Data.List.DropRight
import Mathlib.Data.List.Infix
import Mathlib.Data.List.TakeWhile
import Dockerfile.Text.Basic
import Dockerfile.Proofs.Text.Phrase

/-!
Trimming.

* `exists_eq_append_trim` — `trim` takes off blanks at the two ends and nothing else.
* `trim_eq_self` — a text with no blank at either end is its own trimmed form; `Trimmed` is that
  condition, and `trimmed_trim` says that every trimmed form meets it.
* `infix_trim` — a phrase that neither starts nor ends in a blank is found in a text exactly when
  it is found in the trimmed text.
-/

namespace Dockerfile.Text

variable {cs ds phrase : List Char} {c d : Char}

theorem isBlank_space : isBlank ' ' = true := by
  decide

theorem isBlank_backslash : isBlank '\\' = false := by
  decide

theorem isBlank_ampersand : isBlank '&' = false := by
  decide

/-- No blank stands at either end. -/
structure Trimmed (cs : List Char) : Prop where
  head : ∀ c ∈ cs.head?, isBlank c = false
  last : ∀ c ∈ cs.getLast?, isBlank c = false

theorem trimmed_iff :
    Trimmed cs ↔ cs.head?.all (! isBlank ·) = true ∧ cs.getLast?.all (! isBlank ·) = true := by
  simp only [Option.all_eq_true, Bool.not_eq_true']
  constructor
  · intro ends
    exact ⟨ends.head, ends.last⟩
  · rintro ⟨head, last⟩
    exact ⟨head, last⟩

instance (cs : List Char) : Decidable (Trimmed cs) :=
  decidable_of_iff _ trimmed_iff.symm

/-! ### The end of a text -/

@[simp]
theorem trimEnd_nil : trimEnd [] = [] := rfl

theorem trimEnd_concat (h : isBlank d = false) : trimEnd (cs ++ [d]) = cs ++ [d] :=
  List.rdropWhile_concat_neg (p := isBlank) _ _ (by simp [h])

theorem trimEnd_concat_blank (h : isBlank d = true) : trimEnd (cs ++ [d]) = trimEnd cs :=
  List.rdropWhile_concat_pos (p := isBlank) _ _ h

/-- Trimming stops at the last character that is not blank, so text before it stays. -/
theorem trimEnd_append (h : trimEnd ds ≠ []) : trimEnd (cs ++ ds) = cs ++ trimEnd ds := by
  induction ds using List.reverseRecOn with
  | nil => exact absurd rfl h
  | append_singleton ds d ih =>
    rw [← List.append_assoc]
    by_cases hd : isBlank d = true
    · rw [trimEnd_concat_blank hd] at h
      rw [trimEnd_concat_blank hd, trimEnd_concat_blank hd, ih h]
    · have hd : isBlank d = false := by simpa using hd
      rw [trimEnd_concat hd, trimEnd_concat hd, List.append_assoc]

theorem trimEnd_eq_self (h : ∀ c ∈ cs.getLast?, isBlank c = false) : trimEnd cs = cs := by
  induction cs using List.reverseRecOn with
  | nil => rfl
  | append_singleton cs d _ => exact trimEnd_concat (h d (by simp))

theorem trimEnd_isPrefix (cs : List Char) : trimEnd cs <+: cs :=
  List.rdropWhile_prefix isBlank cs

theorem last_trimEnd : ∀ c ∈ (trimEnd cs).getLast?, isBlank c = false := by
  induction cs using List.reverseRecOn with
  | nil => simp
  | append_singleton cs d ih =>
    by_cases hd : isBlank d = true
    · rw [trimEnd_concat_blank hd]
      exact ih
    · have hd : isBlank d = false := by simpa using hd
      rw [trimEnd_concat hd]
      simpa using hd

theorem trimEnd_eq_nil_iff : trimEnd cs = [] ↔ ∀ c ∈ cs, isBlank c = true :=
  List.rdropWhile_eq_nil_iff (p := isBlank)

/-- The same where the text before ends in no blank: there the rest may be blank altogether. -/
theorem trimEnd_append_of_last (h : ∀ c ∈ cs.getLast?, isBlank c = false) :
    trimEnd (cs ++ ds) = cs ++ trimEnd ds := by
  by_cases nothing : trimEnd ds = []
  · induction ds using List.reverseRecOn with
    | nil => rw [List.append_nil, trimEnd_nil, List.append_nil, trimEnd_eq_self h]
    | append_singleton ds d ih =>
      have blank := trimEnd_eq_nil_iff.mp nothing
      have hd : isBlank d = true := blank d (by simp)
      rw [← List.append_assoc, trimEnd_concat_blank hd, trimEnd_concat_blank hd]
      exact ih (by rwa [trimEnd_concat_blank hd] at nothing)
  · exact trimEnd_append nothing

/-! ### Both ends -/

theorem head_dropWhile_isBlank (cs : List Char) :
    ∀ c ∈ (cs.dropWhile isBlank).head?, isBlank c = false := by
  intro c hc
  have := List.head?_dropWhile_not isBlank cs
  rw [Option.mem_def.mp hc] at this
  simpa using this

theorem dropWhile_isBlank_eq_self (h : ∀ c ∈ cs.head?, isBlank c = false) :
    cs.dropWhile isBlank = cs := by
  cases cs with
  | nil => rfl
  | cons c cs => exact List.dropWhile_cons_of_neg (by simp [h c (by simp)])

theorem last_of_suffix (h : ds <:+ cs) (last : ∀ c ∈ cs.getLast?, isBlank c = false) :
    ∀ c ∈ ds.getLast?, isBlank c = false := by
  intro c hc
  obtain ⟨before, rfl⟩ := h
  apply last c
  rw [List.getLast?_append, Option.mem_def.mp hc]
  rfl

@[simp]
theorem trim_nil : trim [] = [] := rfl

theorem trim_eq_self (h : Trimmed cs) : trim cs = cs := by
  rw [trim, dropWhile_isBlank_eq_self h.head, trimEnd_eq_self h.last]

theorem strip_eq_self {s : String} (h : Trimmed s.toList) : strip s = s := by
  rw [strip, trim_eq_self h, String.ofList_toList]

theorem trimmed_append (hcs : cs ≠ []) (hds : ds ≠ [])
    (head : ∀ c ∈ cs.head?, isBlank c = false) (last : ∀ c ∈ ds.getLast?, isBlank c = false) :
    Trimmed (cs ++ ds) := by
  constructor
  · rwa [List.head?_append_of_ne_nil _ hcs]
  · rwa [List.getLast?_append_of_ne_nil _ hds]

theorem trim_eq_nil_iff : trim cs = [] ↔ ∀ c ∈ cs, isBlank c = true := by
  rw [trim, trimEnd_eq_nil_iff]
  constructor
  · intro blank
    -- The first character that is kept would not be blank.
    have nothing : cs.dropWhile isBlank = [] := by
      cases h : cs.dropWhile isBlank with
      | nil => rfl
      | cons c rest =>
        have kept := head_dropWhile_isBlank cs c (by simp [h])
        have := blank c (by simp [h])
        simp [kept] at this
    exact List.dropWhile_eq_nil_iff.mp nothing
  · intro blank c hc
    exact blank c ((List.dropWhile_suffix _).subset hc)

/-- Trimming takes off blanks at the two ends and nothing else. -/
theorem exists_eq_append_trim (cs : List Char) :
    ∃ before after, cs = before ++ trim cs ++ after ∧
      (∀ c ∈ before, isBlank c = true) ∧ ∀ c ∈ after, isBlank c = true := by
  refine ⟨cs.takeWhile isBlank, (cs.dropWhile isBlank).rtakeWhile isBlank, ?_,
    fun c hc => List.mem_takeWhile_imp hc, fun c hc => List.mem_rtakeWhile_imp hc⟩
  have back := @List.rdropWhile_append_rtakeWhile _ isBlank (cs.dropWhile isBlank)
  calc cs = cs.takeWhile isBlank ++ cs.dropWhile isBlank :=
        (List.takeWhile_append_dropWhile).symm
    _ = cs.takeWhile isBlank ++ trim cs ++ (cs.dropWhile isBlank).rtakeWhile isBlank := by
        rw [List.append_assoc]
        exact congrArg _ back.symm

theorem mem_trim (h : c ∈ cs) (written : isBlank c = false) : c ∈ trim cs := by
  obtain ⟨before, after, heq, hbefore, hafter⟩ := exists_eq_append_trim cs
  rw [heq, List.mem_append, List.mem_append] at h
  rcases h with (h | h) | h
  · cases written.symm.trans (hbefore c h)
  · exact h
  · cases written.symm.trans (hafter c h)

theorem trim_isInfix (cs : List Char) : trim cs <:+: cs := by
  obtain ⟨before, after, heq, -, -⟩ := exists_eq_append_trim cs
  exact ⟨before, after, heq.symm⟩

theorem trimmed_trim (cs : List Char) : Trimmed (trim cs) := by
  refine ⟨fun c hc => ?_, last_trimEnd⟩
  -- The trimmed form is a prefix of a text that starts with no blank.
  obtain ⟨rest, heq⟩ := trimEnd_isPrefix (cs.dropWhile isBlank)
  apply head_dropWhile_isBlank cs
  rw [← heq, List.head?_append]
  simpa [trim] using Or.inl hc

theorem trim_concat_blank (h : isBlank d = true) : trim (cs ++ [d]) = trim cs := by
  by_cases nothing : cs.dropWhile isBlank = []
  · have blank := List.dropWhile_eq_nil_iff.mp nothing
    have all : ∀ c ∈ cs ++ [d], isBlank c = true := by
      intro c hc
      rcases List.mem_append.mp hc with hc | hc
      · exact blank c hc
      · rw [List.mem_singleton.mp hc, h]
    rw [trim_eq_nil_iff.mpr all, trim_eq_nil_iff.mpr blank]
  · have kept : (cs ++ [d]).dropWhile isBlank = cs.dropWhile isBlank ++ [d] := by
      rw [List.dropWhile_append]
      simp [List.isEmpty_iff, nothing]
    rw [trim, kept, trimEnd_concat_blank h, trim]

/-- A text that ends in no blank is trimmed at its start only. -/
theorem trim_eq_dropWhile (h : ∀ c ∈ cs.getLast?, isBlank c = false) :
    trim cs = cs.dropWhile isBlank := by
  exact trimEnd_eq_self (last_of_suffix (List.dropWhile_suffix isBlank) h)

/-- Blanks are dropped from the part before a character that is not blank. -/
theorem dropWhile_append_cons (cs ds : List Char) (h : isBlank d = false) :
    (cs ++ d :: ds).dropWhile isBlank = cs.dropWhile isBlank ++ d :: ds := by
  rw [List.dropWhile_append]
  split
  · next nothing => simp [List.isEmpty_iff.mp nothing, h]
  · rfl

theorem trim_concat (cs : List Char) (h : isBlank d = false) :
    trim (cs ++ [d]) = cs.dropWhile isBlank ++ [d] := by
  rw [trim, dropWhile_append_cons cs [] h, trimEnd_concat h]

theorem trim_dropWhile (cs : List Char) : trim (cs.dropWhile isBlank) = trim cs := by
  rw [trim, dropWhile_isBlank_eq_self (head_dropWhile_isBlank cs), trim]

theorem dropWhile_dropWhile_append (cs ds : List Char) :
    (cs.dropWhile isBlank ++ ds).dropWhile isBlank = (cs ++ ds).dropWhile isBlank := by
  have blanks : ∀ c ∈ cs.takeWhile isBlank, isBlank c = true :=
    fun c hc => List.mem_takeWhile_imp hc
  calc (cs.dropWhile isBlank ++ ds).dropWhile isBlank
      = (cs.takeWhile isBlank ++ (cs.dropWhile isBlank ++ ds)).dropWhile isBlank :=
        (List.dropWhile_append_of_pos blanks).symm
    _ = (cs ++ ds).dropWhile isBlank := by
        rw [← List.append_assoc, List.takeWhile_append_dropWhile]

/-- Trimming the end takes off no more than trimming both ends. -/
theorem exists_trimEnd_eq (cs : List Char) :
    ∃ before, (∀ c ∈ before, isBlank c = true) ∧ trimEnd cs = before ++ trim cs := by
  by_cases nothing : trim cs = []
  · refine ⟨[], by simp, ?_⟩
    rw [nothing, trimEnd_eq_nil_iff.mpr (trim_eq_nil_iff.mp nothing)]
    rfl
  · refine ⟨cs.takeWhile isBlank, fun c hc => List.mem_takeWhile_imp hc, ?_⟩
    calc trimEnd cs = trimEnd (cs.takeWhile isBlank ++ cs.dropWhile isBlank) := by
          rw [List.takeWhile_append_dropWhile]
      _ = cs.takeWhile isBlank ++ trim cs := trimEnd_append nothing

/-! ### Phrases -/

theorem trim_append_of_trimmed (h : Trimmed cs) (ne : cs ≠ []) (ds : List Char) :
    trim (cs ++ ds) = cs ++ trimEnd ds := by
  obtain ⟨c, rest, rfl⟩ := List.exists_cons_of_ne_nil ne
  have hc : isBlank c = false := h.head c rfl
  rw [trim, List.cons_append, List.dropWhile_cons_of_neg (by simp [hc]), ← List.cons_append,
    trimEnd_append_of_last h.last]

theorem dropWhile_trimEnd_append (cs ds : List Char) :
    (trimEnd cs ++ ds).dropWhile isBlank = (trim cs ++ ds).dropWhile isBlank := by
  obtain ⟨before, blank, heq⟩ := exists_trimEnd_eq cs
  rw [heq, List.append_assoc, List.dropWhile_append_of_pos blank]

/-- Trimming a text does not touch a phrase in it that has no blank at either end. -/
theorem infix_trim (ne : phrase ≠ []) (ends : Trimmed phrase) :
    phrase <:+: trim cs ↔ phrase <:+: cs := by
  refine ⟨fun h => h.trans (trim_isInfix cs), fun h => ?_⟩
  obtain ⟨before, after, heq, hbefore, hafter⟩ := exists_eq_append_trim cs
  rw [heq] at h
  have first := List.head?_eq_some_head ne
  have last := List.getLast?_eq_some_getLast ne
  refine infix_of_infix_append_left first (fun hmem => ?_)
    (infix_of_infix_append_right last (fun hmem => ?_) h)
  · exact Bool.false_ne_true ((ends.head _ first).symm.trans (hbefore _ hmem))
  · exact Bool.false_ne_true ((ends.last _ last).symm.trans (hafter _ hmem))

end Dockerfile.Text
