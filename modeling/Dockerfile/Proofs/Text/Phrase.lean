import Mathlib.Data.List.Infix
import Dockerfile.Text.Basic

/-!
Phrases in a text that is put together from parts, and texts a phrase is taken out of.

A character that the phrase does not hold divides a text into two: the phrase stands in one of the
parts or nowhere (`infix_append_cons_iff`), and taking it out of the text is taking it out of each
part (`removeFrom_append_cons`). So a phrase is found in a joined text only if it is found in one of
the texts joined (`exists_infix_of_infix_intercalate`).
-/

namespace Dockerfile.Text

variable {phrase a b sep : List Char} {c d : Char}

/-! ### Finding a phrase -/

theorem prefix_append_cons_iff (h : c ∉ phrase) : phrase <+: a ++ c :: b ↔ phrase <+: a := by
  induction a generalizing phrase with
  | nil =>
    cases phrase with
    | nil => simp
    | cons p phrase =>
      have ne : p ≠ c := fun heq => h (by simp [heq])
      simp [List.cons_prefix_cons, ne]
  | cons x a ih =>
    cases phrase with
    | nil => simp
    | cons p phrase =>
      have hc : c ∉ phrase := fun hc => h (List.mem_cons_of_mem _ hc)
      rw [List.cons_append, List.cons_prefix_cons, List.cons_prefix_cons, ih hc]

theorem infix_append_cons_iff (h : c ∉ phrase) :
    phrase <:+: a ++ c :: b ↔ phrase <:+: a ∨ phrase <:+: b := by
  induction a with
  | nil =>
    have start : phrase <+: c :: b ↔ phrase <+: [] := prefix_append_cons_iff (a := []) h
    rw [List.nil_append, List.infix_cons_iff, start, List.prefix_nil, List.infix_nil]
  | cons x a ih =>
    have start : phrase <+: x :: (a ++ c :: b) ↔ phrase <+: x :: a :=
      prefix_append_cons_iff (a := x :: a) h
    rw [List.cons_append, List.infix_cons_iff, start, ih, ← or_assoc, ← List.infix_cons_iff]

/-- A phrase at the end of a text does not reach over a character that it does not hold. -/
theorem suffix_append_cons_iff (h : c ∉ phrase) : phrase <:+ a ++ c :: b ↔ phrase <:+ b := by
  rw [← List.reverse_prefix, ← List.reverse_prefix, List.reverse_append, List.reverse_cons,
    List.append_assoc, List.singleton_append, prefix_append_cons_iff (by simpa using h)]

/-- A phrase at the end of a text does not reach into a part that lacks its first character. -/
theorem suffix_append_iff (head : phrase.head? = some c) (hc : c ∉ a) :
    phrase <:+ a ++ b ↔ phrase <:+ b := by
  refine ⟨fun h => ?_, fun h => h.trans (List.suffix_append a b)⟩
  obtain ⟨phrase, rfl⟩ := List.head?_eq_some_iff.mp head
  induction a with
  | nil => exact h
  | cons x a ih =>
    rcases List.suffix_cons_iff.mp h with whole | inside
    · exact absurd (List.head_eq_of_cons_eq whole ▸ List.mem_cons_self) hc
    · exact ih (fun hca => hc (List.mem_cons_of_mem _ hca)) inside

/-- A phrase does not reach into a text that lacks its first character. -/
theorem infix_of_infix_append_left (head : phrase.head? = some c) (hc : c ∉ a)
    (h : phrase <:+: a ++ b) : phrase <:+: b := by
  obtain ⟨phrase, rfl⟩ := List.head?_eq_some_iff.mp head
  induction a with
  | nil => exact h
  | cons x a ih =>
    rcases List.infix_cons_iff.mp h with start | inside
    · have heq : c = x := (List.cons_prefix_cons.mp start).1
      exact absurd (heq ▸ List.mem_cons_self) hc
    · exact ih (fun hca => hc (List.mem_cons_of_mem _ hca)) inside

/-- A phrase does not reach into a text that lacks its last character. -/
theorem infix_of_infix_append_right (last : phrase.getLast? = some c) (hc : c ∉ b)
    (h : phrase <:+: a ++ b) : phrase <:+: a := by
  rw [← List.reverse_infix] at h ⊢
  rw [List.reverse_append] at h
  exact infix_of_infix_append_left (by simpa using last) (by simpa using hc) h

/-- A text that lacks the last character of a phrase can be put after one without it. -/
theorem mentions_append_eq_false_left {s t phrase : String} (h : mentions s phrase = false)
    (last : phrase.toList.getLast? = some c) (hc : c ∉ t.toList) :
    mentions (s ++ t) phrase = false := by
  rw [Bool.eq_false_iff, Ne, mentions_iff] at h ⊢
  rw [String.toList_append]
  exact fun found => h (infix_of_infix_append_right last hc found)

/-- A text that lacks the first character of a phrase can be put before one without it. -/
theorem mentions_append_eq_false_right {s t phrase : String} (h : mentions t phrase = false)
    (head : phrase.toList.head? = some c) (hc : c ∉ s.toList) :
    mentions (s ++ t) phrase = false := by
  rw [Bool.eq_false_iff, Ne, mentions_iff] at h ⊢
  rw [String.toList_append]
  exact fun found => h (infix_of_infix_append_left head hc found)

/-- A separator that shares no character with a phrase keeps it from being made by joining. -/
theorem exists_infix_of_infix_intercalate {ls : List (List Char)} (ne : phrase ≠ [])
    (hsep : sep ≠ []) (disjoint : ∀ c ∈ sep, c ∉ phrase) (h : phrase <:+: sep.intercalate ls) :
    ∃ l ∈ ls, phrase <:+: l := by
  obtain ⟨c, sep, rfl⟩ := List.exists_cons_of_ne_nil hsep
  have hc : c ∉ phrase := disjoint c List.mem_cons_self
  obtain ⟨d, rest, rfl⟩ := List.exists_cons_of_ne_nil ne
  have hd : d ∉ sep := fun hds => disjoint d (List.mem_cons_of_mem _ hds) List.mem_cons_self
  induction ls with
  | nil => exact absurd (List.infix_nil.mp h) ne
  | cons l ls ih =>
    cases ls with
    | nil => exact ⟨l, List.mem_cons_self, by simpa using h⟩
    | cons m ls =>
      rw [List.intercalate_cons_cons, List.append_assoc, List.cons_append] at h
      rcases (infix_append_cons_iff hc).mp h with here | later
      · exact ⟨l, List.mem_cons_self, here⟩
      · obtain ⟨k, hk, found⟩ := ih (infix_of_infix_append_left rfl hd later)
        exact ⟨k, List.mem_cons_of_mem _ hk, found⟩

/-! ### Taking a phrase out -/

theorem toList_removeAll (s phrase : String) :
    (removeAll s phrase).toList = removeFrom phrase.toList 0 s.toList :=
  String.toList_ofList

theorem removeFrom_cons (h : ¬ phrase <+: c :: a) :
    removeFrom phrase 0 (c :: a) = c :: removeFrom phrase 0 a := by
  rw [← List.isPrefixOf_iff_prefix] at h
  rw [removeFrom, if_neg h]

theorem removeFrom_length_append (phrase a b : List Char) :
    removeFrom phrase a.length (a ++ b) = removeFrom phrase 0 b := by
  induction a with
  | nil => rfl
  | cons c a ih =>
    rw [List.length_cons, List.cons_append, removeFrom]
    exact ih

theorem removeFrom_of_not_infix (h : ¬ phrase <:+: a) : removeFrom phrase 0 a = a := by
  induction a with
  | nil => rfl
  | cons c a ih =>
    rw [List.infix_cons_iff, not_or] at h
    rw [removeFrom_cons h.1, ih h.2]

theorem removeFrom_append_cons (ne : phrase ≠ []) (h : c ∉ phrase) {skip : Nat}
    (hskip : skip ≤ a.length) :
    removeFrom phrase skip (a ++ c :: b)
      = removeFrom phrase skip a ++ c :: removeFrom phrase 0 b := by
  induction a generalizing skip with
  | nil =>
    obtain rfl : skip = 0 := Nat.le_zero.mp hskip
    have start : phrase.isPrefixOf (c :: b) = false := by
      rw [Bool.eq_false_iff, Ne, List.isPrefixOf_iff_prefix]
      intro hpre
      exact ne (List.prefix_nil.mp ((prefix_append_cons_iff (a := []) h).mp hpre))
    simp [removeFrom, start]
  | cons x a ih =>
    cases skip with
    | succ skip => exact ih (Nat.le_of_succ_le_succ hskip)
    | zero =>
      -- An occurrence that starts here ends before `c`, so both sides skip it alike.
      have start : phrase.isPrefixOf (x :: (a ++ c :: b)) = phrase.isPrefixOf (x :: a) := by
        rw [Bool.eq_iff_iff, List.isPrefixOf_iff_prefix, List.isPrefixOf_iff_prefix]
        exact prefix_append_cons_iff (a := x :: a) h
      simp only [List.cons_append, removeFrom, start]
      split
      · rename_i hpre
        have hlen := (List.isPrefixOf_iff_prefix.mp hpre).length_le
        rw [List.length_cons] at hlen
        exact ih (by omega)
      · rw [ih (Nat.zero_le _), List.cons_append]

/-- A last character in which the phrase does not end is never taken out. -/
theorem removeFrom_concat (last : ∃ e ∈ phrase.getLast?, e ≠ d) {skip : Nat}
    (hskip : skip ≤ a.length) :
    removeFrom phrase skip (a ++ [d]) = removeFrom phrase skip a ++ [d] := by
  have whole : ∀ l, phrase <+: l ++ [d] ↔ phrase <+: l := by
    intro l
    rw [List.prefix_concat_iff]
    refine ⟨fun h => h.resolve_left ?_, Or.inr⟩
    rintro rfl
    simp at last
  induction a generalizing skip with
  | nil =>
    obtain rfl : skip = 0 := Nat.le_zero.mp hskip
    have start : phrase.isPrefixOf [d] = false := by
      rw [Bool.eq_false_iff, Ne, List.isPrefixOf_iff_prefix]
      intro hpre
      have hnil := List.prefix_nil.mp ((whole []).mp hpre)
      simp [hnil] at last
    simp [removeFrom, start]
  | cons x a ih =>
    cases skip with
    | succ skip => exact ih (Nat.le_of_succ_le_succ hskip)
    | zero =>
      have start : phrase.isPrefixOf (x :: (a ++ [d])) = phrase.isPrefixOf (x :: a) := by
        rw [Bool.eq_iff_iff, List.isPrefixOf_iff_prefix, List.isPrefixOf_iff_prefix]
        exact whole (x :: a)
      simp only [List.cons_append, removeFrom, start]
      split
      · rename_i hpre
        have hlen := (List.isPrefixOf_iff_prefix.mp hpre).length_le
        rw [List.length_cons] at hlen
        exact ih (by omega)
      · rw [ih (Nat.zero_le _), List.cons_append]

theorem length_removeFrom_le (phrase : List Char) (skip : Nat) (a : List Char) :
    (removeFrom phrase skip a).length ≤ a.length := by
  induction a generalizing skip with
  | nil => simp [removeFrom]
  | cons x a ih =>
    cases skip with
    | succ skip => exact (ih skip).trans (Nat.le_succ _)
    | zero =>
      rw [removeFrom]
      split
      · exact (ih _).trans (Nat.le_succ _)
      · exact Nat.succ_le_succ (ih 0)

/-- A text that a phrase is taken out of gets shorter. -/
theorem length_removeFrom_lt (ne : phrase ≠ []) (h : phrase <:+: a) :
    (removeFrom phrase 0 a).length < a.length := by
  induction a with
  | nil => exact absurd (List.infix_nil.mp h) ne
  | cons x a ih =>
    rw [removeFrom]
    split
    · exact Nat.lt_succ_of_le (length_removeFrom_le phrase _ a)
    · next other =>
      rcases List.infix_cons_iff.mp h with start | later
      · exact absurd (List.isPrefixOf_iff_prefix.mpr start) other
      · exact Nat.succ_lt_succ (ih later)

theorem mem_of_mem_removeFrom {skip : Nat} (h : c ∈ removeFrom phrase skip a) : c ∈ a := by
  induction a generalizing skip with
  | nil => simp [removeFrom] at h
  | cons x a ih =>
    cases skip with
    | succ skip => exact List.mem_cons_of_mem _ (ih h)
    | zero =>
      rw [removeFrom] at h
      split at h
      · exact List.mem_cons_of_mem _ (ih h)
      · rcases List.mem_cons.mp h with rfl | later
        · exact List.mem_cons_self
        · exact List.mem_cons_of_mem _ (ih later)

end Dockerfile.Text
