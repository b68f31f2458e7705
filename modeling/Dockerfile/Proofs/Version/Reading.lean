import Mathlib.Data.List.Basic
import Dockerfile.Proofs.Version

/-!
Reading the version of a tag against writing it.

The parts that a text starts with are the longest dotted run of digits in front: they are there,
and what follows them cannot go on with another digit or part (`leadingParts_eq_iff`). Written in
decimal, a number is read back (`numeral_toDigits`), so a version that is written out with its parts
divided by points is read back from any tag that it starts.
-/

namespace Dockerfile.Version

open Text

variable {cs d suffix : List Char} {ps : List (List Char)}

/-! ### Parts -/

/-- The parts of a text, divided by points. -/
def joined (ps : List (List Char)) : List Char :=
  ['.'].intercalate ps

/-- A text that ends a version before it: it starts neither with a digit nor with a point that a
digit follows. -/
def EndsVersion (cs : List Char) : Prop :=
  (∀ c ∈ cs.head?, isDecimal c = false) ∧
    ∀ rest, cs = '.' :: rest → ∀ c ∈ rest.head?, isDecimal c = false

/-- One or more digits. -/
def IsPart (d : List Char) : Prop :=
  d ≠ [] ∧ ∀ c ∈ d, isDecimal c = true

theorem leadingParts_eq_nil_iff : leadingParts cs = [] ↔ ∀ c ∈ cs.head?, isDecimal c = false := by
  refine ⟨fun none => ?_, leadingParts_of_head⟩
  obtain ⟨d, rest, rfl, digits, stop⟩ := exists_digits_append cs
  by_cases nothing : d = []
  · simpa [nothing] using stop
  · rw [leadingParts_append nothing digits stop] at none
    cases none

theorem afterPoint_eq_nil_iff :
    afterPoint cs = [] ↔ ∀ rest, cs = '.' :: rest → ∀ c ∈ rest.head?, isDecimal c = false := by
  unfold afterPoint
  split
  · next rest => simp [leadingParts_eq_nil_iff]
  · next other => simpa using fun rest point => absurd point (other rest)

theorem leadingParts_joined (ne : ps ≠ []) (parts : ∀ d ∈ ps, IsPart d)
    (ends : EndsVersion suffix) : leadingParts (joined ps ++ suffix) = ps := by
  induction ps with
  | nil => exact absurd rfl ne
  | cons d ps ih =>
    obtain ⟨filled, digits⟩ := parts d List.mem_cons_self
    cases ps with
    | nil =>
      rw [joined, List.intercalate_singleton, leadingParts_append filled digits ends.1,
        afterPoint_eq_nil_iff.mpr ends.2]
    | cons e ps =>
      have later := ih (List.cons_ne_nil e ps) fun d hd => parts d (List.mem_cons_of_mem _ hd)
      have front : joined (d :: e :: ps) ++ suffix = d ++ '.' :: (joined (e :: ps) ++ suffix) := by
        simp [joined]
      rw [front, leadingParts_append filled digits (by simp [isDecimal_point]), afterPoint, later]

theorem exists_of_leadingParts (h : leadingParts cs = d :: ps) :
    (∀ e ∈ d :: ps, IsPart e) ∧ ∃ suffix, cs = joined (d :: ps) ++ suffix ∧ EndsVersion suffix := by
  induction ps generalizing cs d with
  | nil =>
    obtain ⟨rest, rfl, filled, digits, stop, ended⟩ := exists_of_leadingParts_eq_cons h
    exact ⟨by simpa using ⟨filled, digits⟩, rest, by simp [joined],
      stop, afterPoint_eq_nil_iff.mp ended⟩
  | cons e ps ih =>
    obtain ⟨rest, rfl, filled, digits, -, more⟩ := exists_of_leadingParts_eq_cons h
    obtain ⟨rest, rfl⟩ := exists_of_afterPoint_eq_cons more
    obtain ⟨parts, suffix, rfl, ends⟩ := ih more
    exact ⟨List.forall_mem_cons.mpr ⟨⟨filled, digits⟩, parts⟩, suffix, by simp [joined], ends⟩

/-- The parts that a text starts with are the ones in front of what ends a version. -/
theorem leadingParts_eq_iff (ne : ps ≠ []) :
    leadingParts cs = ps ↔
      (∀ d ∈ ps, IsPart d) ∧ ∃ suffix, cs = joined ps ++ suffix ∧ EndsVersion suffix := by
  constructor
  · intro h
    cases ps with
    | nil => exact absurd rfl ne
    | cons d ps => exact exists_of_leadingParts h
  · rintro ⟨parts, suffix, rfl, ends⟩
    exact leadingParts_joined ne parts ends

/-! ### Numbers -/

/-- A number written in decimal is read back. -/
theorem numeral_toDigits (n : Nat) : numeral (Nat.toDigits 10 n) = n := by
  have value : Nat.ofDigitChars 10 (Nat.toDigits 10 n) 0 = n :=
    Nat.ofDigitChars_toDigits (by decide) (by decide)
  rw [Nat.ofDigitChars_eq_foldl] at value
  refine (List.foldl_ext _ _ _ fun m c hc => ?_).trans value
  rw [digitValue?_of_isDigit (Nat.isDigit_of_mem_toDigits (by decide) (by decide) hc)]
  rfl

theorem isPart_toDigits (n : Nat) : IsPart (Nat.toDigits 10 n) :=
  ⟨Nat.toDigits_ne_nil, fun _ hc =>
    isDecimal_of_isDigit (Nat.isDigit_of_mem_toDigits (by decide) (by decide) hc)⟩

/-! ### Versions -/

/-- The text of a version: its parts in decimal, divided by points. -/
def dotted (ns : List Nat) : String :=
  ".".intercalate (ns.map toString)

theorem toList_dotted (ns : List Nat) : (dotted ns).toList = joined (ns.map (Nat.toDigits 10)) := by
  simp [dotted, joined, Function.comp_def]

theorem leadingParts_dotted {ns : List Nat} (ne : ns ≠ []) {suffix : String}
    (ends : EndsVersion suffix.toList) :
    leadingParts (dotted ns ++ suffix).toList = ns.map (Nat.toDigits 10) := by
  have parts : ∀ d ∈ ns.map (Nat.toDigits 10), IsPart d :=
    List.forall_mem_map.mpr fun n _ => isPart_toDigits n
  rw [String.toList_append, toList_dotted]
  exact (leadingParts_eq_iff (by simpa using ne)).mpr ⟨parts, _, rfl, ends⟩

theorem leading?_dotted {ns : List Nat} (ne : ns ≠ [])
    (short : ∀ n ∈ ns, (toString n).length ≤ Fault.maxDigits) {suffix : String}
    (ends : EndsVersion suffix.toList) :
    leading? (dotted ns ++ suffix) = .ok (some (ns.map fun n : Nat => (n : Int))) := by
  have parts := leadingParts_dotted ne ends
  rw [leading?_eq_some_iff, Readable, parts]
  refine ⟨by simpa using ne, List.forall_mem_map.mpr fun n hn => ?_, ?_⟩
  · simpa [← String.length_toList] using short n hn
  · simp only [ofParts, List.map_map, Function.comp_def, numeral_toDigits]

theorem leading?_eq_none_iff {tag : String} :
    leading? tag = .ok none ↔ ∀ c ∈ tag.toList.head?, isDecimal c = false := by
  rw [← leadingParts_eq_nil_iff]
  unfold leading?
  split
  · next none => simp [none]
  · next ps ne => simpa [map_eq_ok_iff] using ne

/-- A version written out, with numbers short enough to be read, is read back from a tag that it
starts, if what follows ends it. A tag has no version exactly if it does not start with a digit. And
the version of a tag takes all of the tag that it can: what follows its digits ends it. -/
theorem leading?_inverts_dotted :
    (∀ (ns : List Nat) (suffix : String), ns ≠ [] →
      (∀ n ∈ ns, (toString n).length ≤ Fault.maxDigits) → EndsVersion suffix.toList →
      leading? (dotted ns ++ suffix) = .ok (some (ns.map fun n : Nat => (n : Int)))) ∧
    (∀ tag : String, leading? tag = .ok none ↔ ∀ c ∈ tag.toList.head?, isDecimal c = false) ∧
    (∀ (tag : String) (v : Version), leading? tag = .ok (some v) →
      ∃ ps suffix, tag.toList = joined ps ++ suffix ∧ ps ≠ [] ∧ (∀ d ∈ ps, IsPart d) ∧
        EndsVersion suffix ∧ ofParts ps = v) := by
  refine ⟨fun ns suffix ne short ends => leading?_dotted ne short ends,
    fun tag => leading?_eq_none_iff, fun tag v found => ?_⟩
  obtain ⟨ne, -, same⟩ := leading?_eq_some_iff.mp found
  obtain ⟨parts, suffix, split, ends⟩ := (leadingParts_eq_iff ne).mp rfl
  exact ⟨_, suffix, split, ne, parts, ends, same⟩

theorem leading?_inverts_dotted_superscript :
    leading? (dotted [3, 0, 12] ++ ".²-slim") = .ok (some [3, 0, 12]) ∧
      leading? "²" = .ok none := by
  have noDigit : isDecimal '²' = false := by decide
  have ends : EndsVersion ".²-slim".toList := by simp [EndsVersion, isDecimal_point, noDigit]
  exact ⟨leading?_inverts_dotted.1 [3, 0, 12] ".²-slim" (by decide) (by decide) ends,
    (leading?_inverts_dotted.2.1 "²").mpr (by simp [noDigit])⟩

end Dockerfile.Version
