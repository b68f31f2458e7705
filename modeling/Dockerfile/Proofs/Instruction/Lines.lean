import Dockerfile.Instruction
import Dockerfile.Proofs.Text.Layout

/-!
Logical lines.

A physical line is blank, continues or closes a logical line (`trim_cases`), and for each of the
three one equation says what `gather` does with it. From these follow both directions:

* the logical lines of continued texts, one after another, are those texts folded
  (`forall₂_gather_intercalate`);
* a logical line of any text stands on one line and has no blank at either end, nor a backslash at
  the right one (`plain_of_mem_gather`), if no continuation starts with a lone backslash (`Headed`).
-/

namespace Dockerfile.LogicalLine

open Text

variable {pending : Option Pending} {number : Nat} {physical v : List Char}
  {rest : List (List Char)}

/-! ### One physical line -/

theorem trim_cases (physical : List Char) :
    trim physical = [] ∨ (trim physical).getLast? = some '\\' ∨ Closes physical := by
  by_cases nothing : trim physical = []
  · exact Or.inl nothing
  · have hlast := List.getLast?_eq_some_getLast nothing
    by_cases hc : (trim physical).getLast nothing = '\\'
    · exact Or.inr (Or.inl (hc ▸ hlast))
    · exact Or.inr (Or.inr ⟨_, hlast, hc⟩)

theorem trim_ne_nil_of_getLast? (h : (trim physical).getLast? = some '\\') :
    trim physical ≠ [] := by
  intro hnil
  simp [hnil] at h

theorem gather_blank (h : trim physical = []) :
    gather pending number (physical :: rest) = gather pending (number + 1) rest := by
  simp [gather, h]

theorem gather_continues (h : (trim physical).getLast? = some '\\') :
    gather pending number (physical :: rest)
      = gather (some (Pending.push number (trim (trim physical).dropLast) pending)) (number + 1)
          rest := by
  simp [gather, trim_ne_nil_of_getLast? h, h]

theorem gather_closes (h : Closes physical) :
    gather pending number (physical :: rest)
      = Pending.complete number (trim physical) pending :: gather none (number + 1) rest := by
  have ne := h.trim_ne_nil
  obtain ⟨c, hc, hne⟩ := h
  simp [gather, ne, Option.mem_def.mp hc, hne]

/-- The pieces of the line that is not complete yet. -/
def Pending.before : Option Pending → List (List Char)
  | none => []
  | some p => p.pieces

theorem Pending.pieces_push (number : Nat) (piece : List Char) (pending : Option Pending) :
    (Pending.push number piece pending).pieces = Pending.before pending ++ [piece] := by
  cases pending <;> rfl

theorem Pending.chars_complete (number : Nat) (piece : List Char) (pending : Option Pending) :
    (Pending.complete number piece pending).chars
      = [' '].intercalate (Pending.before pending ++ [piece]) := by
  cases pending with
  | none => exact List.intercalate_singleton.symm
  | some p => rfl

/-! ### Continued texts -/

theorem exists_gather_continued (h : Continued Closes v) (pending : Option Pending) (number : Nat)
    (more : List (List Char)) :
    ∃ line next, gather pending number (v.splitOn '\n' ++ more) = line :: gather none next more ∧
      line.chars = [' '].intercalate (Pending.before pending ++ pieces v) := by
  induction h generalizing pending number with
  | @last l one closes =>
    refine ⟨Pending.complete number (trim l) pending, number + 1, ?_, ?_⟩
    · rw [List.splitOn_eq_singleton one.lf_notMem, List.singleton_append, gather_closes closes]
    · rw [Pending.chars_complete, pieces_of_oneLine one]
  | @next l rest one _ ih =>
    have htrim : trim (l ++ ['\\']) = l.dropWhile isBlank ++ ['\\'] :=
      trim_concat l isBlank_backslash
    have continues : (trim (l ++ ['\\'])).getLast? = some '\\' := by simp [htrim]
    have hpiece : trim (trim (l ++ ['\\'])).dropLast = trim l := by
      rw [htrim, List.dropLast_concat, trim_dropWhile]
    obtain ⟨logical, next, hgather, hchars⟩ :=
      ih (some (Pending.push number (trim l) pending)) (number + 1)
    refine ⟨logical, next, ?_, ?_⟩
    · rw [splitOn_next one, List.cons_append, gather_continues continues, hpiece, hgather]
    · rw [hchars, Pending.before, Pending.pieces_push, pieces_next one, List.append_assoc,
        List.singleton_append]

/-- Continued texts that stand below each other are one logical line each. -/
theorem forall₂_gather_intercalate {texts : List (List Char)}
    (h : ∀ t ∈ texts, Continued Closes t) (number : Nat) :
    List.Forall₂ (fun line t => line.chars = [' '].intercalate (pieces t))
      (gather none number (linesOf (['\n'].intercalate texts))) texts := by
  induction texts generalizing number with
  | nil => exact .nil
  | cons t texts ih =>
    have ht : Continued Closes t := h t List.mem_cons_self
    cases texts with
    | nil =>
      obtain ⟨line, next, hgather, hchars⟩ := exists_gather_continued ht none number []
      rw [List.append_nil] at hgather
      rw [List.intercalate_singleton, linesOf_continued ht fun _ hl => hl.ne_nil, hgather]
      exact .cons hchars .nil
    | cons u more =>
      obtain ⟨line, next, hgather, hchars⟩ := exists_gather_continued ht none number
        (linesOf (['\n'].intercalate (u :: more)))
      rw [List.intercalate_cons_cons, List.append_assoc, List.singleton_append,
        linesOf_continued_append ht, hgather]
      exact .cons hchars (ih (fun w hw => h w (List.mem_cons_of_mem _ hw)) next)

/-! ### Any text -/

/-- Whether a line is being continued after a physical one. -/
def continues (within : Bool) (physical : List Char) : Bool :=
  if trim physical = [] then within else (trim physical).getLast? = some '\\'

theorem continues_of_blank {within : Bool} (h : trim physical = []) :
    continues within physical = within :=
  if_pos h

theorem continues_of_last {within : Bool} (h : (trim physical).getLast? = some '\\') :
    continues within physical = true := by
  rw [continues, if_neg (trim_ne_nil_of_getLast? h), decide_eq_true h]

theorem continues_of_closes {within : Bool} (h : Closes physical) :
    continues within physical = false := by
  have ne := h.trim_ne_nil
  obtain ⟨c, hc, hne⟩ := h
  simp [continues, ne, Option.mem_def.mp hc, hne]

/-- No continuation starts with a line that is a lone backslash; `within` says whether a line is
being continued before the first one. -/
def Headed (within : Bool) : List (List Char) → Prop
  | [] => True
  | physical :: rest =>
    (trim physical = ['\\'] → within = true) ∧ Headed (continues within physical) rest

instance decidableHeaded (within : Bool) :
    (physicals : List (List Char)) → Decidable (Headed within physicals)
  | [] => inferInstanceAs (Decidable True)
  | physical :: rest =>
    have := decidableHeaded (continues within physical) rest
    inferInstanceAs (Decidable (_ ∧ _))

/-- The pieces gathered so far, joined, stand on one line that starts with no blank. -/
def Pending.Started : Option Pending → Prop
  | none => True
  | some p => OneLine ([' '].intercalate p.pieces) ∧
      ∃ c ∈ ([' '].intercalate p.pieces).head?, isBlank c = false

theorem intercalate_concat {pieces : List (List Char)} (ne : pieces ≠ []) (last : List Char) :
    [' '].intercalate (pieces ++ [last]) = [' '].intercalate pieces ++ ' ' :: last := by
  induction pieces with
  | nil => exact absurd rfl ne
  | cons piece pieces ih =>
    cases pieces with
    | nil => simp [List.intercalate_cons_cons, List.intercalate_singleton]
    | cons next pieces =>
      rw [List.cons_append, List.intercalate_cons_of_ne_nil (by simp), ih (by simp),
        List.intercalate_cons_cons]
      simp

theorem Pending.Started.pieces_ne_nil {p : Pending} (h : Pending.Started (some p)) :
    p.pieces ≠ [] := by
  obtain ⟨-, c, hc, -⟩ := h
  intro hnil
  simp [hnil] at hc

theorem Pending.started_push {piece : List Char} (h : Pending.Started pending)
    (one : OneLine piece) (head : pending = none → ∃ c ∈ piece.head?, isBlank c = false) :
    Pending.Started (some (Pending.push number piece pending)) := by
  cases pending with
  | none =>
    rw [Pending.Started, Pending.push, List.intercalate_singleton]
    exact ⟨one, head rfl⟩
  | some p =>
    have ne : p.pieces ≠ [] := h.pieces_ne_nil
    obtain ⟨line, c, hc, blank⟩ := h
    rw [Pending.Started, Pending.push, intercalate_concat ne]
    rw [List.append_cons]
    exact ⟨line.space.append one, c, by simp [Option.mem_def.mp hc], blank⟩

theorem Pending.plain_complete {piece : List Char} (h : Pending.Started pending)
    (plain : Plain piece) : Plain (Pending.complete number piece pending).chars := by
  cases pending with
  | none => exact plain
  | some p =>
    have ne : p.pieces ≠ [] := h.pieces_ne_nil
    obtain ⟨line, c, hc, blank⟩ := h
    obtain ⟨d, hd, last⟩ := plain.last
    rw [Pending.complete, intercalate_concat ne, List.append_cons]
    refine ⟨line.space.append plain.oneLine, ⟨c, ?_, blank⟩, d, ?_, last⟩
    · simp [Option.mem_def.mp hc]
    · simp [List.getLast?_cons, Option.mem_def.mp hd]

/-- A line that goes on has something before its backslash, unless that stands alone. -/
theorem exists_head_piece (h : (trim physical).getLast? = some '\\')
    (alone : trim physical ≠ ['\\']) :
    ∃ c ∈ (trim (trim physical).dropLast).head?, isBlank c = false := by
  obtain ⟨u, heq⟩ := List.getLast?_eq_some_iff.mp h
  have ends := trimmed_trim physical
  rw [heq, List.dropLast_concat]
  cases u with
  | nil => exact absurd heq alone
  | cons c u =>
    have first : isBlank c = false := ends.head c (by simp [heq])
    have ne : trim (c :: u) ≠ [] := by
      intro hnil
      have := trim_eq_nil_iff.mp hnil c List.mem_cons_self
      simp [first] at this
    obtain ⟨d, rest, htrim⟩ := List.exists_cons_of_ne_nil ne
    exact ⟨d, by simp [htrim], (trimmed_trim (c :: u)).head d (by simp [htrim])⟩

theorem plain_of_mem_gather {line : LogicalLine} {physicals : List (List Char)}
    (h : line ∈ gather pending number physicals) (lines : ∀ l ∈ physicals, OneLine l)
    (headed : Headed pending.isSome physicals) (started : Pending.Started pending) :
    Plain line.chars := by
  induction physicals generalizing pending number with
  | nil => simp [gather] at h
  | cons physical rest ih =>
    have one : OneLine physical := lines physical List.mem_cons_self
    have later : ∀ l ∈ rest, OneLine l := fun l hl => lines l (List.mem_cons_of_mem _ hl)
    obtain ⟨alone, headed⟩ := headed
    rcases trim_cases physical with hblank | hlast | hclose
    · rw [gather_blank hblank] at h
      rw [continues_of_blank hblank] at headed
      exact ih h later headed started
    · rw [gather_continues hlast] at h
      rw [continues_of_last hlast] at headed
      have cut : (trim physical).dropLast <:+: physical :=
        (List.dropLast_prefix _).isInfix.trans (trim_isInfix physical)
      refine ih h later headed (Pending.started_push started ?_ ?_)
      · exact one.part ((trim_isInfix _).trans cut)
      · rintro rfl
        exact exists_head_piece hlast fun heq => absurd (alone heq) (by decide)
    · rw [gather_closes hclose] at h
      rw [continues_of_closes hclose] at headed
      rcases List.mem_cons.mp h with rfl | h
      · exact Pending.plain_complete started (plain_trim one hclose)
      · exact ih h later headed trivial

theorem plain_of_mem_ofText {line : LogicalLine} {content : String}
    (headed : Headed false (linesOf content.toList)) (h : line ∈ ofText content) :
    Plain line.chars :=
  plain_of_mem_gather h (fun _ hl => oneLine_of_mem_linesOf hl) headed trivial

end Dockerfile.LogicalLine

namespace Dockerfile

theorem toList_render (xs : List Instruction) :
    (render xs).toList = ['\n'].intercalate (xs.map fun x => x.text.toList) := by
  simp [render, String.toList_intercalate, Function.comp_def]

/-- An instruction of a text is read from one of its logical lines. -/
theorem exists_logicalLine_of_mem_parse {content : String} {x : Instruction}
    (h : x ∈ parse content) : ∃ l ∈ LogicalLine.ofText content, l.read = .ok x := by
  obtain ⟨l, hl, hread⟩ := List.mem_filterMap.mp h
  refine ⟨l, hl, ?_⟩
  cases hx : l.read with
  | error fault => simp [hx, Except.toOption] at hread
  | ok z => simpa [hx, Except.toOption] using hread

end Dockerfile
