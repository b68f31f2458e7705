import Dockerfile.Proofs.Instruction.Groups

/-!
Comments within an instruction.

The logical lines of a text that is cut anywhere are those of the part before the cut, and those of
the part after it with the pieces that were pending at the cut put before the first one
(`texts_append`). So a comment that is inserted after a line that goes on completes what is pending:
it becomes the end of the instruction, and the lines that would have completed it are read on their
own. Where a statement is pending, the statements stay the same only if the same comment follows
already (`statements_insert_comment`).
-/

namespace Dockerfile.LogicalLine

open Text

/-! ### A text cut in two -/

/-- The characters of the logical lines of physical ones. -/
def texts (physicals : List (List Char)) : List (List Char) :=
  (gather none 1 physicals).map LogicalLine.chars

/-- The texts, the first of which completes some pieces. -/
def completeFirst (pieces : List (List Char)) : List (List Char) → List (List Char)
  | [] => []
  | text :: more => [' '].intercalate (pieces ++ [text]) :: more

theorem completeFirst_nil (ts : List (List Char)) : completeFirst [] ts = ts := by
  cases ts with
  | nil => rfl
  | cons text more => rw [completeFirst, List.nil_append, List.intercalate_singleton]

theorem intercalate_append_pair (pieces : List (List Char)) (piece text : List Char) :
    [' '].intercalate (pieces ++ [piece] ++ [text])
      = [' '].intercalate (pieces ++ [[' '].intercalate ([piece] ++ [text])]) := by
  have pair : [' '].intercalate ([piece] ++ [text]) = piece ++ ' ' :: text := by
    rw [intercalate_concat (by simp), List.intercalate_singleton]
  rw [intercalate_concat (by simp), pair]
  by_cases none : pieces = []
  · simp [none]
  · rw [intercalate_concat none, intercalate_concat none]
    simp

theorem completeFirst_concat (pieces ts : List (List Char)) (piece : List Char) :
    completeFirst (pieces ++ [piece]) ts = completeFirst pieces (completeFirst [piece] ts) := by
  cases ts with
  | nil => rfl
  | cons text more =>
    rw [completeFirst, completeFirst, completeFirst, intercalate_append_pair]

/-- What is pending goes before the first logical line; neither it nor the numbers of the lines
matter for the others. -/
theorem map_chars_gather (pending : Option Pending) (number : Nat) (physicals : List (List Char)) :
    (gather pending number physicals).map LogicalLine.chars
      = completeFirst (Pending.before pending) (texts physicals) := by
  rw [texts]
  -- The number that the second list starts from plays no part either.
  generalize hstart : 1 = start
  clear hstart
  induction physicals generalizing pending number start with
  | nil => rfl
  | cons physical physicals ih =>
    rcases trim_cases physical with hblank | hlast | hclose
    · rw [gather_blank hblank, gather_blank hblank, ih pending (number + 1) (start + 1)]
    · have here := ih (Pending.push number (trim (trim physical).dropLast) pending) (number + 1)
      have there := ih (Pending.push start (trim (trim physical).dropLast) none) (start + 1)
      rw [gather_continues hlast, gather_continues hlast, here (start + 1), there (start + 1),
        Pending.before, Pending.before, Pending.pieces_push, Pending.pieces_push,
        completeFirst_concat]
      rfl
    · have later := ih none (number + 1) (start + 1)
      rw [Pending.before, completeFirst_nil] at later
      rw [gather_closes hclose, gather_closes hclose, List.map_cons, List.map_cons,
        Pending.chars_complete, later]
      rfl

theorem Pending.before_ofLines (opened : List Written) :
    Pending.before (Pending.ofLines opened) = opened.map Written.piece := by
  cases opened <;> rfl

/-- The physical lines that stand before a cut leave their unfinished ones pending. -/
theorem gather_append {opened : List Written} (goesOn : ∀ l ∈ opened, l.continues = true)
    (number : Nat) (before after : List (List Char)) :
    gather (Pending.ofLines opened) number (before ++ after)
      = gather (Pending.ofLines opened) number before
        ++ gather (Pending.ofLines (unfinished (opened ++ written number before)))
          (number + before.length) after := by
  induction before generalizing opened number with
  | nil => simp [gather, written, unfinished_eq_self goesOn]
  | cons physical before ih =>
    have shift : number + (physical :: before).length = number + 1 + before.length := by
      rw [List.length_cons]
      omega
    rw [List.cons_append, shift]
    rcases trim_cases physical with hblank | hlast | hclose
    · rw [gather_blank hblank, gather_blank hblank, written_blank hblank]
      exact ih goesOn (number + 1)
    · rw [gather_ofLines_continues hlast, gather_ofLines_continues hlast,
        written_cons (trim_ne_nil_of_getLast? hlast), List.append_cons opened _ (written _ _)]
      exact ih (goesOn_concat goesOn hlast number) (number + 1)
    · have ends := Written.continues_of_closes hclose number
      have nothing : ∀ l ∈ ([] : List Written), l.continues = true := by simp
      have later := ih nothing (number + 1)
      rw [List.nil_append] at later
      rw [gather_closes hclose, gather_closes hclose, written_cons hclose.trim_ne_nil,
        unfinished_append_cons ends, List.cons_append]
      exact congrArg _ later

theorem texts_append (before after : List (List Char)) :
    texts (before ++ after)
      = texts before
        ++ completeFirst ((unfinished (written 1 before)).map Written.piece) (texts after) := by
  have nothing : ∀ l ∈ ([] : List Written), l.continues = true := by simp
  have halves := gather_append nothing 1 before after
  rw [List.nil_append] at halves
  rw [← Pending.before_ofLines, ← map_chars_gather _ (1 + before.length), texts, texts,
    ← List.map_append]
  exact congrArg _ halves

theorem texts_closes {physical : List Char} (h : Closes physical) (physicals : List (List Char)) :
    texts (physical :: physicals) = trim physical :: texts physicals := by
  have later := map_chars_gather none 2 physicals
  rw [Pending.before, completeFirst_nil] at later
  rw [← later, texts, gather_closes h, List.map_cons]
  rfl

theorem written_append (number : Nat) (before after : List (List Char)) :
    written number (before ++ after)
      = written number before ++ written (number + before.length) after := by
  rw [written, List.zipIdx_append, List.map_append, List.filter_append]
  rfl

theorem unfinished_ne_nil {line : List Char} (h : (trim line).getLast? = some '\\')
    (before : List (List Char)) : unfinished (written 1 (before ++ [line])) ≠ [] := by
  have last : written (1 + before.length) [line] = [⟨1 + before.length, trim line⟩] :=
    written_cons (trim_ne_nil_of_getLast? h)
  rw [written_append, last, unfinished,
    List.rtakeWhile_concat_pos _ _ _ (Written.continues_iff.mpr h)]
  simp

/-! ### Statements -/

/-- The keyword and the value of a text, unless that is a comment. -/
def statement? (text : List Char) : Option (Keyword × String) :=
  (Instruction.parts? (String.ofList text)).filter (·.1 != .comment)

/-- The keywords and values of the instructions that are no comments. -/
def statements (xs : List Instruction) : List (Keyword × String) :=
  (xs.filter (·.keyword != .comment)).map fun x => (x.keyword, x.value)

theorem statement?_eq_some_iff {text : List Char} {keyword : Keyword} {value : String} :
    statement? text = some (keyword, value) ↔
      Instruction.parts? (String.ofList text) = some (keyword, value) ∧ keyword ≠ .comment := by
  rw [statement?, Option.filter_eq_some_iff, bne_iff_ne]

theorem statement?_comment {text : List Char} (h : text.head? = some '#') :
    statement? text = none := by
  obtain ⟨rest, rfl⟩ := List.head?_eq_some_iff.mp h
  rw [statement?, Instruction.parts?_comment String.toList_ofList]
  rfl

/-- A statement goes on with its value. -/
theorem statement?_append {text more : List Char} {keyword : Keyword} {value : String}
    (h : statement? text = some (keyword, value)) :
    statement? (text ++ ' ' :: more)
      = some (keyword, String.ofList ((value.toList ++ ' ' :: more).dropWhile isBlank)) := by
  have head : text.head? ≠ some '#' := by
    intro hash
    cases (statement?_comment hash).symm.trans h
  obtain ⟨hparts, ne⟩ := statement?_eq_some_iff.mp h
  refine statement?_eq_some_iff.mpr ⟨?_, ne⟩
  exact Instruction.parts?_append hparts head (by simp [isBlank_space])

theorem statements_cons_comment {x : Instruction} (h : x.keyword = .comment)
    (xs : List Instruction) : statements (x :: xs) = statements xs := by
  simp [statements, h]

theorem statements_cons {x : Instruction} (h : x.keyword ≠ .comment) (xs : List Instruction) :
    statements (x :: xs) = (x.keyword, x.value) :: statements xs := by
  simp [statements, h]

theorem statements_parse (content : String) :
    statements (parse content) = (texts (linesOf content.toList)).filterMap statement? := by
  rw [parse, texts, ofText]
  generalize gather none 1 (linesOf content.toList) = ls
  induction ls with
  | nil => rfl
  | cons l ls ih =>
    rw [List.map_cons, List.filterMap_cons, List.filterMap_cons, read, Instruction.read_eq]
    cases hparts : Instruction.parts? (String.ofList l.chars) with
    | none =>
      have nothing : statement? l.chars = none := by simp [statement?, hparts]
      rw [nothing]
      exact ih
    | some parts =>
      obtain ⟨keyword, value⟩ := parts
      by_cases hk : keyword = .comment
      · have nothing : statement? l.chars = none := by simp [statement?, hparts, hk]
        rw [nothing]
        exact (statements_cons_comment hk _).trans ih
      · rw [statement?_eq_some_iff.mpr ⟨hparts, hk⟩]
        exact (statements_cons hk _).trans (congrArg _ ih)

/-- The value of a statement does not start with a blank. -/
theorem head_value {text : List Char} {keyword : Keyword} {value : String}
    (h : statement? text = some (keyword, value)) : ∀ c ∈ value.toList.head?, isBlank c = false := by
  obtain ⟨hparts, -⟩ := statement?_eq_some_iff.mp h
  rcases Instruction.value_of_parts? hparts with ⟨rest, rfl, -⟩ | ⟨rest, -, hvalue⟩
  · cases (statement?_comment rfl).symm.trans h
  · rw [hvalue]
    exact head_dropWhile_isBlank rest

/-- What follows a value and a blank can be told from the whole, unless there is no value. -/
theorem dropWhile_append_eq_iff {v a b : List Char} (hv : ∀ c ∈ v.head?, isBlank c = false)
    (hb : ∀ c ∈ b.head?, isBlank c = false) :
    (v ++ ' ' :: b).dropWhile isBlank = (v ++ ' ' :: a).dropWhile isBlank ↔
      a = b ∨ v = [] ∧ a.dropWhile isBlank = b := by
  cases v with
  | nil =>
    have dropped (cs : List Char) : (' ' :: cs).dropWhile isBlank = cs.dropWhile isBlank := by
      rw [List.dropWhile_cons_of_pos isBlank_space]
    rw [List.nil_append, List.nil_append, dropped, dropped, dropWhile_isBlank_eq_self hb]
    constructor
    · intro same
      exact Or.inr ⟨rfl, same.symm⟩
    · rintro (rfl | ⟨-, same⟩)
      · rw [dropWhile_isBlank_eq_self hb]
      · exact same.symm
  | cons c v =>
    have first := hv c rfl
    rw [List.cons_append, List.cons_append, List.dropWhile_cons_of_neg (by simp [first]),
      List.dropWhile_cons_of_neg (by simp [first])]
    simp [eq_comm]

/-! ### An inserted comment -/

section Insert

variable {before after : List (List Char)} {line comment : List Char}

theorem texts_insert (closes : Closes comment) :
    texts (before ++ line :: comment :: after)
      = texts (before ++ [line])
        ++ [' '].intercalate ((unfinished (written 1 (before ++ [line]))).map Written.piece
          ++ [trim comment]) :: texts after := by
  rw [List.append_cons, texts_append, texts_closes closes, completeFirst]

/-- What pending pieces write when a text completes them. -/
def completed (pieces : List (List Char)) (text : List Char) : Option (Keyword × String) :=
  statement? ([' '].intercalate (pieces ++ [text]))

theorem filterMap_statement? (ts : List (List Char)) :
    ts.filterMap statement?
      = (ts.head?.bind statement?).toList ++ ts.tail.filterMap statement? := by
  cases ts with
  | nil => rfl
  | cons text more => cases h : statement? text <;> simp [h]

theorem filterMap_completeFirst (pieces ts : List (List Char)) :
    (completeFirst pieces ts).filterMap statement?
      = (ts.head?.bind (completed pieces)).toList ++ ts.tail.filterMap statement? := by
  cases ts with
  | nil => rfl
  | cons text more =>
    rw [completeFirst, filterMap_statement?]
    rfl

theorem toList_append_toList_eq_iff {α : Type} {a b c : Option α} :
    a.toList ++ b.toList = c.toList ↔ b = none ∧ a = c ∨ a = none ∧ b = c := by
  cases a <;> cases b <;> cases c <;> simp

/-- A comment that completes what is pending leaves the statements as they are in two cases: the text
that would have completed it is no statement and would have made the same of it, or the comment makes
no statement of it and the text is the same statement on its own. -/
theorem filterMap_complete_eq_iff {done pieces ts : List (List Char)} :
    (done ++ [' '].intercalate (pieces ++ [comment]) :: ts).filterMap statement?
        = (done ++ completeFirst pieces ts).filterMap statement? ↔
      ts.head?.bind statement? = none ∧
          completed pieces comment = ts.head?.bind (completed pieces) ∨
        completed pieces comment = none ∧
          ts.head?.bind statement? = ts.head?.bind (completed pieces) := by
  have first : ([' '].intercalate (pieces ++ [comment]) :: ts).filterMap statement?
      = (completed pieces comment).toList ++ ts.filterMap statement? :=
    filterMap_statement? _
  rw [List.filterMap_append, List.filterMap_append, List.append_cancel_left_eq, first,
    filterMap_statement? ts, filterMap_completeFirst, ← List.append_assoc,
    List.append_cancel_right_eq, toList_append_toList_eq_iff]

/-- Where a statement is pending, the first of the two cases is that the comment is there already. -/
theorem complete_eq_iff_of_pending {pieces : List (List Char)} {next? : Option (List Char)}
    {keyword : Keyword} {value : String} (ne : pieces ≠ []) (hash : comment.head? = some '#')
    (pending : statement? ([' '].intercalate pieces) = some (keyword, value)) :
    (next?.bind statement? = none ∧ completed pieces comment = next?.bind (completed pieces) ∨
        completed pieces comment = none ∧
          next?.bind statement? = next?.bind (completed pieces)) ↔
      ∃ next, next? = some next ∧ statement? next = none ∧
        (next = comment ∨ value = "" ∧ next.dropWhile isBlank = comment) := by
  have head : ∀ c ∈ comment.head?, isBlank c = false := by
    intro c hc
    rw [hash, Option.mem_some_iff] at hc
    rw [← hc]
    decide
  have completes (text : List Char) : completed pieces text
      = some (keyword, String.ofList ((value.toList ++ ' ' :: text).dropWhile isBlank)) := by
    rw [completed, intercalate_concat ne, statement?_append pending]
  have same_iff (next : List Char) : completed pieces comment = completed pieces next ↔
      next = comment ∨ value = "" ∧ next.dropWhile isBlank = comment := by
    rw [completes, completes, Option.some_inj, Prod.mk.injEq, String.ofList_inj,
      dropWhile_append_eq_iff (head_value pending) head, String.toList_eq_nil_iff]
    simp
  have written : completed pieces comment ≠ none := by simp [completes]
  cases next? with
  | none => simp [written]
  | some next => simp [same_iff, written]

/-- A comment after a line that goes on. In the text without it, the first logical line of what
comes after completes the instruction; in the text with it the comment does, and that logical line
is read on its own. So the statements stay the same in two cases only: that logical line is no
statement and completes the instruction to the same, or the comment makes no statement of it and the
logical line is the same statement on its own. Where a statement is pending, this means that the next
logical line is that comment already; before a value, blanks may lead it. -/
theorem statements_insert_comment {content content' : String}
    (lines : linesOf content.toList = before ++ line :: after)
    (inserted : linesOf content'.toList = before ++ line :: comment :: after)
    (continues : (trim line).getLast? = some '\\')
    (hash : (trim comment).head? = some '#') (ends : (trim comment).getLast? ≠ some '\\') :
    let done := texts (before ++ [line])
    let pieces := (unfinished (written 1 (before ++ [line]))).map Written.piece
    let next? := (texts after).head?
    statements (parse content)
        = (done ++ completeFirst pieces (texts after)).filterMap statement? ∧
      statements (parse content')
        = (done ++ [' '].intercalate (pieces ++ [trim comment]) :: texts after).filterMap
          statement? ∧
      (statements (parse content') = statements (parse content) ↔
        next?.bind statement? = none ∧
            completed pieces (trim comment) = next?.bind (completed pieces) ∨
          completed pieces (trim comment) = none ∧
            next?.bind statement? = next?.bind (completed pieces)) ∧
      ∀ keyword value, statement? ([' '].intercalate pieces) = some (keyword, value) →
        (statements (parse content') = statements (parse content) ↔
          ∃ next, next? = some next ∧ statement? next = none ∧
            (next = trim comment ∨ value = "" ∧ next.dropWhile isBlank = trim comment)) := by
  intro done pieces next?
  have ne : pieces ≠ [] := by
    rw [ne_eq, List.map_eq_nil_iff]
    exact unfinished_ne_nil continues before
  have closes : Closes comment := by
    rcases trim_cases comment with hblank | hlast | hclose
    · rw [hblank] at hash
      cases hash
    · exact absurd hlast ends
    · exact hclose
  have without : statements (parse content)
      = (done ++ completeFirst pieces (texts after)).filterMap statement? := by
    rw [statements_parse, lines, List.append_cons, texts_append]
  have within : statements (parse content')
      = (done ++ [' '].intercalate (pieces ++ [trim comment]) :: texts after).filterMap
        statement? := by
    rw [statements_parse, inserted, texts_insert closes]
  have same : statements (parse content') = statements (parse content) ↔
      next?.bind statement? = none ∧
          completed pieces (trim comment) = next?.bind (completed pieces) ∨
        completed pieces (trim comment) = none ∧
          next?.bind statement? = next?.bind (completed pieces) := by
    rw [without, within]
    exact filterMap_complete_eq_iff
  exact ⟨without, within, same, fun keyword value pending =>
    same.trans (complete_eq_iff_of_pending ne hash pending)⟩

end Insert

/-- A comment between two parts of a command, which is not inert. -/
theorem statements_insert_comment_run :
    statements (parse "RUN make \\\n# tests\n && make check")
      ≠ statements (parse "RUN make \\\n && make check") := by
  obtain ⟨-, -, -, pending⟩ := @statements_insert_comment [] [" && make check".toList]
    "RUN make \\".toList "# tests".toList "RUN make \\\n && make check"
    "RUN make \\\n# tests\n && make check" (by decide +kernel) (by decide +kernel)
    (by decide +kernel) (by decide +kernel) (by decide +kernel)
  have after : texts [" && make check".toList] = ["&& make check".toList] := by decide +kernel
  rw [ne_eq, pending .run "make" (by decide +kernel), after]
  rintro ⟨next, hnext, nothing, -⟩
  cases hnext
  exact absurd nothing (by decide +kernel)

/-- The comment ends up in the value, and the rest of the instruction is none. -/
theorem comment_within_run :
    linesOf "RUN echo a \\\n && echo b".toList = ["RUN echo a \\".toList, " && echo b".toList] ∧
      linesOf "RUN echo a \\\n# note\n && echo b".toList
        = ["RUN echo a \\".toList, "# note".toList, " && echo b".toList] ∧
      statements (parse "RUN echo a \\\n && echo b") = [(.run, "echo a && echo b")] ∧
      statements (parse "RUN echo a \\\n# note\n && echo b")
        = [(.run, "echo a # note"), (.unknown, "echo b")] := by
  decide +kernel

end Dockerfile.LogicalLine
