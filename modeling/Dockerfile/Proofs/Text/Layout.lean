import Dockerfile.Text.Basic
import Dockerfile.Proofs.Text.Trim

/-!
Texts laid out over several lines.

A text is `Continued` if each of its lines but the last ends in a backslash, and `fold` is such a
text on one line. What the text reads as is decided by its lines: `linesOf_continued` and
`linesOf_continued_append` say that these are its pieces between line feeds, also where more text
follows.

A value is `LaidOut` if it is empty or continued, with a last line that has an end of its own
(`Closed`). Trimming, joining, appending and taking out `sudo` keep values so.
-/

namespace Dockerfile.Text

variable {a b l v w rest : List Char} {c d : Char}

/-- The text holds no line break. -/
def OneLine (cs : List Char) : Prop :=
  ∀ c ∈ cs, isLineBreak c = false

instance (cs : List Char) : Decidable (OneLine cs) :=
  List.decidableBAll _ cs

theorem OneLine.append (ha : OneLine a) (hb : OneLine b) : OneLine (a ++ b) := by
  intro c hc
  rcases List.mem_append.mp hc with hc | hc
  · exact ha c hc
  · exact hb c hc

theorem OneLine.space (h : OneLine a) : OneLine (a ++ [' ']) :=
  h.append (by decide)

theorem OneLine.backslash (h : OneLine a) : OneLine (a ++ ['\\']) :=
  h.append (by decide)

theorem OneLine.part (h : OneLine b) (hab : a <:+: b) : OneLine a :=
  fun c hc => h c (hab.subset hc)

theorem OneLine.lf_notMem (h : OneLine a) : '\n' ∉ a :=
  fun hmem => absurd (h _ hmem) (by decide)

/-- Some characters, none of them blank. -/
structure Word (cs : List Char) : Prop where
  ne_nil : cs ≠ []
  not_blank : ∀ c ∈ cs, isBlank c = false

theorem word_iff : Word a ↔ a ≠ [] ∧ a.all (! isBlank ·) = true := by
  simp only [List.all_eq_true, Bool.not_eq_true']
  constructor
  · intro word
    exact ⟨word.ne_nil, word.not_blank⟩
  · rintro ⟨ne, all⟩
    exact ⟨ne, all⟩

instance (cs : List Char) : Decidable (Word cs) :=
  decidable_of_iff _ word_iff.symm

theorem Word.oneLine (h : Word a) : OneLine a := by
  intro c hc
  cases hbreak : isLineBreak c with
  | false => rfl
  | true =>
    have blank := isBlank_of_isLineBreak hbreak
    simp [h.not_blank c hc] at blank

/-- A word passes the test for the characters of a word. -/
theorem Word.kept (h : Word a) : ∀ c ∈ a, (! isBlank c) = true := by
  intro c hc
  simp [h.not_blank c hc]

theorem Word.trimmed (h : Word a) : Trimmed a :=
  ⟨fun c hc => h.not_blank c (List.mem_of_mem_head? hc),
    fun c hc => h.not_blank c (List.mem_of_getLast? hc)⟩

/-! ### Physical lines -/

/-- A character that breaks no line stands at the start of the first one. -/
theorem linesOf_cons {line : List Char} {more : List (List Char)} (hc : isLineBreak c = false)
    (h : linesOf rest = line :: more) : linesOf (c :: rest) = (c :: line) :: more := by
  rw [linesOf]
  · simp [hc, h]
  · rintro _ rfl
    exact absurd hc (by decide)

theorem linesOf_append_lf (h : OneLine a) : linesOf (a ++ '\n' :: b) = a :: linesOf b := by
  induction a with
  | nil =>
    rw [List.nil_append, linesOf]
    · rfl
    · exact nofun
  | cons c a ih =>
    exact linesOf_cons (h c List.mem_cons_self) (ih fun d hd => h d (List.mem_cons_of_mem _ hd))

theorem linesOf_of_oneLine (h : OneLine a) (ne : a ≠ []) : linesOf a = [a] := by
  induction a with
  | nil => exact absurd rfl ne
  | cons c a ih =>
    have hc := h c List.mem_cons_self
    cases a with
    | nil =>
      rw [linesOf]
      · simp [hc, linesOf]
      · exact nofun
    | cons d a => exact linesOf_cons hc (ih (fun e he => h e (List.mem_cons_of_mem _ he)) (by simp))

theorem oneLine_of_mem_linesOf {cs : List Char} (h : l ∈ linesOf cs) : OneLine l := by
  fun_induction linesOf cs generalizing l with
  | case1 => simp at h
  | case2 rest ih =>
    rcases List.mem_cons.mp h with rfl | h
    · exact nofun
    · exact ih h
  | case3 c rest _ hc ih =>
    rcases List.mem_cons.mp h with rfl | h
    · exact nofun
    · exact ih h
  | case4 c rest _ hc hrest ih =>
    rw [List.mem_singleton.mp h]
    intro d hd
    rw [List.mem_singleton.mp hd]
    simpa using hc
  | case5 c rest _ hc line more hrest ih =>
    rcases List.mem_cons.mp h with rfl | h
    · intro d hd
      rcases List.mem_cons.mp hd with rfl | hd
      · simpa using hc
      · exact ih (by simp [hrest]) d hd
    · exact ih (by simp [hrest, h])

/-! ### Continued texts -/

/-- Each line but the last ends in a backslash, and the last one closes the text. -/
inductive Continued (closes : List Char → Prop) : List Char → Prop
  | last {l : List Char} : OneLine l → closes l → Continued closes l
  | next {l rest : List Char} : OneLine l → Continued closes rest →
      Continued closes (l ++ '\\' :: '\n' :: rest)

/-- The last line of a text: trimmed, it is not empty and does not go on. -/
def Closes (l : List Char) : Prop :=
  ∃ c ∈ (trim l).getLast?, c ≠ '\\'

theorem Continued.imp {p q : List Char → Prop} (h : Continued p v) (hpq : ∀ l, p l → q l) :
    Continued q v := by
  induction h with
  | last one hl => exact .last one (hpq _ hl)
  | next one _ ih => exact .next one ih

theorem Continued.ne_nil {p : List Char → Prop} (h : Continued p v) (ne : ∀ l, p l → l ≠ []) :
    v ≠ [] := by
  cases h with
  | last _ hl => exact ne _ hl
  | next _ _ => simp

theorem Continued.prepend {p : List Char → Prop} (h : Continued p v) (ha : OneLine a)
    (hp : ∀ l, p l → p (a ++ l)) : Continued p (a ++ v) := by
  cases h with
  | last one hl => exact .last (ha.append one) (hp _ hl)
  | next one later =>
    rw [← List.append_assoc]
    exact .next (ha.append one) later

theorem linesOf_next (h : OneLine l) (rest : List Char) :
    linesOf (l ++ '\\' :: '\n' :: rest) = (l ++ ['\\']) :: linesOf rest := by
  rw [List.append_cons, linesOf_append_lf h.backslash]

theorem splitOn_next (h : OneLine l) (rest : List Char) :
    (l ++ '\\' :: '\n' :: rest).splitOn '\n' = (l ++ ['\\']) :: rest.splitOn '\n' := by
  rw [List.append_cons, List.splitOn_append_cons_self_of_not_mem h.backslash.lf_notMem]

/-- The lines of a continued text are its pieces between line feeds. -/
theorem linesOf_continued {p : List Char → Prop} (h : Continued p v) (ne : ∀ l, p l → l ≠ []) :
    linesOf v = v.splitOn '\n' := by
  induction h with
  | last one hl => rw [linesOf_of_oneLine one (ne _ hl), List.splitOn_eq_singleton one.lf_notMem]
  | @next l rest one _ ih => rw [linesOf_next one, splitOn_next one, ih]

theorem linesOf_continued_append {p : List Char → Prop} (h : Continued p v) (w : List Char) :
    linesOf (v ++ '\n' :: w) = v.splitOn '\n' ++ linesOf w := by
  induction h with
  | last one _ =>
    rw [linesOf_append_lf one, List.splitOn_eq_singleton one.lf_notMem, List.singleton_append]
  | @next l rest one _ ih =>
    rw [List.append_assoc, List.cons_append, List.cons_append, linesOf_next one, ih,
      splitOn_next one, List.cons_append]

/-! ### Folding -/

/-- A line without the backslash it ends in. -/
def withoutBackslash (l : List Char) : List Char :=
  if l.getLast? = some '\\' then l.dropLast else l

/-- The lines of a text, trimmed; all but the last lose the backslash they end in. -/
def foldedLines : List (List Char) → List (List Char)
  | [] => []
  | [last] => [trim last]
  | line :: next :: rest => trim (withoutBackslash line) :: foldedLines (next :: rest)

def pieces (cs : List Char) : List (List Char) :=
  foldedLines (cs.splitOn '\n')

def foldChars (cs : List Char) : List Char :=
  trim ([' '].intercalate (pieces cs))

/-- A text laid out over several lines, on one line: cut at line feeds, without the backslashes at
the ends of lines, each line trimmed, joined by single blanks and trimmed. -/
def fold (s : String) : String :=
  String.ofList (foldChars s.toList)

theorem pieces_of_oneLine (h : OneLine l) : pieces l = [trim l] := by
  rw [pieces, List.splitOn_eq_singleton h.lf_notMem]
  rfl

theorem pieces_next (h : OneLine l) (rest : List Char) :
    pieces (l ++ '\\' :: '\n' :: rest) = trim l :: pieces rest := by
  obtain ⟨next, more, hrest⟩ := List.exists_cons_of_ne_nil (List.splitOn_ne_nil '\n' rest)
  rw [pieces, pieces, splitOn_next h, hrest]
  simp [foldedLines, withoutBackslash]

theorem pieces_ne_nil (v : List Char) : pieces v ≠ [] := by
  obtain ⟨line, more, heq⟩ := List.exists_cons_of_ne_nil (List.splitOn_ne_nil '\n' v)
  rw [pieces, heq]
  cases more <;> simp [foldedLines]

/-- A text on one line without blanks at its ends is folded already. -/
theorem foldChars_eq_self (h : OneLine v) (ends : Trimmed v) : foldChars v = v := by
  rw [foldChars, pieces_of_oneLine h, List.intercalate_singleton, trim_eq_self ends,
    trim_eq_self ends]

theorem exists_intercalate_pieces {p : List Char → Prop} (h : Continued p v)
    (hp : ∀ l, p l → trim l ≠ []) :
    ∃ u d, [' '].intercalate (pieces v) = u ++ [d] ∧ isBlank d = false := by
  induction h with
  | @last l one hl =>
    refine ⟨(trim l).dropLast, (trim l).getLast (hp l hl), ?_, ?_⟩
    · rw [pieces_of_oneLine one, List.intercalate_singleton, List.dropLast_concat_getLast]
    · exact (trimmed_trim l).last _ (List.getLast?_eq_some_getLast (hp l hl))
  | @next l rest one later ih =>
    obtain ⟨u, d, heq, hd⟩ := ih
    refine ⟨trim l ++ ' ' :: u, d, ?_, hd⟩
    rw [pieces_next one, List.intercalate_cons_of_ne_nil (pieces_ne_nil rest), heq]
    simp

/-! ### Values -/

/-- The end of a command: a character that is neither blank nor a backslash, or `&& ` with no
command after it. -/
def Closed (l : List Char) : Prop :=
  (∃ u d, l = u ++ [d] ∧ isBlank d = false ∧ d ≠ '\\') ∨ ∃ u, l = u ++ ['&', '&', ' ']

/-- A value that is empty, or whose lines all end in a backslash but a last one that is closed. -/
def LaidOut (v : List Char) : Prop :=
  v = [] ∨ Continued Closed v

theorem Closed.ne_nil (h : Closed l) : l ≠ [] := by
  rcases h with ⟨u, d, rfl, -, -⟩ | ⟨u, rfl⟩ <;> simp

theorem Closed.prepend (h : Closed l) (a : List Char) : Closed (a ++ l) := by
  rcases h with ⟨u, d, rfl, hd, hne⟩ | ⟨u, rfl⟩
  · exact Or.inl ⟨a ++ u, d, by simp, hd, hne⟩
  · exact Or.inr ⟨a ++ u, by simp⟩

theorem Closed.closes (h : Closed l) : Closes l := by
  rcases h with ⟨u, d, rfl, hd, hne⟩ | ⟨u, rfl⟩
  · exact ⟨d, by simp [trim_concat u hd], hne⟩
  · have heq : u ++ ['&', '&', ' '] = (u ++ ['&'] ++ ['&']) ++ [' '] := by simp
    refine ⟨'&', ?_, by decide⟩
    rw [heq, trim_concat_blank isBlank_space, trim_concat _ isBlank_ampersand]
    simp

theorem Closes.trim_ne_nil (h : Closes l) : trim l ≠ [] := by
  obtain ⟨c, hc, -⟩ := h
  intro hnil
  simp [hnil] at hc

theorem Closes.ne_nil (h : Closes l) : l ≠ [] := by
  rintro rfl
  exact h.trim_ne_nil rfl

theorem Continued.closes (h : Continued Closed v) : Continued Closes v :=
  h.imp fun _ => Closed.closes

theorem Continued.prependLine (h : Continued Closed v) (ha : OneLine a) :
    Continued Closed (a ++ v) :=
  h.prepend ha fun _ hl => hl.prepend a

theorem Continued.append (h : Continued Closed v) (ha : OneLine a) (closed : Closed a) :
    Continued Closed (v ++ a) := by
  induction h with
  | @last l one _ => exact .last (one.append ha) (closed.prepend l)
  | next one _ ih =>
    rw [List.append_assoc]
    exact .next one ih

theorem LaidOut.append (h : LaidOut v) (ha : OneLine a) (closed : Closed a) :
    Continued Closed (v ++ a) := by
  rcases h with rfl | h
  · exact .last ha closed
  · exact h.append ha closed

theorem LaidOut.prepend (h : LaidOut v) (ha : OneLine a) (closed : Closed a) :
    Continued Closed (a ++ v) := by
  rcases h with rfl | h
  · rw [List.append_nil]
    exact .last ha closed
  · exact h.prependLine ha

/-- A value goes on with another one on the next line. -/
theorem Continued.break (h : Continued Closed v) (hw : Continued Closed w) :
    Continued Closed (v ++ ' ' :: '\\' :: '\n' :: w) := by
  induction h with
  | @last l one _ =>
    rw [List.append_cons]
    exact .next one.space hw
  | next one _ ih =>
    rw [List.append_assoc]
    exact .next one ih

theorem LaidOut.break (h : LaidOut v) (hw : Continued Closed w) :
    Continued Closed (v ++ ' ' :: '\\' :: '\n' :: w) := by
  rcases h with rfl | h
  · exact .next (l := [' ']) (by decide) hw
  · exact h.break hw

/-! ### Text on one line -/

/-- One line with no blank at either end, nor a backslash at the right one. -/
structure Plain (cs : List Char) : Prop where
  oneLine : OneLine cs
  head : ∃ c ∈ cs.head?, isBlank c = false
  last : ∃ c ∈ cs.getLast?, isBlank c = false ∧ c ≠ '\\'

theorem Plain.closed (h : Plain v) : Closed v := by
  obtain ⟨d, hd, blank, hne⟩ := h.last
  obtain ⟨u, rfl⟩ := List.getLast?_eq_some_iff.mp hd
  exact Or.inl ⟨u, d, rfl, blank, hne⟩

theorem Plain.continued (h : Plain v) : Continued Closed v :=
  .last h.oneLine h.closed

theorem Plain.trimmed (h : Plain v) : Trimmed v := by
  obtain ⟨c, hc, first⟩ := h.head
  obtain ⟨d, hd, last, -⟩ := h.last
  constructor
  · intro e he
    rwa [Option.mem_unique he hc]
  · intro e he
    rwa [Option.mem_unique he hd]

/-- The end of a plain text, from a character on that is not blank. -/
theorem Plain.suffix (h : Plain v) (hw : w <:+ v) (head : ∀ c ∈ w.head?, isBlank c = false)
    (ne : w ≠ []) : Plain w := by
  obtain ⟨d, hd, last⟩ := h.last
  refine ⟨h.oneLine.part hw.isInfix, ?_, d, ?_, last⟩
  · obtain ⟨c, rest, rfl⟩ := List.exists_cons_of_ne_nil ne
    exact ⟨c, rfl, head c rfl⟩
  · obtain ⟨before, rfl⟩ := hw
    rwa [List.getLast?_append_of_ne_nil _ ne] at hd

theorem plain_trim (one : OneLine l) (h : Closes l) : Plain (trim l) := by
  obtain ⟨d, hd, hne⟩ := h
  refine ⟨one.part (trim_isInfix l), ?_, d, hd, (trimmed_trim l).last d hd, hne⟩
  cases heq : trim l with
  | nil => simp [heq] at hd
  | cons c rest => exact ⟨c, rfl, (trimmed_trim l).head c (by simp [heq])⟩

/-! ### Trimming and removal -/

theorem Closed.trimEnd (h : Closed l) : Closed (trimEnd l) := by
  rcases h with ⟨u, d, rfl, hd, hne⟩ | ⟨u, rfl⟩
  · rw [trimEnd_concat hd]
    exact Or.inl ⟨u, d, rfl, hd, hne⟩
  · have heq : u ++ ['&', '&', ' '] = (u ++ ['&'] ++ ['&']) ++ [' '] := by simp
    rw [heq, trimEnd_concat_blank isBlank_space, trimEnd_concat isBlank_ampersand]
    exact Or.inl ⟨u ++ ['&'], '&', rfl, isBlank_ampersand, by decide⟩

theorem Continued.trimEnd (h : Continued Closed v) : Continued Closed (trimEnd v) := by
  induction h with
  | @last l one hl => exact .last (one.part (trimEnd_isPrefix l).isInfix) hl.trimEnd
  | @next l rest one later ih =>
    have ne : Text.trimEnd rest ≠ [] := ih.ne_nil fun _ hl => hl.ne_nil
    have heq : l ++ '\\' :: '\n' :: rest = (l ++ ['\\', '\n']) ++ rest := by simp
    rw [heq, trimEnd_append ne, List.append_assoc]
    exact .next one ih

theorem Continued.dropWhile (h : Continued Closed v) :
    Continued Closed (v.dropWhile isBlank) := by
  cases h with
  | @last l one hl =>
    refine .last (one.part (List.dropWhile_suffix isBlank).isInfix) ?_
    rcases hl with ⟨u, d, rfl, hd, hne⟩ | ⟨u, rfl⟩
    · exact Or.inl ⟨_, d, dropWhile_append_cons u [] hd, hd, hne⟩
    · exact Or.inr ⟨_, dropWhile_append_cons u ['&', ' '] isBlank_ampersand⟩
  | @next l rest one later =>
    rw [dropWhile_append_cons l ('\n' :: rest) isBlank_backslash]
    exact .next (one.part (List.dropWhile_suffix isBlank).isInfix) later

theorem Continued.trim (h : Continued Closed v) : Continued Closed (trim v) :=
  h.dropWhile.trimEnd

theorem LaidOut.trim (h : LaidOut v) : LaidOut (trim v) := by
  rcases h with rfl | h
  · exact Or.inl trim_nil
  · exact Or.inr h.trim

theorem Closed.removeSudo (h : Closed l) : Closed (removeFrom "sudo ".toList 0 l) := by
  rcases h with ⟨u, d, rfl, hd, hne⟩ | ⟨u, rfl⟩
  · -- What is removed ends in a blank, so the last character stays.
    have last : ∃ e ∈ "sudo ".toList.getLast?, e ≠ d := by
      refine ⟨' ', by decide, ?_⟩
      rintro rfl
      simp [isBlank_space] at hd
    rw [removeFrom_concat last (Nat.zero_le _)]
    exact Or.inl ⟨_, d, rfl, hd, hne⟩
  · rw [removeFrom_append_cons (by decide) (by decide) (Nat.zero_le _)]
    exact Or.inr ⟨_, rfl⟩

theorem OneLine.removeSudo (h : OneLine l) : OneLine (removeFrom "sudo ".toList 0 l) :=
  fun c hc => h c (mem_of_mem_removeFrom hc)

theorem Continued.removeSudo (h : Continued Closed v) :
    Continued Closed (removeFrom "sudo ".toList 0 v) := by
  induction h with
  | last one hl => exact .last one.removeSudo hl.removeSudo
  | @next l rest one _ ih =>
    have later : removeFrom "sudo ".toList 0 ('\n' :: rest)
        = '\n' :: removeFrom "sudo ".toList 0 rest :=
      removeFrom_append_cons (a := []) (by decide) (by decide) (Nat.zero_le _)
    rw [removeFrom_append_cons (by decide) (by decide) (Nat.zero_le _), later]
    exact .next one.removeSudo ih

theorem LaidOut.removeSudo (h : LaidOut v) : LaidOut (removeFrom "sudo ".toList 0 v) := by
  rcases h with rfl | h
  · exact Or.inl rfl
  · exact Or.inr h.removeSudo

/-! ### Lists of values -/

/-- Values listed one a line, each but the first after the text `a`. -/
theorem laidOut_intercalate {vs : List (List Char)}
    (h : ∀ v ∈ vs, LaidOut v ∧ Continued Closed (a ++ v)) :
    LaidOut ((' ' :: '\\' :: '\n' :: a).intercalate vs) ∧
      (vs ≠ [] → Continued Closed (a ++ (' ' :: '\\' :: '\n' :: a).intercalate vs)) := by
  induction vs with
  | nil => exact ⟨Or.inl rfl, fun ne => absurd rfl ne⟩
  | cons v vs ih =>
    obtain ⟨alone, after⟩ := h v List.mem_cons_self
    cases vs with
    | nil =>
      rw [List.intercalate_singleton]
      exact ⟨alone, fun _ => after⟩
    | cons w rest =>
      obtain ⟨-, later⟩ := ih fun u hu => h u (List.mem_cons_of_mem _ hu)
      specialize later (List.cons_ne_nil w rest)
      rw [List.intercalate_cons_cons, List.append_assoc v]
      refine ⟨Or.inr (alone.break later), fun _ => ?_⟩
      rw [← List.append_assoc]
      exact after.break later

/-! ### A value after a word -/

/-- What is put before a continued text changes the first of its lines. -/
theorem exists_intercalate_pieces_append {p : List Char → Prop} (h : Continued p v) :
    ∃ l tail, (∀ c ∈ tail.head?, isBlank c = true) ∧
      ∀ a, OneLine a → [' '].intercalate (pieces (a ++ v)) = trim (a ++ l) ++ tail := by
  cases h with
  | last one _ =>
    refine ⟨v, [], by simp, ?_⟩
    intro a ha
    rw [pieces_of_oneLine (ha.append one), List.intercalate_singleton, List.append_nil]
  | @next l rest one _ =>
    refine ⟨l, ' ' :: [' '].intercalate (pieces rest), by simp [isBlank_space], ?_⟩
    intro a ha
    rw [← List.append_assoc, pieces_next (ha.append one),
      List.intercalate_cons_of_ne_nil (pieces_ne_nil rest)]
    simp

theorem foldChars_eq_dropWhile (h : Continued Closed v) :
    foldChars v = ([' '].intercalate (pieces v)).dropWhile isBlank := by
  obtain ⟨u, d, heq, hd⟩ := exists_intercalate_pieces h fun _ hl => hl.closes.trim_ne_nil
  apply trim_eq_dropWhile
  simpa [heq] using hd

theorem LaidOut.afterWord {word : List Char} (h : LaidOut v) (plain : Plain word) :
    Continued Closes (word ++ ' ' :: v) := by
  have line : OneLine (word ++ [' ']) := plain.oneLine.space
  rcases h with rfl | h
  · obtain ⟨d, hd, -, hne⟩ := plain.last
    refine .last line ⟨d, ?_, hne⟩
    rw [trim_concat_blank isBlank_space, trim_eq_self plain.trimmed]
    exact hd
  · rw [List.append_cons]
    exact (h.prependLine line).closes

/-- Folded with a word before it, a value comes after that word and blanks. -/
theorem exists_intercalate_pieces_word {word : List Char} (hword : Word word) (h : LaidOut v) :
    ∃ y, [' '].intercalate (pieces (word ++ ' ' :: v)) = word ++ y ∧
      (∀ c ∈ y.head?, isBlank c = true) ∧ y.dropWhile isBlank = foldChars v := by
  have line : OneLine (word ++ [' ']) := hword.oneLine.space
  have after := trim_append_of_trimmed hword.trimmed hword.ne_nil
  rcases h with rfl | h
  · refine ⟨[], ?_, by simp, rfl⟩
    rw [pieces_of_oneLine line, List.intercalate_singleton, after]
    rfl
  · obtain ⟨l, tail, htail, heq⟩ := exists_intercalate_pieces_append h
    refine ⟨trimEnd (' ' :: l) ++ tail, ?_, ?_, ?_⟩
    · rw [List.append_cons, heq _ line, ← List.append_cons, after, List.append_assoc]
    · obtain ⟨after, hkept⟩ := trimEnd_isPrefix (' ' :: l)
      cases htrim : trimEnd (' ' :: l) with
      | nil => simpa using htail
      | cons c rest =>
        rw [htrim, List.cons_append, List.cons.injEq] at hkept
        simp [hkept.1, isBlank_space]
    · have first : trim (' ' :: l) = trim l := rfl
      have alone := heq [] nofun
      rw [dropWhile_trimEnd_append, first, foldChars_eq_dropWhile h]
      exact congrArg _ alone.symm

end Dockerfile.Text
