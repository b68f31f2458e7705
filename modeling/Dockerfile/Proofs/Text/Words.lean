import Dockerfile.Proofs.Text.Layout

/-!
The words of a text.

A blank divides a text into two, and its words are those of the one and then those of the other
(`wordsOf_append_cons`). All else follows: blanks at the ends of a text do not count
(`wordsOf_blank_append`, `wordsOf_trim`), texts joined by blanks have the words of all of them
(`wordsOf_intercalate`), a word before a blank is the first word (`wordsOf_word_append`) and the
first word stands before all but blanks (`exists_of_wordsOf_eq_cons`). A text with a single word and
no blank at either end is that word (`eq_of_wordsOf_eq_singleton`). What is put after the last word
goes on with it (`exists_wordsOf_concat`). Where the blanks matter too, each word stands with those
after it (`spacedWords`).
-/

namespace Dockerfile.Text

variable {a b cs w rest : List Char} {c : Char}

@[simp]
theorem wordsOf_nil : wordsOf [] = [] := rfl

theorem wordsOf_append_cons (h : isBlank c = true) (a b : List Char) :
    wordsOf (a ++ c :: b) = wordsOf a ++ wordsOf b := by
  rw [wordsOf, List.splitOnP_append_cons a b h, List.filter_append, wordsOf, wordsOf]

theorem wordsOf_cons_blank (h : isBlank c = true) (cs : List Char) :
    wordsOf (c :: cs) = wordsOf cs :=
  wordsOf_append_cons h [] cs

theorem wordsOf_blank_append (h : ∀ c ∈ a, isBlank c = true) (b : List Char) :
    wordsOf (a ++ b) = wordsOf b := by
  induction a with
  | nil => rfl
  | cons c a ih =>
    rw [List.cons_append, wordsOf_cons_blank (h c List.mem_cons_self)]
    exact ih fun d hd => h d (List.mem_cons_of_mem _ hd)

theorem wordsOf_eq_nil_of_blank (h : ∀ c ∈ a, isBlank c = true) : wordsOf a = [] := by
  simpa using wordsOf_blank_append h []

/-- Text that starts with a blank leaves the words before it alone. -/
theorem wordsOf_append (h : ∀ c ∈ b.head?, isBlank c = true) :
    wordsOf (a ++ b) = wordsOf a ++ wordsOf b := by
  cases b with
  | nil => simp
  | cons c b =>
    have blank : isBlank c = true := h c rfl
    rw [wordsOf_append_cons blank, wordsOf_cons_blank blank]

theorem wordsOf_word (h : Word a) : wordsOf a = [a] := by
  rw [wordsOf, List.splitOnP_eq_singleton h.not_blank]
  simp [h.ne_nil]

theorem wordsOf_word_append (h : Word a) (hb : ∀ c ∈ b.head?, isBlank c = true) :
    wordsOf (a ++ b) = a :: wordsOf b := by
  rw [wordsOf_append hb, wordsOf_word h, List.singleton_append]

theorem wordsOf_dropWhile (cs : List Char) : wordsOf (cs.dropWhile isBlank) = wordsOf cs := by
  have blanks : ∀ c ∈ cs.takeWhile isBlank, isBlank c = true :=
    fun c hc => List.mem_takeWhile_imp hc
  rw [← wordsOf_blank_append blanks, List.takeWhile_append_dropWhile]

theorem wordsOf_trim (cs : List Char) : wordsOf (trim cs) = wordsOf cs := by
  obtain ⟨before, after, heq, hbefore, hafter⟩ := exists_eq_append_trim cs
  have blank : ∀ c ∈ after.head?, isBlank c = true :=
    fun c hc => hafter c (List.mem_of_mem_head? hc)
  calc wordsOf (trim cs) = wordsOf (before ++ (trim cs ++ after)) := by
        rw [wordsOf_blank_append hbefore, wordsOf_append blank, wordsOf_eq_nil_of_blank hafter,
          List.append_nil]
    _ = wordsOf cs := by rw [← List.append_assoc, ← heq]

theorem wordsOf_intercalate (texts : List (List Char)) :
    wordsOf ([' '].intercalate texts) = texts.flatMap wordsOf := by
  induction texts with
  | nil => rfl
  | cons text texts ih =>
    cases texts with
    | nil => rw [List.intercalate_singleton, List.flatMap_singleton]
    | cons next texts =>
      rw [List.intercalate_cons_cons, List.append_assoc, List.singleton_append,
        wordsOf_append_cons isBlank_space, ih, ← List.flatMap_cons]

/-- A text that starts with no blank starts with a word, up to the next blank. -/
theorem exists_word_append (head : ∀ c ∈ cs.head?, isBlank c = false) (ne : cs ≠ []) :
    ∃ word rest, cs = word ++ rest ∧ Word word ∧ ∀ c ∈ rest.head?, isBlank c = true := by
  refine ⟨cs.takeWhile (! isBlank ·), cs.dropWhile (! isBlank ·),
    List.takeWhile_append_dropWhile.symm, ⟨?_, ?_⟩, ?_⟩
  · obtain ⟨c, cs, rfl⟩ := List.exists_cons_of_ne_nil ne
    simp [head c rfl]
  · intro c hc
    simpa using List.mem_takeWhile_imp hc
  · intro c hc
    have stop := List.head?_dropWhile_not (! isBlank ·) cs
    rw [Option.mem_def.mp hc] at stop
    simpa using stop

/-- A text that is not blank has a first word, with blanks before it and after it. -/
theorem exists_blank_append_word (h : ∃ c ∈ cs, isBlank c = false) :
    ∃ lead word rest, cs = lead ++ (word ++ rest) ∧ (∀ c ∈ lead, isBlank c = true) ∧ Word word ∧
      ∀ c ∈ rest.head?, isBlank c = true := by
  have ne : cs.dropWhile isBlank ≠ [] := by
    intro nothing
    obtain ⟨c, hc, written⟩ := h
    cases written.symm.trans (List.dropWhile_eq_nil_iff.mp nothing c hc)
  obtain ⟨word, rest, heq, isWord, behind⟩ := exists_word_append (head_dropWhile_isBlank cs) ne
  have lead : ∀ c ∈ cs.takeWhile isBlank, isBlank c = true := fun c hc => List.mem_takeWhile_imp hc
  refine ⟨cs.takeWhile isBlank, word, rest, ?_, lead, isWord, behind⟩
  rw [← heq, List.takeWhile_append_dropWhile]

/-- A search for other characters takes nothing of a text that starts with a blank. -/
theorem takeWhile_of_blank {p : Char → Bool} (head : ∀ c ∈ cs.head?, isBlank c = true)
    (stops : ∀ c, isBlank c = true → p c = false) :
    cs.takeWhile p = [] ∧ cs.dropWhile p = cs := by
  cases cs with
  | nil => exact ⟨rfl, rfl⟩
  | cons c cs => simp [stops c (head c rfl)]

theorem firstWord?_eq_some {lead word rest : List Char} (blanks : ∀ c ∈ lead, isBlank c = true)
    (hword : Word word) (behind : ∀ c ∈ rest.head?, isBlank c = true) :
    firstWord? (String.ofList (lead ++ (word ++ rest)))
      = some (String.ofList word, String.ofList (rest.dropWhile isBlank)) := by
  obtain ⟨c, more, rfl⟩ := List.exists_cons_of_ne_nil hword.ne_nil
  have start : (lead ++ (c :: more ++ rest)).dropWhile isBlank = c :: more ++ rest := by
    rw [List.dropWhile_append_of_pos blanks]
    exact dropWhile_isBlank_eq_self fun d hd => hword.trimmed.head d hd
  obtain ⟨taken, dropped⟩ := takeWhile_of_blank (p := (! isBlank ·)) behind (by simp)
  rw [firstWord?, String.toList_ofList, start]
  simp only [List.takeWhile_append_of_pos hword.kept, List.dropWhile_append_of_pos hword.kept,
    taken, dropped]
  simp

theorem firstWord?_eq_none_iff {s : String} :
    firstWord? s = none ↔ ∀ c ∈ s.toList, isBlank c = true := by
  rw [← List.dropWhile_eq_nil_iff, ← List.isEmpty_iff, firstWord?]
  split
  · next blank => exact ⟨fun _ => blank, fun _ => rfl⟩
  · next other =>
    exact ⟨fun heq => absurd heq (Option.some_ne_none _), fun blank => absurd blank other⟩

theorem wordsOf_eq_nil_iff : wordsOf cs = [] ↔ ∀ c ∈ cs, isBlank c = true := by
  refine ⟨fun none => ?_, wordsOf_eq_nil_of_blank⟩
  rw [← wordsOf_dropWhile] at none
  by_cases nothing : cs.dropWhile isBlank = []
  · exact List.dropWhile_eq_nil_iff.mp nothing
  · obtain ⟨word, rest, heq, isWord, behind⟩ :=
      exists_word_append (head_dropWhile_isBlank cs) nothing
    rw [heq, wordsOf_word_append isWord behind] at none
    cases none

theorem wordsOf_ne_nil_iff : wordsOf cs ≠ [] ↔ ∃ c ∈ cs, isBlank c = false := by
  rw [Ne, wordsOf_eq_nil_iff]
  simp

/-- A text without words is empty, if it ends in no blank. -/
theorem eq_nil_of_wordsOf_eq_nil (last : ∀ c ∈ cs.getLast?, isBlank c = false)
    (h : wordsOf cs = []) : cs = [] := by
  rw [← List.getLast?_eq_none_iff, Option.eq_none_iff_forall_not_mem]
  intro c hc
  have blank := wordsOf_eq_nil_iff.mp h c (List.mem_of_getLast? hc)
  cases blank.symm.trans (last c hc)

/-- A text with a first word starts with that word, after blanks. -/
theorem exists_of_wordsOf_eq_cons {ws : List (List Char)} (h : wordsOf cs = w :: ws) :
    ∃ rest, cs.dropWhile isBlank = w ++ rest ∧ Word w ∧ (∀ c ∈ rest.head?, isBlank c = true) ∧
      wordsOf rest = ws := by
  rw [← wordsOf_dropWhile] at h
  have ne : cs.dropWhile isBlank ≠ [] := by
    intro nothing
    rw [nothing] at h
    cases h
  obtain ⟨word, rest, heq, isWord, behind⟩ := exists_word_append (head_dropWhile_isBlank cs) ne
  rw [heq, wordsOf_word_append isWord behind, List.cons_eq_cons] at h
  obtain ⟨rfl, later⟩ := h
  exact ⟨rest, heq, isWord, behind, later⟩

/-- A text that ends in no blank ends in a word, after a blank or at its start. -/
theorem exists_append_word (ne : cs ≠ []) (last : ∀ c ∈ cs.getLast?, isBlank c = false) :
    ∃ lead word, cs = lead ++ word ∧ Word word ∧ ∀ c ∈ lead.getLast?, isBlank c = true := by
  refine ⟨cs.rdropWhile (! isBlank ·), cs.rtakeWhile (! isBlank ·),
    List.rdropWhile_append_rtakeWhile.symm, ⟨fun nothing => ?_, fun c hc => ?_⟩, fun c hc => ?_⟩
  · have blank := List.rtakeWhile_eq_nil_iff.mp nothing ne
    simp [last _ (List.getLast?_eq_some_getLast ne)] at blank
  · simpa using List.mem_rtakeWhile_imp hc
  · obtain ⟨hlead, rfl⟩ := List.mem_getLast?_eq_getLast hc
    simpa using List.rdropWhile_last_not (! isBlank ·) cs hlead

/-- A word after a blank, or at the start of a text, is its last word. -/
theorem wordsOf_append_word (hw : Word w) (blank : ∀ c ∈ a.getLast?, isBlank c = true) :
    wordsOf (a ++ w) = wordsOf a ++ [w] := by
  cases a using List.reverseRecOn with
  | nil => rw [List.nil_append, wordsOf_word hw, wordsOf_nil, List.nil_append]
  | append_singleton a c =>
    have hc : isBlank c = true := blank c (by simp)
    rw [List.append_assoc, List.singleton_append, wordsOf_append_cons hc, wordsOf_append_cons hc,
      wordsOf_nil, List.append_nil, wordsOf_word hw]

/-- What is put after a text that ends in no blank goes on with its last word. -/
theorem exists_wordsOf_concat (ne : cs ≠ []) (last : ∀ c ∈ cs.getLast?, isBlank c = false) :
    ∃ others word, ∀ more, (∀ c ∈ more, isBlank c = false) →
      wordsOf (cs ++ more) = others ++ [word ++ more] := by
  obtain ⟨lead, word, rfl, isWord, blank⟩ := exists_append_word ne last
  refine ⟨wordsOf lead, word, fun more hmore => ?_⟩
  have longer : Word (word ++ more) :=
    ⟨by simp [isWord.ne_nil], List.forall_mem_append.mpr ⟨isWord.not_blank, hmore⟩⟩
  rw [List.append_assoc, wordsOf_append_word longer blank]

/-- A text that is one word, with no blank around it. -/
theorem eq_of_wordsOf_eq_singleton (ends : Trimmed cs) (h : wordsOf cs = [w]) : cs = w := by
  obtain ⟨rest, heq, -, -, none⟩ := exists_of_wordsOf_eq_cons h
  rw [dropWhile_isBlank_eq_self ends.head] at heq
  have nothing : rest = [] :=
    eq_nil_of_wordsOf_eq_nil (last_of_suffix ⟨w, heq.symm⟩ ends.last) none
  rw [heq, nothing, List.append_nil]

/-- Every text is empty, or starts with a blank or with a word. -/
theorem words_induction {P : List Char → Prop} (nil : P [])
    (blank : ∀ c cs, isBlank c = true → P cs → P (c :: cs))
    (word : ∀ w rest, Word w → (∀ c ∈ rest.head?, isBlank c = true) →
      (∀ later, later <:+ rest → P later) → P (w ++ rest)) (cs : List Char) : P cs := by
  induction hlen : cs.length using Nat.strong_induction_on generalizing cs with
  | _ n ih =>
    subst hlen
    cases cs with
    | nil => exact nil
    | cons c cs =>
      cases hc : isBlank c with
      | true => exact blank c cs hc (ih cs.length (by simp) cs rfl)
      | false =>
        obtain ⟨w, rest, heq, hw, hrest⟩ :=
          @exists_word_append (c :: cs) (by simpa using hc) (List.cons_ne_nil c cs)
        rw [heq]
        refine word w rest hw hrest fun later hlater => ih later.length ?_ later rfl
        have nonempty := List.length_pos_iff.mpr hw.ne_nil
        have shorter := hlater.length_le
        rw [heq, List.length_append]
        omega

/-- A character that is not blank stands in one of the words. -/
theorem mem_iff_exists_wordsOf (h : isBlank c = false) : c ∈ cs ↔ ∃ w ∈ wordsOf cs, c ∈ w := by
  induction cs using words_induction with
  | nil => simp
  | blank d cs hd ih =>
    have ne : c ≠ d := by
      rintro rfl
      cases hd.symm.trans h
    rw [wordsOf_cons_blank hd, ← ih, List.mem_cons, or_iff_right ne]
  | word w rest hw hrest ih =>
    rw [wordsOf_word_append hw hrest, List.mem_append, ih rest List.suffix_rfl]
    simp

/-! ### Words and the blanks after them -/

/-- A word of a text, with the blanks after it. -/
structure SpacedWord where
  word : List Char
  gap : List Char
  deriving DecidableEq, Repr

/-- The words of a text, each with the blanks after it. -/
def spacedWords : List Char → List SpacedWord
  | [] => []
  | c :: cs =>
    if isBlank c then spacedWords cs
    else if cs.head?.all isBlank then ⟨[c], cs.takeWhile isBlank⟩ :: spacedWords cs
    else (spacedWords cs).modifyHead fun m => { m with word := c :: m.word }

theorem spacedWords_cons_blank (h : isBlank c = true) : spacedWords (c :: cs) = spacedWords cs := by
  rw [spacedWords, if_pos h]

theorem spacedWords_word_append (hw : Word w) (hrest : ∀ c ∈ rest.head?, isBlank c = true) :
    spacedWords (w ++ rest) = ⟨w, rest.takeWhile isBlank⟩ :: spacedWords rest := by
  obtain ⟨c, w, rfl⟩ := List.exists_cons_of_ne_nil hw.ne_nil
  have hc : isBlank c = false := hw.not_blank c List.mem_cons_self
  induction w generalizing c with
  | nil =>
    have blank : rest.head?.all isBlank = true := by simpa [Option.all_eq_true] using hrest
    rw [List.singleton_append, spacedWords, if_neg (by simp [hc]), if_pos blank]
  | cons d w ih =>
    have hd : isBlank d = false := hw.not_blank d (by simp)
    have later : Word (d :: w) :=
      ⟨List.cons_ne_nil d w, fun e he => hw.not_blank e (List.mem_cons_of_mem _ he)⟩
    rw [List.cons_append, spacedWords, if_neg (by simp [hc]), if_neg (by simp [hd]),
      ih d later hd]
    rfl

theorem map_word_spacedWords (cs : List Char) :
    (spacedWords cs).map SpacedWord.word = wordsOf cs := by
  induction cs using words_induction with
  | nil => rfl
  | blank c cs hc ih => rw [spacedWords_cons_blank hc, wordsOf_cons_blank hc, ih]
  | word w rest hw hrest ih =>
    rw [spacedWords_word_append hw hrest, wordsOf_word_append hw hrest, List.map_cons,
      ih rest List.suffix_rfl]

end Dockerfile.Text
