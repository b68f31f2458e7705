import Dockerfile.Proofs.Optimize.Order
import Dockerfile.Proofs.Text.Words

/-!
Words of a command that lose `sudo`.

The pass takes the characters `sudo` with a space out of a text, wherever they stand. So a word
loses them that ends in `sudo`, if a space comes next, and what is left of it goes on with the next
word, unless more blanks stand between the two (`remains`, `wordsOf_removeSudo`).

What is meant is that only the word `sudo` is dropped, and only at the start of a command
(`StripsSudo`). The pass does that for some texts, and `harmless` tells which
(`stripsSudo_iff_harmless`). For the others it is to be shown that a word which has lost `sudo` is
not restored by what follows. The words other than `sudo` only become shorter (`Shortened`), so all
of them must be as they were. A word can be so again by going on with a word `sudo`, but then one of
these is missing after it, where no command starts (`NoneAdded`).
-/

namespace Dockerfile

open Text Optimize

/-! ### Taking out the word -/

namespace Optimize

variable {c : Char} {cs p q w rest : List Char}

/-- The word that is taken out. -/
def sudoWord : List Char :=
  "sudo".toList

theorem word_sudo : Word sudoWord := by
  decide

theorem sudo_space : "sudo ".toList = sudoWord ++ [' '] := by
  decide

theorem removeSudo_blank (h : isBlank c = true) :
    removeFrom "sudo ".toList 0 (c :: cs) = c :: removeFrom "sudo ".toList 0 cs := by
  refine removeFrom_cons fun start => ?_
  have first : 's' = c := (List.cons_prefix_cons.mp start).1
  rw [← first] at h
  cases h

/-- The phrase stands at the start of a word only if it is that word and the space after it. -/
theorem eq_of_prefix_word (hw : ∀ c ∈ w, isBlank c = false)
    (hrest : ∀ c ∈ rest.head?, isBlank c = true) (h : "sudo ".toList <+: w ++ rest) :
    w = sudoWord ∧ rest.head? = some ' ' := by
  obtain ⟨tail, heq⟩ := h
  rw [sudo_space, List.append_assoc, List.singleton_append] at heq
  have before := congrArg (List.takeWhile (! isBlank ·)) heq
  have kept : ∀ c ∈ w, (! isBlank c) = true := fun c hc => by simp [hw c hc]
  rw [List.takeWhile_append_of_pos word_sudo.kept, List.takeWhile_append_of_pos kept,
    (takeWhile_of_blank hrest (by simp)).1] at before
  have same : w = sudoWord := by simpa [isBlank_space] using before.symm
  rw [same] at heq
  rw [← List.append_cancel_left heq]
  exact ⟨same, rfl⟩

/-- A word stays that does not end in `sudo` before a space. -/
theorem removeSudo_kept (hw : ∀ c ∈ w, isBlank c = false)
    (hrest : ∀ c ∈ rest.head?, isBlank c = true)
    (other : ¬ (sudoWord <:+ w ∧ rest.head? = some ' ')) :
    removeFrom "sudo ".toList 0 (w ++ rest) = w ++ removeFrom "sudo ".toList 0 rest := by
  induction w with
  | nil => rfl
  | cons c w ih =>
    have start : ¬ "sudo ".toList <+: c :: (w ++ rest) := by
      intro start
      obtain ⟨whole, space⟩ := eq_of_prefix_word (w := c :: w) hw hrest start
      exact other ⟨whole ▸ List.suffix_rfl, space⟩
    have later := ih (fun d hd => hw d (List.mem_cons_of_mem _ hd)) fun ⟨ends, space⟩ =>
      other ⟨ends.trans (List.suffix_cons c w), space⟩
    rw [List.cons_append, removeFrom_cons start, later, List.cons_append]

/-- A word that ends in `sudo` before a space loses it, with the space. -/
theorem removeSudo_cut (hq : ∀ c ∈ q, isBlank c = false) (rest : List Char) :
    removeFrom "sudo ".toList 0 (q ++ sudoWord ++ ' ' :: rest)
      = q ++ removeFrom "sudo ".toList 0 rest := by
  induction q with
  | nil =>
    have found : "sudo ".toList.isPrefixOf ('s' :: ("udo ".toList ++ rest)) = true :=
      List.isPrefixOf_iff_prefix.mpr ⟨rest, rfl⟩
    change removeFrom "sudo ".toList 0 ('s' :: ("udo ".toList ++ rest)) = _
    rw [removeFrom, if_pos found]
    exact removeFrom_length_append "sudo ".toList "udo ".toList rest
  | cons c q ih =>
    have start : ¬ "sudo ".toList <+: c :: (q ++ sudoWord ++ ' ' :: rest) := by
      intro start
      have all := List.forall_mem_append.mpr ⟨hq, word_sudo.not_blank⟩
      obtain ⟨whole, -⟩ :=
        @eq_of_prefix_word (c :: q ++ sudoWord) (' ' :: rest) all (by simp [isBlank_space]) start
      have length := congrArg List.length whole
      simp only [List.length_append, List.length_cons] at length
      omega
    have later := ih fun d hd => hq d (List.mem_cons_of_mem _ hd)
    rw [List.cons_append, List.cons_append, removeFrom_cons start, later, List.cons_append]

theorem head?_removeSudo (h : ∀ c ∈ rest.head?, isBlank c = true) :
    ∀ c ∈ (removeFrom "sudo ".toList 0 rest).head?, isBlank c = true := by
  cases rest with
  | nil => exact h
  | cons c rest =>
    rw [removeSudo_blank (h c rfl)]
    exact h

/-! ### What is left of the words -/

/-- The word ends in `sudo`, and a space comes next. -/
def losesSudo (m : SpacedWord) : Bool :=
  sudoWord.isSuffixOf m.word && m.gap.head? == some ' '

/-- A word without the `sudo` at its end. -/
def stem (m : SpacedWord) : List Char :=
  m.word.take (m.word.length - sudoWord.length)

/-- The words of a text that is all one word, or empty. -/
def asWord (p : List Char) : List (List Char) :=
  if p.isEmpty then [] else [p]

/-- The words that are left of a text after `p`, which goes on with the text. -/
def remains (p : List Char) : List SpacedWord → List (List Char)
  | [] => asWord p
  | m :: ms =>
    if losesSudo m then
      if m.gap = [' '] then remains (p ++ stem m) ms else asWord (p ++ stem m) ++ remains [] ms
    else (p ++ m.word) :: remains [] ms

theorem wordsOf_asWord_append (hp : ∀ c ∈ p, isBlank c = false)
    (hrest : ∀ c ∈ rest.head?, isBlank c = true) :
    wordsOf (p ++ rest) = asWord p ++ wordsOf rest := by
  unfold asWord
  split
  · next empty => rw [List.isEmpty_iff.mp empty, List.nil_append, List.nil_append]
  · next ne =>
    have hw : Word p := ⟨fun empty => ne (List.isEmpty_iff.mpr empty), hp⟩
    rw [wordsOf_word_append hw hrest, List.singleton_append]

theorem stem_append (gap : List Char) : stem ⟨q ++ sudoWord, gap⟩ = q := by
  simp [stem]

theorem losesSudo_iff {m : SpacedWord} :
    losesSudo m = true ↔ sudoWord <:+ m.word ∧ m.gap.head? = some ' ' := by
  rw [losesSudo, Bool.and_eq_true, List.isSuffixOf_iff_suffix, beq_iff_eq]

theorem head?_takeWhile_blank (h : ∀ c ∈ rest.head?, isBlank c = true) :
    (rest.takeWhile isBlank).head? = rest.head? := by
  cases rest with
  | nil => rfl
  | cons c rest => simp [h c rfl]

/-- The words of a text that `sudo` is taken out of. -/
theorem wordsOf_removeSudo (hp : ∀ c ∈ p, isBlank c = false)
    (follows : p = [] ∨ ∀ c ∈ cs.head?, isBlank c = false) :
    wordsOf (p ++ removeFrom "sudo ".toList 0 cs) = remains p (spacedWords cs) := by
  induction cs using words_induction generalizing p with
  | nil =>
    rw [spacedWords, remains, removeFrom, ← List.append_nil (asWord p)]
    exact wordsOf_asWord_append hp (by simp)
  | blank c cs hc ih =>
    obtain rfl : p = [] := by
      rcases follows with empty | word
      · exact empty
      · cases hc.symm.trans (word c rfl)
    rw [List.nil_append, removeSudo_blank hc, wordsOf_cons_blank hc, spacedWords_cons_blank hc]
    exact ih hp (Or.inl rfl)
  | word w rest hw hrest ih =>
    rw [spacedWords_word_append hw hrest, remains]
    split
    · next cut =>
      -- The word is cut, and then the rest starts with one space.
      rw [losesSudo_iff, head?_takeWhile_blank hrest] at cut
      obtain ⟨⟨q, rfl⟩, space⟩ := cut
      obtain ⟨later, rfl⟩ := List.head?_eq_some_iff.mp space
      have hq := (List.forall_mem_append.mp hw.not_blank).1
      have hpq := List.forall_mem_append.mpr ⟨hp, hq⟩
      rw [stem_append, removeSudo_cut hq, ← List.append_assoc, spacedWords_cons_blank isBlank_space]
      split
      · next one =>
        refine ih later (List.suffix_cons _ _) hpq (Or.inr fun c hc => ?_)
        obtain ⟨later, rfl⟩ := List.head?_eq_some_iff.mp hc
        by_contra blank
        simp [List.takeWhile_cons, isBlank_space, blank] at one
      · next more =>
        have blank : ∀ c ∈ later.head?, isBlank c = true := by
          intro c hc
          obtain ⟨later, rfl⟩ := List.head?_eq_some_iff.mp hc
          by_contra word
          simp [isBlank_space, word] at more
        rw [wordsOf_asWord_append hpq (head?_removeSudo blank)]
        exact congrArg _ (ih later (List.suffix_cons _ _) (p := []) (by simp) (Or.inl rfl))
    · next kept =>
      rw [losesSudo_iff, head?_takeWhile_blank hrest] at kept
      have hpw : Word (p ++ w) :=
        ⟨by simp [hw.ne_nil], List.forall_mem_append.mpr ⟨hp, hw.not_blank⟩⟩
      rw [removeSudo_kept hw.not_blank hrest kept, ← List.append_assoc,
        wordsOf_word_append hpw (head?_removeSudo hrest)]
      exact congrArg _ (ih rest List.suffix_rfl (p := []) (by simp) (Or.inl rfl))

/-- What can become of one word: it stays, or it is cut, and then what is left of it goes on with
the next word or stands alone. -/
theorem remains_cons (p : List Char) (m : SpacedWord) (ms : List SpacedWord) :
    (losesSudo m = false ∧ remains p (m :: ms) = (p ++ m.word) :: remains [] ms) ∨
      losesSudo m = true ∧ ∃ q, m.word = q ++ sudoWord ∧
        (remains p (m :: ms) = remains (p ++ q) ms ∨
          p ++ q ≠ [] ∧ remains p (m :: ms) = (p ++ q) :: remains [] ms) := by
  cases cut : losesSudo m with
  | false => exact Or.inl ⟨rfl, by rw [remains, if_neg (by simp [cut])]⟩
  | true =>
    obtain ⟨⟨q, hq⟩, -⟩ := losesSudo_iff.mp cut
    obtain ⟨word, gap⟩ := m
    subst hq
    refine Or.inr ⟨rfl, q, rfl, ?_⟩
    rw [remains, if_pos cut, stem_append]
    split
    · exact Or.inl rfl
    · by_cases empty : p ++ q = []
      · simp [empty, asWord]
      · simp [empty, asWord]

/-! ### Words other than `sudo` -/

/-- The length of the words other than `sudo`. -/
def weight : List (List Char) → Nat
  | [] => 0
  | w :: ws => (if w = sudoWord then 0 else w.length) + weight ws

/-- The number of words `sudo` that come first. -/
def leadingSudos : List (List Char) → Nat
  | [] => 0
  | w :: ws => if w = sudoWord then leadingSudos ws + 1 else 0

variable {ws vs : List (List Char)} {m : SpacedWord} {ms : List SpacedWord}

theorem length_sudo : sudoWord.length = 4 := rfl

theorem append_sudo_ne (h : q ≠ []) : q ++ sudoWord ≠ sudoWord := by
  simpa using h

theorem weight_sudo (ws : List (List Char)) : weight (sudoWord :: ws) = weight ws := by
  simp [weight]

theorem weight_cons_le (w : List Char) (ws : List (List Char)) :
    weight (w :: ws) ≤ w.length + weight ws := by
  rw [weight]
  split <;> omega

theorem length_add_weight_le (w : List Char) (ws : List (List Char)) :
    w.length + weight ws ≤ weight (w :: ws) + 4 := by
  rw [weight]
  split
  · next same =>
    rw [same, length_sudo]
    omega
  · omega

theorem weight_append_sudo (h : q ≠ []) (ws : List (List Char)) :
    weight ((q ++ sudoWord) :: ws) = q.length + 4 + weight ws := by
  rw [weight, if_neg (append_sudo_ne h), List.length_append, length_sudo]

theorem length_add_weight_le_append_sudo (q : List Char) (ws : List (List Char)) :
    q.length + weight ws ≤ weight ((q ++ sudoWord) :: ws) := by
  by_cases empty : q = []
  · subst empty
    simp [weight]
  · rw [weight_append_sudo empty]
    omega

theorem leadingSudos_sudo (ws : List (List Char)) :
    leadingSudos (sudoWord :: ws) = leadingSudos ws + 1 := by
  simp [leadingSudos]

theorem leadingSudos_other (h : w ≠ sudoWord) : leadingSudos (w :: ws) = 0 := by
  simp [leadingSudos, h]

/-- The words other than `sudo` only become shorter, but for a word that goes on with `sudo`. -/
structure Shortened (ms : List SpacedWord) : Prop where
  alone : weight (remains [] ms) ≤ weight (ms.map SpacedWord.word)
  joined : ∀ p, p ≠ [] → ∃ u vs, remains p ms = u :: vs ∧
    u.length + weight vs ≤ p.length + 4 + weight (ms.map SpacedWord.word)

theorem Shortened.alone_cons (h : Shortened ms) (m : SpacedWord) :
    weight (remains [] (m :: ms)) ≤ weight (m.word :: ms.map SpacedWord.word) := by
  have less := h.alone
  rcases remains_cons [] m ms with ⟨-, kept⟩ | ⟨-, q, hq, joined | ⟨-, apart⟩⟩
  · rw [kept, List.nil_append, weight, weight]
    omega
  · rw [joined, hq]
    by_cases empty : q = []
    · subst empty
      exact less.trans_eq (weight_sudo _).symm
    · obtain ⟨u, vs, heq, le⟩ := h.joined q empty
      have light := weight_cons_le u vs
      rw [List.nil_append, heq, weight_append_sudo empty]
      omega
  · have light := weight_cons_le q (remains [] ms)
    have heavy := length_add_weight_le_append_sudo q (ms.map SpacedWord.word)
    rw [apart, hq, List.nil_append]
    omega

theorem Shortened.joined_cons (h : Shortened ms) (m : SpacedWord) (hp : p ≠ []) :
    ∃ u vs, remains p (m :: ms) = u :: vs ∧
      u.length + weight vs ≤ p.length + 4 + weight (m.word :: ms.map SpacedWord.word) := by
  have less := h.alone
  rcases remains_cons p m ms with ⟨-, kept⟩ | ⟨-, q, hq, joined | ⟨-, apart⟩⟩
  · have heavy := length_add_weight_le m.word (ms.map SpacedWord.word)
    refine ⟨_, _, kept, ?_⟩
    rw [List.length_append]
    omega
  · obtain ⟨u, vs, heq, le⟩ := h.joined (p ++ q) (by simp [hp])
    have heavy := length_add_weight_le_append_sudo q (ms.map SpacedWord.word)
    refine ⟨u, vs, joined.trans heq, ?_⟩
    rw [List.length_append] at le
    rw [hq]
    omega
  · have heavy := length_add_weight_le_append_sudo q (ms.map SpacedWord.word)
    refine ⟨_, _, apart, ?_⟩
    rw [List.length_append, hq]
    omega

theorem shortened (ms : List SpacedWord) : Shortened ms := by
  induction ms with
  | nil =>
    refine ⟨Nat.le_refl _, fun p hp => ⟨p, [], by simp [remains, asWord, hp], ?_⟩⟩
    rw [List.map_nil]
    omega
  | cons m ms ih => exact ⟨ih.alone_cons m, fun p hp => ih.joined_cons m hp⟩

/-- Where the words other than `sudo` have their length, there are no more words `sudo` at the start
than before, and fewer if one of them was joined to the text before it. -/
structure NoneAdded (ms : List SpacedWord) : Prop where
  alone : weight (remains [] ms) = weight (ms.map SpacedWord.word) →
    leadingSudos (remains [] ms) ≤ leadingSudos (ms.map SpacedWord.word)
  joined : ∀ p vs, p ≠ [] → remains p ms = (p ++ sudoWord) :: vs →
    weight vs = weight (ms.map SpacedWord.word) →
      leadingSudos vs < leadingSudos (ms.map SpacedWord.word)

theorem NoneAdded.alone_cons (h : NoneAdded ms) (m : SpacedWord)
    (same : weight (remains [] (m :: ms)) = weight (m.word :: ms.map SpacedWord.word)) :
    leadingSudos (remains [] (m :: ms)) ≤ leadingSudos (m.word :: ms.map SpacedWord.word) := by
  obtain ⟨less, longer⟩ := shortened ms
  rcases remains_cons [] m ms with ⟨-, kept⟩ | ⟨-, q, hq, joined | ⟨hne, apart⟩⟩
  · rw [kept, List.nil_append] at same ⊢
    by_cases word : m.word = sudoWord
    · rw [word, weight_sudo, weight_sudo] at same
      rw [word, leadingSudos_sudo, leadingSudos_sudo]
      exact Nat.succ_le_succ (h.alone same)
    · rw [leadingSudos_other word]
      exact Nat.zero_le _
  · rw [joined, hq, List.nil_append] at same
    rw [joined, hq, List.nil_append]
    by_cases empty : q = []
    · subst empty
      rw [List.nil_append, weight_sudo] at same
      rw [List.nil_append, leadingSudos_sudo]
      exact (h.alone same).trans (Nat.le_succ _)
    · -- A word `sudo` here would not count, and too little would be left.
      obtain ⟨u, vs, heq, le⟩ := longer q empty
      rw [heq, weight_append_sudo empty] at same
      have other : u ≠ sudoWord := by
        rintro rfl
        rw [weight_sudo] at same
        rw [length_sudo] at le
        omega
      rw [heq, leadingSudos_other other]
      exact Nat.zero_le _
  · have light := weight_cons_le q (remains [] ms)
    rw [List.nil_append] at hne
    rw [apart, hq, List.nil_append, weight_append_sudo hne] at same
    omega

theorem NoneAdded.joined_cons (h : NoneAdded ms) (m : SpacedWord) (hp : p ≠ [])
    (heq : remains p (m :: ms) = (p ++ sudoWord) :: vs)
    (same : weight vs = weight (m.word :: ms.map SpacedWord.word)) :
    leadingSudos vs < leadingSudos (m.word :: ms.map SpacedWord.word) := by
  obtain ⟨less, longer⟩ := shortened ms
  rcases remains_cons p m ms with ⟨-, kept⟩ | ⟨-, q, hq, joined | ⟨-, apart⟩⟩
  · rw [kept, List.cons.injEq, List.append_cancel_left_eq] at heq
    obtain ⟨word, rfl⟩ := heq
    rw [word, weight_sudo] at same
    rw [word, leadingSudos_sudo]
    exact Nat.lt_succ_of_le (h.alone same)
  · rw [joined] at heq
    rw [hq] at same ⊢
    by_cases empty : q = []
    · subst empty
      rw [List.append_nil] at heq
      rw [List.nil_append, weight_sudo] at same
      rw [List.nil_append, leadingSudos_sudo]
      exact (h.joined p vs hp heq same).trans (Nat.lt_succ_self _)
    · obtain ⟨u, us, found, le⟩ := longer (p ++ q) (by simp [hp])
      obtain ⟨rfl, rfl⟩ := List.cons.inj (found.symm.trans heq)
      rw [weight_append_sudo empty] at same
      rw [List.length_append, List.length_append, length_sudo] at le
      omega
  · rw [apart, List.cons.injEq, List.append_cancel_left_eq] at heq
    obtain ⟨rfl, rfl⟩ := heq
    rw [hq, weight_append_sudo word_sudo.ne_nil] at same
    omega

theorem noneAdded (ms : List SpacedWord) : NoneAdded ms := by
  induction ms with
  | nil =>
    refine ⟨fun _ => Nat.le_refl _, fun p vs hp heq => ?_⟩
    simp [remains, asWord, hp, word_sudo.ne_nil] at heq
  | cons m ms ih => exact ⟨ih.alone_cons m, fun p vs hp => ih.joined_cons m hp⟩

/-! ### What is meant -/

/-- The words between the commands of a line. -/
def isConnective (w : List Char) : Bool :=
  w == "&&".toList || w == "||".toList || w == ";".toList || w == "|".toList

/-- Words without some of the words `sudo` with which a command starts. All other words stay. The
flag tells whether a command starts with the first of the words. -/
inductive StripsSudo : Bool → List (List Char) → List (List Char) → Prop
  | nil {start : Bool} : StripsSudo start [] []
  | keep {start : Bool} {w : List Char} {ws vs : List (List Char)} :
      StripsSudo (isConnective w) ws vs → StripsSudo start (w :: ws) (w :: vs)
  | drop {ws vs : List (List Char)} : StripsSudo false ws vs → StripsSudo true (sudoWord :: ws) vs

/-- Every word that loses `sudo` is that word and starts a command. Where a word `sudo` stays, the
next word takes its place, for of two words `sudo` it does not matter which one is dropped. -/
def harmless (start : Bool) : List SpacedWord → Bool
  | [] => true
  | m :: ms =>
    if losesSudo m then m.word == sudoWord && start && harmless false ms
    else if m.word = sudoWord then harmless start ms
    else harmless (isConnective m.word) ms

variable {start : Bool}

theorem isConnective_append_sudo (q : List Char) : isConnective (q ++ sudoWord) = false := by
  have long : 4 ≤ (q ++ sudoWord).length := by
    rw [List.length_append]
    exact Nat.le_add_left 4 _
  rw [Bool.eq_false_iff]
  intro h
  simp only [isConnective, Bool.or_eq_true, beq_iff_eq] at h
  rcases h with ((h | h) | h) | h <;> simp [h] at long

theorem stripsSudo_cons_iff :
    StripsSudo start (w :: ws) vs ↔
      (∃ us, vs = w :: us ∧ StripsSudo (isConnective w) ws us) ∨
        w = sudoWord ∧ start = true ∧ StripsSudo false ws vs := by
  constructor
  · intro h
    cases h with
    | keep later => exact Or.inl ⟨_, rfl, later⟩
    | drop later => exact Or.inr ⟨rfl, rfl, later⟩
  · rintro (⟨us, rfl, later⟩ | ⟨rfl, rfl, later⟩)
    · exact .keep later
    · exact .drop later

theorem StripsSudo.weight_eq (h : StripsSudo start ws vs) : weight vs = weight ws := by
  induction h with
  | nil => rfl
  | keep _ ih => rw [weight, weight, ih]
  | drop _ ih => rw [weight_sudo, ih]

theorem StripsSudo.leadingSudos_le (h : StripsSudo false ws vs) :
    leadingSudos ws ≤ leadingSudos vs := by
  induction ws generalizing vs with
  | nil => exact Nat.zero_le _
  | cons w ws ih =>
    obtain ⟨us, rfl, later⟩ := (stripsSudo_cons_iff.mp h).resolve_right (by simp)
    by_cases word : w = sudoWord
    · subst word
      rw [leadingSudos_sudo, leadingSudos_sudo]
      exact Nat.succ_le_succ (ih later)
    · rw [leadingSudos_other word]
      exact Nat.zero_le _

theorem StripsSudo.of_false (h : StripsSudo false ws vs) : StripsSudo start ws vs := by
  cases h with
  | nil => exact .nil
  | keep later => exact .keep later

theorem stripsSudo_cons_sudo_iff :
    StripsSudo start (sudoWord :: ws) (sudoWord :: vs) ↔ StripsSudo start ws vs := by
  have other : isConnective sudoWord = false := isConnective_append_sudo []
  constructor
  · intro h
    rcases stripsSudo_cons_iff.mp h with ⟨us, heq, later⟩ | ⟨-, rfl, later⟩
    · rw [(List.cons.inj heq).2]
      exact (other ▸ later).of_false
    · cases ws with
      | nil => cases later
      | cons w ws =>
        obtain ⟨us, heq, later⟩ := (stripsSudo_cons_iff.mp later).resolve_right (by simp)
        obtain ⟨rfl, rfl⟩ := List.cons.inj heq
        exact .drop (other ▸ later)
  · intro h
    cases h with
    | nil => exact .keep .nil
    | keep later => exact .keep (other.symm ▸ .keep later)
    | drop later => exact .drop (.keep (other.symm ▸ later))

theorem remains_cons_sudo (cut : losesSudo m = true) (word : m.word = sudoWord) :
    remains [] (m :: ms) = remains [] ms := by
  rcases remains_cons [] m ms with ⟨kept, -⟩ | ⟨-, q, hq, left⟩
  · cases cut.symm.trans kept
  · obtain rfl : q = [] := by simpa [word] using hq
    exact left.resolve_right fun h => h.1 rfl

/-- The words without a `sudo` are not the words with it. -/
theorem remains_ne_sudo_cons (h : StripsSudo false (ms.map SpacedWord.word) vs) :
    remains [] ms ≠ sudoWord :: vs := by
  intro heq
  have most := (noneAdded ms).alone
  rw [heq, weight_sudo, leadingSudos_sudo] at most
  exact absurd (most h.weight_eq) (Nat.not_le_of_lt (Nat.lt_succ_of_le h.leadingSudos_le))

/-- A longer word that is cut is not restored by what follows. -/
theorem remains_ne_word_cons (cut : losesSudo m = true) (ne : m.word ≠ sudoWord)
    (h : StripsSudo false (ms.map SpacedWord.word) vs) : remains [] (m :: ms) ≠ m.word :: vs := by
  intro heq
  rcases remains_cons [] m ms with ⟨kept, -⟩ | ⟨-, q, hq, joined | ⟨-, apart⟩⟩
  · cases cut.symm.trans kept
  · have hne : q ≠ [] := by
      rintro rfl
      exact ne hq
    rw [joined, hq, List.nil_append] at heq
    have fewer := (noneAdded ms).joined q vs hne heq h.weight_eq
    exact absurd h.leadingSudos_le (Nat.not_le_of_lt fewer)
  · rw [apart, hq, List.nil_append, List.cons.injEq] at heq
    simp [word_sudo.ne_nil] at heq

/-- The pass does what is meant exactly where it is harmless. -/
theorem stripsSudo_iff_harmless :
    StripsSudo start (ms.map SpacedWord.word) (remains [] ms) ↔ harmless start ms = true := by
  induction ms generalizing start with
  | nil => exact ⟨fun _ => rfl, fun _ => .nil⟩
  | cons m ms ih =>
    rw [List.map_cons, harmless]
    rcases remains_cons [] m ms with ⟨kept, heq⟩ | ⟨cut, q, hq, -⟩
    · rw [if_neg (by simp [kept]), heq, List.nil_append]
      by_cases word : m.word = sudoWord
      · rw [if_pos word, word, stripsSudo_cons_sudo_iff, ih]
      · rw [if_neg word, ← ih, stripsSudo_cons_iff]
        simp [word]
    · have plain : isConnective m.word = false := hq ▸ isConnective_append_sudo q
      rw [if_pos cut, Bool.and_eq_true, Bool.and_eq_true, beq_iff_eq, and_assoc, ← ih,
        stripsSudo_cons_iff, plain]
      refine ⟨fun h => ?_, fun ⟨word, hstart, later⟩ => ?_⟩
      · rcases h with ⟨us, heq, later⟩ | ⟨word, hstart, later⟩
        · by_cases word : m.word = sudoWord
          · rw [remains_cons_sudo cut word, word] at heq
            exact absurd heq (remains_ne_sudo_cons later)
          · exact absurd heq (remains_ne_word_cons cut word later)
        · rw [remains_cons_sudo cut word] at later
          exact ⟨word, hstart, later⟩
      · rw [remains_cons_sudo cut word]
        exact Or.inr ⟨word, hstart, later⟩

end Optimize

/-! ### The pass -/

variable {x : Instruction}

theorem wordsOf_replaced_dropSudo (hk : x.keyword = .run) :
    wordsOf (replaced dropSudo? x).value.toList = remains [] (spacedWords x.value.toList) := by
  have left := @wordsOf_removeSudo x.value.toList [] (by simp) (Or.inl rfl)
  rw [List.nil_append] at left
  cases found : mentions x.value "sudo " with
  | true =>
    rw [replaced_of_some (dropSudo?_eq_some.mpr ⟨hk, found, rfl, rfl⟩), write_value,
      toList_removeAll, left]
  | false =>
    have nothing : dropSudo? x = none := by
      rw [Option.eq_none_iff_forall_ne_some]
      intro result some
      cases found.symm.trans (dropSudo?_eq_some.mp some).2.1
    have absent : ¬ "sudo ".toList <:+: x.value.toList := by
      rw [← mentions_iff, found]
      exact Bool.false_ne_true
    rw [replaced_of_none nothing, ← left, removeFrom_of_not_infix absent]

/-- Each RUN keeps of its words what is left when `sudo` and a space are taken out. These are its
words less some words `sudo` with which a command starts, exactly if every word that ends in `sudo`
before a space is such a word. -/
theorem words_dropSudo (xs : List Instruction) :
    List.Forall₂ (fun x y => y.keyword = x.keyword ∧ (x.keyword ≠ .run → y = x) ∧
        (x.keyword = .run →
          wordsOf y.value.toList = remains [] (spacedWords x.value.toList) ∧
            (StripsSudo true (wordsOf x.value.toList) (wordsOf y.value.toList) ↔
              harmless true (spacedWords x.value.toList) = true)))
      xs (Pass.dropSudo.apply xs).instructions := by
  change List.Forall₂ _ xs (xs.map (replaced dropSudo?))
  rw [List.forall₂_map_right_iff, List.forall₂_same]
  intro x _
  obtain ⟨keyword, same⟩ := replaced_of_subject (fun found =>
    ⟨(dropSudo?_eq_some.mp found).1, (dropSudo?_eq_some.mp found).2.2.1 ▸ rfl⟩) x
  refine ⟨keyword, same, fun hk => ?_⟩
  rw [wordsOf_replaced_dropSudo hk, ← map_word_spacedWords]
  exact ⟨rfl, stripsSudo_iff_harmless⟩

/-- The package `sudo` is no longer installed, and `visudo` is no longer called. -/
theorem words_dropSudo_inside :
    let xs := [Instruction.write 1 .run "apt-get install -y sudo curl",
      .write 2 .run "visudo -c && sudo ls"]
    (Pass.dropSudo.apply xs).instructions.map Instruction.value
        = ["apt-get install -y curl", "vi-c && ls"] ∧
      List.Forall₂ (fun x y =>
          ¬ StripsSudo true (wordsOf x.value.toList) (wordsOf y.value.toList))
        xs (Pass.dropSudo.apply xs).instructions := by
  intro xs
  have after : (Pass.dropSudo.apply xs).instructions
      = [.write 1 .run "apt-get install -y curl", .write 2 .run "vi-c && ls"] := by
    decide +kernel
  have other {v u : String} (left : wordsOf u.toList = remains [] (spacedWords v.toList))
      (harm : harmless true (spacedWords v.toList) = false) :
      ¬ StripsSudo true (wordsOf v.toList) (wordsOf u.toList) := by
    rw [left, ← map_word_spacedWords, stripsSudo_iff_harmless, harm]
    exact Bool.false_ne_true
  rw [after]
  exact ⟨rfl, .cons (other (by decide +kernel) (by decide +kernel))
    (.cons (other (by decide +kernel) (by decide +kernel)) .nil)⟩

end Dockerfile
