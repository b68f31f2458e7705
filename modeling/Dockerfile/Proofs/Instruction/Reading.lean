import Dockerfile.Instruction
import Dockerfile.Proofs.Text.Words

/-!
Reading an instruction.

A text has a keyword and a value (`parts?`), and these with its line are all that an instruction is
read from (`read_eq_ok_iff`); only a blank text has none (`parts?_eq_none_iff`). `parts?_word` reads
them from a word and what follows it, and `plain_value` says what a value can look like.

Of a base image the first word of the text names image and tag, and the rest the stage
(`ofChars?_word_append`). What the parts of one that was read look like is `ofChars?_eq_some`, and a
tagged one is read from its parts (`ofChars?_tagged`).
-/

namespace Dockerfile

open Text

/-! ### Base images -/

namespace BaseImage

variable {cs image tag word rest : List Char} {stage : Option String} {s : String}

/-- The word ends the text, unless that holds a line feed. -/
def IsLastWord (cs : List Char) (s : String) : Prop :=
  Word s.toList ∧ (s.toList <:+ cs ∨ '\n' ∈ cs)

theorem IsLastWord.of_suffix {ds : List Char} (h : IsLastWord ds s) (hds : ds <:+ cs) :
    IsLastWord cs s := by
  obtain ⟨word, place⟩ := h
  refine ⟨word, ?_⟩
  rcases place with hs | hmem
  · exact Or.inl (hs.trans hds)
  · exact Or.inr (hds.subset hmem)

theorem lastWord?_eq_some (h : lastWord? cs = some s) : IsLastWord cs s := by
  rw [lastWord?, Option.ite_none_right_eq_some, Option.some.injEq] at h
  obtain ⟨hword, rfl⟩ := h
  rw [Bool.and_eq_true, Bool.not_eq_true', List.isEmpty_eq_false_iff] at hword
  obtain ⟨ne, hend⟩ := hword
  have split := List.takeWhile_append_dropWhile (p := fun c => ! isBlank c) (l := cs)
  have word : Word (cs.takeWhile (! isBlank ·)) := by
    refine ⟨ne, ?_⟩
    intro c hc
    simpa using List.mem_takeWhile_imp hc
  rw [IsLastWord, String.toList_ofList]
  refine ⟨word, ?_⟩
  rw [atEnd, Bool.or_eq_true, beq_iff_eq, beq_iff_eq] at hend
  rcases hend with hend | hend
  · rw [hend, List.append_nil] at split
    exact Or.inl ⟨[], split⟩
  · refine Or.inr ?_
    rw [← split, hend]
    simp

theorem lastWord?_of_word (h : Word cs) : lastWord? cs = some (String.ofList cs) := by
  have htake : cs.takeWhile (! isBlank ·) = cs := List.takeWhile_eq_self_iff.mpr h.kept
  have hdrop : cs.dropWhile (! isBlank ·) = [] := List.dropWhile_eq_nil_iff.mpr h.kept
  simp [lastWord?, htake, hdrop, h.ne_nil, atEnd]

theorem readStage?_eq_some (h : readStage? cs = some stage) :
    ∀ s ∈ stage, IsLastWord cs s := by
  intro s hs
  rw [Option.mem_def.mp hs, readStage?] at h
  split at h
  · simp at h
  · split at h
    · next a d blank rest heq =>
      rw [Option.ite_none_right_eq_some, Option.map_eq_some_iff] at h
      obtain ⟨-, word, hword, heqs⟩ := h
      rw [Option.some.injEq] at heqs
      subst heqs
      have start : a :: d :: blank :: rest <:+ cs := heq ▸ List.dropWhile_suffix isBlank
      have later : rest <:+ a :: d :: blank :: rest := ⟨[a, d, blank], rfl⟩
      have after := (List.dropWhile_suffix isBlank).trans (later.trans start)
      exact (lastWord?_eq_some hword).of_suffix after
    · simp at h

/-- The image is a word without a colon, and the stage a last word. -/
theorem ofChars?_eq_some {base : BaseImage} (h : ofChars? cs = some base) :
    Word base.image.toList ∧ ':' ∉ base.image.toList ∧ ∀ s ∈ base.stage, IsLastWord cs s := by
  rw [ofChars?, Option.ite_none_left_eq_some, Bool.not_eq_true, List.isEmpty_eq_false_iff] at h
  obtain ⟨ne, h⟩ := h
  have inImage : ∀ c ∈ cs.takeWhile fun c => c != ':' && ! isBlank c,
      c ≠ ':' ∧ isBlank c = false := by
    intro c hc
    simpa using List.mem_takeWhile_imp hc
  have word : Word (cs.takeWhile fun c => c != ':' && ! isBlank c) :=
    ⟨ne, fun c hc => (inImage c hc).2⟩
  have colon : ':' ∉ cs.takeWhile fun c => c != ':' && ! isBlank c :=
    fun hc => (inImage _ hc).1 rfl
  have later : cs.dropWhile (fun c => c != ':' && ! isBlank c) <:+ cs := List.dropWhile_suffix _
  split at h
  · next rest heq =>
    rw [Option.ite_none_left_eq_some, Option.map_eq_some_iff] at h
    obtain ⟨-, stage, hstage, rfl⟩ := h
    have after : rest.dropWhile (! isBlank ·) <:+ cs :=
      (List.dropWhile_suffix _).trans ((List.suffix_cons ':' rest).trans (heq ▸ later))
    rw [String.toList_ofList]
    exact ⟨word, colon, fun s hs => (readStage?_eq_some hstage s hs).of_suffix after⟩
  · rw [Option.map_eq_some_iff] at h
    obtain ⟨stage, hstage, rfl⟩ := h
    rw [String.toList_ofList]
    exact ⟨word, colon, fun s hs => (readStage?_eq_some hstage s hs).of_suffix later⟩

/-- How a stage is written after image and tag. -/
def stageSuffix : Option String → List Char
  | none => []
  | some s => ' ' :: 'a' :: 's' :: ' ' :: s.toList

theorem readStage?_stageSuffix (h : ∀ s ∈ stage, Word s.toList) :
    readStage? (stageSuffix stage) = some stage := by
  cases stage with
  | none => rfl
  | some s =>
    have word : Word s.toList := h s rfl
    have hdrop : s.toList.dropWhile isBlank = s.toList :=
      dropWhile_isBlank_eq_self word.trimmed.head
    have start : (stageSuffix (some s)).dropWhile isBlank = 'a' :: 's' :: ' ' :: s.toList := rfl
    have notEnd : atEnd (stageSuffix (some s)) = false := rfl
    have marker : (isWordAs 'a' 's' && isBlank ' ') = true := by decide
    simp only [readStage?, notEnd, start, marker, hdrop, lastWord?_of_word word]
    simp

/-- The word that names an image: the image alone, or with a tag after a colon. -/
inductive ImageWord : String → Option String → String → Prop
  | bare {image : String} : image ≠ "" → ':' ∉ image.toList → ImageWord image none image
  | tagged {image tag : String} : image ≠ "" → ':' ∉ image.toList → tag ≠ "" →
      ImageWord image (some tag) (image ++ ":" ++ tag)

theorem ImageWord.eq_image {image word : String} (h : ImageWord image none word) :
    word = image := by
  cases h
  rfl

theorem image_kept (himage : ∀ c ∈ image, isBlank c = false) (colon : ':' ∉ image) :
    ∀ c ∈ image, (c != ':' && ! isBlank c) = true := by
  intro c hc
  have ne : c ≠ ':' := fun heq => colon (heq ▸ hc)
  simp [ne, himage c hc]

theorem ofChars?_bare (himage : Word image) (colon : ':' ∉ image)
    (behind : ∀ c ∈ rest.head?, isBlank c = true) :
    ofChars? (image ++ rest)
      = (readStage? rest).map fun stage => ⟨String.ofList image, none, stage⟩ := by
  have inImage := image_kept himage.not_blank colon
  obtain ⟨taken, dropped⟩ := takeWhile_of_blank (p := fun c => c != ':' && ! isBlank c) behind
    (fun c blank => by simp [blank])
  have noTag : ∀ more, rest ≠ ':' :: more := by
    rintro more rfl
    exact absurd (behind ':' rfl) (by decide)
  simp only [ofChars?, List.takeWhile_append_of_pos inImage, List.dropWhile_append_of_pos inImage,
    taken, dropped, List.append_nil, List.isEmpty_iff, himage.ne_nil, if_false]

theorem ofChars?_colon (himage : ∀ c ∈ image, isBlank c = false) (colon : ':' ∉ image)
    (htag : ∀ c ∈ tag, isBlank c = false) (behind : ∀ c ∈ rest.head?, isBlank c = true) :
    ofChars? (image ++ ':' :: (tag ++ rest))
      = if image = [] ∨ tag = [] then none
        else (readStage? rest).map fun stage =>
          ⟨String.ofList image, some (String.ofList tag), stage⟩ := by
  have inImage := image_kept himage colon
  have inTag : ∀ c ∈ tag, (! isBlank c) = true := by
    intro c hc
    simp [htag c hc]
  obtain ⟨taken, dropped⟩ := takeWhile_of_blank (p := (! isBlank ·)) behind (by simp)
  simp only [ofChars?, List.takeWhile_append_of_pos inImage, List.dropWhile_append_of_pos inImage]
  simp [List.takeWhile_append_of_pos inTag, List.dropWhile_append_of_pos inTag, taken, dropped,
    ite_or]

/-- The first word of the text decides about image and tag, and what follows it about the stage. -/
theorem ofChars?_word_append {base : BaseImage} (hword : Word word)
    (behind : ∀ c ∈ rest.head?, isBlank c = true) :
    ofChars? (word ++ rest) = some base ↔
      ImageWord base.image base.tag (String.ofList word) ∧ readStage? rest = some base.stage := by
  constructor
  · intro h
    by_cases hcolon : ':' ∈ word
    · obtain ⟨image, tag, rfl, colon⟩ := List.eq_append_cons_of_mem hcolon
      have himage : ∀ c ∈ image, isBlank c = false := fun c hc => hword.not_blank c (by simp [hc])
      have htag : ∀ c ∈ tag, isBlank c = false := fun c hc => hword.not_blank c (by simp [hc])
      rw [List.append_assoc, List.cons_append, ofChars?_colon himage colon htag behind,
        Option.ite_none_left_eq_some, Option.map_eq_some_iff] at h
      obtain ⟨both, stage, hstage, rfl⟩ := h
      rw [not_or] at both
      refine ⟨?_, hstage⟩
      have written : String.ofList (image ++ ':' :: tag)
          = String.ofList image ++ ":" ++ String.ofList tag := by
        rw [← String.toList_inj]
        simp
      rw [written]
      exact .tagged (by simpa using both.1) (by simpa using colon) (by simpa using both.2)
    · rw [ofChars?_bare hword hcolon behind, Option.map_eq_some_iff] at h
      obtain ⟨stage, hstage, rfl⟩ := h
      exact ⟨.bare (by simpa using hword.ne_nil) (by simpa using hcolon), hstage⟩
  · rintro ⟨named, hstage⟩
    obtain ⟨image, tag, stage⟩ := base
    obtain ⟨w, rfl⟩ : ∃ w : String, word = w.toList := ⟨String.ofList word, by simp⟩
    rw [String.ofList_toList] at named
    cases named with
    | bare _ colon =>
      rw [ofChars?_bare hword colon behind, hstage]
      simp
    | @tagged tag someImage colon someTag =>
      have inWord : ∀ c ∈ image.toList ++ ':' :: tag.toList, isBlank c = false := by
        intro c hc
        exact hword.not_blank c (by simpa using hc)
      have himage : ∀ c ∈ image.toList, isBlank c = false := fun c hc => inWord c (by simp [hc])
      have htag : ∀ c ∈ tag.toList, isBlank c = false := fun c hc => inWord c (by simp [hc])
      have written : (image ++ ":" ++ tag).toList ++ rest
          = image.toList ++ ':' :: (tag.toList ++ rest) := by simp
      rw [written, ofChars?_colon himage colon htag behind, hstage]
      simp [someImage, someTag]

theorem ofChars?_tagged (himage : Word image) (colon : ':' ∉ image) (htag : Word tag)
    (hstage : ∀ s ∈ stage, Word s.toList) :
    ofChars? (image ++ ':' :: (tag ++ stageSuffix stage))
      = some ⟨String.ofList image, some (String.ofList tag), stage⟩ := by
  have behind : ∀ c ∈ (stageSuffix stage).head?, isBlank c = true := by
    cases stage <;> simp [stageSuffix, isBlank_space]
  rw [ofChars?_colon himage.not_blank colon htag.not_blank behind, readStage?_stageSuffix hstage]
  simp [himage.ne_nil, htag.ne_nil]

end BaseImage

/-! ### Keyword and value -/

namespace Instruction

variable {line : Int} {text value : String} {keyword : Keyword} {x : Instruction}
  {cs word y : List Char}

/-- The keyword and the value of a text that is not blank. -/
def parts? (text : String) : Option (Keyword × String) :=
  match text.toList with
  | '#' :: rest => some (.comment, String.ofList (trim rest))
  | _ => (firstWord? text).map fun (word, value) => (keywordOf word, value)

/-- The base image that keyword and value name. -/
def baseOf (keyword : Keyword) (value : String) : Option BaseImage :=
  if keyword = .fromImage then BaseImage.ofValue? value else none

/-- The instruction with this keyword and value. -/
def ofParts (line : Int) (text : String) (keyword : Keyword) (value : String) : Instruction where
  line := line
  keyword := keyword
  text := text
  value := value
  image := (baseOf keyword value).map BaseImage.image
  tag := (baseOf keyword value).bind BaseImage.tag
  stage := (baseOf keyword value).bind BaseImage.stage

theorem ofParts_eq (line : Int) (text : String) (keyword : Keyword) (value : String) :
    (match keyword, BaseImage.ofValue? value with
      | .fromImage, some base => withBase { line, keyword, text, value } base
      | _, _ => { line, keyword, text, value }) = ofParts line text keyword value := by
  cases keyword with
  | fromImage =>
    rw [ofParts, baseOf, if_pos rfl]
    cases BaseImage.ofValue? value <;> rfl
  | _ => rfl

theorem parts?_comment {rest : List Char} (h : text.toList = '#' :: rest) :
    parts? text = some (.comment, String.ofList (trim rest)) := by
  simp [parts?, h]

theorem parts?_of_head (h : text.toList.head? ≠ some '#') :
    parts? text = (firstWord? text).map fun (word, value) => (keywordOf word, value) := by
  rw [parts?]
  split
  · next heq => simp [heq] at h
  · rfl

theorem read_eq (line : Int) (text : String) :
    read line text = match parts? text with
      | none => .error .blankLine
      | some (keyword, value) => .ok (ofParts line text keyword value) := by
  rw [read]
  split
  · next rest heq =>
    rw [parts?_comment heq]
    rfl
  · next other =>
    have head : text.toList.head? ≠ some '#' := by
      intro hash
      obtain ⟨rest, heq⟩ := List.head?_eq_some_iff.mp hash
      exact other rest heq
    rw [parts?_of_head head]
    split
    · next heq =>
      rw [heq]
      rfl
    · next word value heq =>
      rw [heq]
      exact congrArg _ (ofParts_eq line text (keywordOf word) value)

/-- Line, keyword and value are all that an instruction is read from. -/
theorem read_eq_ok_iff :
    read line text = .ok x ↔ ∃ keyword value,
      parts? text = some (keyword, value) ∧ x = ofParts line text keyword value := by
  rw [read_eq]
  cases parts? text with
  | none => simp
  | some parts =>
    obtain ⟨keyword, value⟩ := parts
    simp [eq_comm]

theorem text_of_read (h : read line text = .ok x) : x.text = text := by
  obtain ⟨keyword, value, -, rfl⟩ := read_eq_ok_iff.mp h
  rfl

theorem line_of_read (h : read line text = .ok x) : x.line = line := by
  obtain ⟨keyword, value, -, rfl⟩ := read_eq_ok_iff.mp h
  rfl

/-- Only a blank text has no keyword. -/
theorem parts?_eq_none_iff : parts? text = none ↔ ∀ c ∈ text.toList, isBlank c = true := by
  by_cases hash : text.toList.head? = some '#'
  · obtain ⟨rest, heq⟩ := List.head?_eq_some_iff.mp hash
    rw [parts?_comment heq, heq]
    refine ⟨fun nothing => absurd nothing (Option.some_ne_none _), fun blank => ?_⟩
    exact absurd (blank '#' List.mem_cons_self) (by decide)
  · rw [parts?_of_head hash, Option.map_eq_none_iff, firstWord?_eq_none_iff]

theorem parts?_ne_none_iff : parts? text ≠ none ↔ ∃ c ∈ text.toList, isBlank c = false := by
  rw [Ne, parts?_eq_none_iff]
  simp

/-- A text that is not blank writes an instruction. -/
theorem exists_read (h : ∃ c ∈ text.toList, isBlank c = false) :
    ∃ x, read line text = .ok x := by
  obtain ⟨parts, hparts⟩ := Option.ne_none_iff_exists'.mp (parts?_ne_none_iff.mpr h)
  exact ⟨_, read_eq_ok_iff.mpr ⟨parts.1, parts.2, hparts, rfl⟩⟩

@[simp]
theorem keywordOf_name (k : Keyword) : keywordOf k.name = k := by
  cases k <;> decide

theorem word_name (k : Keyword) : Word k.name.toList := by
  cases k <;> decide

theorem plain_name (k : Keyword) : Plain k.name.toList := by
  have one := (word_name k).oneLine
  cases k <;> exact ⟨one, ⟨_, rfl, by decide⟩, _, rfl, by decide, by decide⟩

theorem head_name (h : keyword ≠ .comment) : keyword.name.toList.head? ≠ some '#' := by
  cases keyword with
  | comment => exact absurd rfl h
  | _ => decide

theorem parts?_word (hword : Word word) (head : word.head? ≠ some '#')
    (blank : ∀ c ∈ y.head?, isBlank c = true) :
    parts? (String.ofList (word ++ y))
      = some (keywordOf (String.ofList word), String.ofList (y.dropWhile isBlank)) := by
  have first : (word ++ y).head? ≠ some '#' := by
    rwa [List.head?_append_of_ne_nil _ hword.ne_nil]
  rw [parts?_of_head (by rwa [String.toList_ofList]), ← List.nil_append (word ++ y),
    firstWord?_eq_some (by simp) hword blank]
  rfl

/-- Text after a blank is added to the value, and the keyword stays. -/
theorem parts?_append (h : parts? (String.ofList cs) = some (keyword, value))
    (head : cs.head? ≠ some '#') (blank : ∀ c ∈ y.head?, isBlank c = true) :
    parts? (String.ofList (cs ++ y))
      = some (keyword, String.ofList ((value.toList ++ y).dropWhile isBlank)) := by
  have written : ∃ c ∈ cs, isBlank c = false := by
    have := parts?_ne_none_iff.mp (h ▸ Option.some_ne_none (keyword, value))
    rwa [String.toList_ofList] at this
  obtain ⟨lead, first, rest, rfl, hlead, hfirst, hrest⟩ := exists_blank_append_word written
  have ne : lead ++ (first ++ rest) ≠ [] := by simp [hfirst.ne_nil]
  have behind : ∀ c ∈ (rest ++ y).head?, isBlank c = true := by
    intro c hc
    rw [List.head?_append, Option.mem_def, Option.or_eq_some_iff] at hc
    rcases hc with hc | ⟨-, hc⟩
    · exact hrest c hc
    · exact blank c hc
  rw [parts?_of_head (by rwa [String.toList_ofList]), firstWord?_eq_some hlead hfirst hrest] at h
  cases h
  have again : (lead ++ (first ++ rest) ++ y).head? ≠ some '#' := by
    rwa [List.head?_append_of_ne_nil _ ne]
  rw [parts?_of_head (by rwa [String.toList_ofList]), List.append_assoc, List.append_assoc,
    firstWord?_eq_some hlead hfirst behind, String.toList_ofList, dropWhile_dropWhile_append]
  rfl

/-- The value of a comment is what follows the `#`, trimmed, and any other value the end of its text,
without blanks before it. -/
theorem value_of_parts? (h : parts? (String.ofList cs) = some (keyword, value)) :
    (∃ rest, cs = '#' :: rest ∧ value.toList = trim rest) ∨
      ∃ rest, rest <:+ cs ∧ value.toList = rest.dropWhile isBlank := by
  by_cases hash : cs.head? = some '#'
  · obtain ⟨rest, rfl⟩ := List.head?_eq_some_iff.mp hash
    rw [parts?_comment (String.toList_ofList), Option.some.injEq, Prod.mk.injEq] at h
    exact Or.inl ⟨rest, rfl, by rw [← h.2, String.toList_ofList]⟩
  · rw [parts?_of_head (by simpa using hash), Option.map_eq_some_iff] at h
    obtain ⟨⟨word, rest⟩, hfirst, hparts⟩ := h
    cases hparts
    rw [firstWord?, Option.ite_none_left_eq_some] at hfirst
    obtain ⟨-, hfirst⟩ := hfirst
    cases hfirst
    rw [String.toList_ofList, String.toList_ofList]
    exact Or.inr ⟨_, (List.dropWhile_suffix _).trans (List.dropWhile_suffix _), rfl⟩

theorem value_infix (h : parts? (String.ofList cs) = some (keyword, value)) :
    value.toList <:+: cs := by
  rcases value_of_parts? h with ⟨rest, rfl, hvalue⟩ | ⟨rest, hrest, hvalue⟩
  · rw [hvalue]
    exact (trim_isInfix rest).trans (List.suffix_cons '#' rest).isInfix
  · rw [hvalue]
    exact ((List.dropWhile_suffix isBlank).trans hrest).isInfix

/-- The value of a plain text is the end of it, from a character on that is not blank. -/
theorem plain_value (plain : Plain cs) (h : parts? (String.ofList cs) = some (keyword, value)) :
    value.toList = [] ∨ Plain value.toList := by
  have ending {v : List Char} (hv : v <:+ cs) :
      v.dropWhile isBlank = [] ∨ Plain (v.dropWhile isBlank) := by
    by_cases ne : v.dropWhile isBlank = []
    · exact Or.inl ne
    · exact Or.inr (plain.suffix ((List.dropWhile_suffix isBlank).trans hv)
        (head_dropWhile_isBlank v) ne)
  rcases value_of_parts? h with ⟨rest, rfl, hvalue⟩ | ⟨rest, hrest, hvalue⟩
  · have hrest := List.suffix_cons '#' rest
    rw [hvalue, trim_eq_dropWhile (last_of_suffix hrest plain.trimmed.last)]
    exact ending hrest
  · rw [hvalue]
    exact ending hrest

/-- The image and the stage of a FROM, fit to be written and read again. -/
structure Based (x : Instruction) (image : String) : Prop where
  image_eq : x.image = some image
  word : Word image.toList
  colon : ':' ∉ image.toList
  stage : ∀ s ∈ x.stage, Word s.toList ∧ Plain s.toList

theorem exists_based (plain : Plain cs) (h : read line (String.ofList cs) = .ok x)
    (hk : x.keyword = .fromImage) (known : x.image ≠ none) : ∃ image, Based x image := by
  obtain ⟨keyword, value, hparts, rfl⟩ := read_eq_ok_iff.mp h
  change keyword = .fromImage at hk
  subst hk
  have hvalue := plain_value plain hparts
  cases hbase : BaseImage.ofValue? value with
  | none => simp [ofParts, baseOf, hbase] at known
  | some base =>
    obtain ⟨word, colon, stage⟩ := BaseImage.ofChars?_eq_some hbase
    refine ⟨base.image, by simp [ofParts, baseOf, hbase], word, colon, fun s hs => ?_⟩
    obtain ⟨isWord, place⟩ := stage s (by simpa [ofParts, baseOf, hbase] using hs)
    refine ⟨isWord, ?_⟩
    rcases hvalue with hnil | hplain
    · simp [hnil, isWord.ne_nil] at place
    · rcases place with hsuffix | hmem
      · exact hplain.suffix hsuffix isWord.trimmed.head isWord.ne_nil
      · exact absurd hmem hplain.oneLine.lf_notMem

end Instruction

end Dockerfile
