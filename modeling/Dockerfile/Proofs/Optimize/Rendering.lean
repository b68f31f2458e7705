import Dockerfile.Proofs.Instruction.Lines
import Dockerfile.Proofs.Instruction.Reading
import Dockerfile.Proofs.Optimize.Step

/-!
What the optimizer prints reads as what it computed.

An instruction is `Printed` if its text is one logical line that reads as the instruction itself,
with its value folded (`Rereads`). The other parts of `Printed` are what the passes need in order to
write a printed instruction again: one lemma for each way to write one (`printed_of_read`,
`printed_write`, `printed_pin`), then one for each way in which a pass rewrites
(`printed_of_rewrites`), then the whole pipeline (`printed_optimize`).
-/

namespace Dockerfile

open Text Optimize

/-- `z` is `y` but for its line, its text and the layout of its value. -/
structure Rereads (z y : Instruction) : Prop where
  keyword : z.keyword = y.keyword
  image : z.image = y.image
  tag : z.tag = y.tag
  stage : z.stage = y.stage
  value : z.value = fold y.value

structure Printed (y : Instruction) : Prop where
  text : Continued Closes y.text.toList
  reads : ∀ line, ∃ z, Rereads z y ∧
    Instruction.read line (String.ofList ([' '].intercalate (pieces y.text.toList))) = .ok z
  value : LaidOut y.value.toList
  base : y.keyword = .fromImage → ∃ image, y.Based image
  setting : isMetadata y.keyword = true → y.value.toList ≠ []

variable {x y : Instruction} {line : Int} {k : Keyword} {v : String}

/-! ### Instructions that were read -/

theorem fold_of_plain (h : v.toList = [] ∨ Plain v.toList) : fold v = v := by
  rw [fold]
  rcases h with hnil | plain
  · rw [String.toList_eq_nil_iff.mp hnil]
    rfl
  · rw [foldChars_eq_self plain.oneLine plain.trimmed, String.ofList_toList]

theorem laidOut_of_plain {cs : List Char} (h : cs = [] ∨ Plain cs) : LaidOut cs :=
  h.imp_right Plain.continued

theorem printed_of_read {cs : List Char} (plain : Plain cs)
    (h : Instruction.read line (String.ofList cs) = .ok x)
    (known : x.keyword = .fromImage → x.image ≠ none)
    (setting : isMetadata x.keyword = true → x.value ≠ "") : Printed x := by
  obtain ⟨keyword, value, hparts, rfl⟩ := Instruction.read_eq_ok_iff.mp h
  have hvalue := Instruction.plain_value plain hparts
  have htext : (Instruction.ofParts line (String.ofList cs) keyword value).text.toList = cs :=
    String.toList_ofList
  constructor
  · rw [htext]
    exact plain.continued.closes
  · intro number
    rw [htext, pieces_of_oneLine plain.oneLine, List.intercalate_singleton,
      trim_eq_self plain.trimmed]
    refine ⟨.ofParts number (String.ofList cs) keyword value, ?_, ?_⟩
    · exact ⟨rfl, rfl, rfl, rfl, (fold_of_plain hvalue).symm⟩
    · exact Instruction.read_eq_ok_iff.mpr ⟨keyword, value, hparts, rfl⟩
  · exact laidOut_of_plain hvalue
  · intro hk
    exact Instruction.exists_based plain h hk (known hk)
  · intro hk hnil
    exact setting hk (String.toList_eq_nil_iff.mp hnil)

/-! ### Instructions that were written -/

theorem toList_writtenText (k : Keyword) (v : String) :
    (k.name ++ " " ++ v).toList = k.name.toList ++ ' ' :: v.toList := by
  simp

/-- A text with keyword and value is one logical line that reads as these. -/
theorem read_writtenText (hk : k ≠ .comment) (h : LaidOut v.toList) (number : Int) :
    ∃ text, Instruction.read number
      (String.ofList ([' '].intercalate (pieces (k.name ++ " " ++ v).toList)))
        = .ok (.ofParts number text k (fold v)) := by
  obtain ⟨rest, heq, blank, hfold⟩ :=
    exists_intercalate_pieces_word (Instruction.word_name k) h
  rw [toList_writtenText, heq]
  refine ⟨_, Instruction.read_eq_ok_iff.mpr ⟨k, fold v, ?_, rfl⟩⟩
  rw [Instruction.parts?_word (Instruction.word_name k) (Instruction.head_name hk) blank, hfold,
    String.ofList_toList, Instruction.keywordOf_name, fold]

/-- An instruction whose text is its keyword and its value, and whose base is the one they name. -/
theorem printed_of_text {named : Option BaseImage} (hk : y.keyword ≠ .comment)
    (htext : y.text = y.keyword.name ++ " " ++ y.value) (value : LaidOut y.value.toList)
    (hnamed : Instruction.baseOf y.keyword (fold y.value) = named)
    (image : named.map BaseImage.image = y.image) (tag : named.bind BaseImage.tag = y.tag)
    (stage : named.bind BaseImage.stage = y.stage)
    (base : y.keyword = .fromImage → ∃ image, y.Based image)
    (setting : isMetadata y.keyword = true → y.value.toList ≠ []) : Printed y := by
  subst hnamed
  refine ⟨?_, fun number => ?_, value, base, setting⟩
  · rw [htext, toList_writtenText]
    exact value.afterWord (Instruction.plain_name y.keyword)
  · obtain ⟨text, hread⟩ := read_writtenText hk value number
    rw [htext]
    exact ⟨.ofParts number text y.keyword (fold y.value), ⟨rfl, image, tag, stage, rfl⟩, hread⟩

theorem printed_write (hk : k ≠ .comment) (notFrom : k ≠ .fromImage) (value : LaidOut v.toList)
    (setting : isMetadata k = false ∨ v.toList ≠ []) : Printed (.write line k v) := by
  refine printed_of_text hk rfl value (if_neg notFrom) rfl rfl rfl
    (fun hfrom => absurd hfrom notFrom) (fun hmeta => ?_)
  rcases setting with other | ne
  · exact absurd hmeta (by simp [other])
  · exact ne

/-! ### Pinned images -/

theorem toList_pinnedValue {image : String} (h : x.Based image) :
    (pinnedValue x).toList
      = image.toList ++ ':' :: ("latest".toList ++ BaseImage.stageSuffix x.stage) := by
  rw [pinnedValue, h.image_eq, Change.imageText, Option.getD_some]
  cases hstage : x.stage with
  | none => simp [BaseImage.stageSuffix]
  | some s =>
    have ne : s.toList ≠ [] := (h.stage s hstage).1.ne_nil
    have full : s.isEmpty = false := by
      rw [Bool.eq_false_iff]
      intro hempty
      simp [String.isEmpty_iff.mp hempty] at ne
    simp [full, BaseImage.stageSuffix]

theorem plain_pinnedValue {image : String} (h : x.Based image) :
    Plain (pinnedValue x).toList := by
  rw [toList_pinnedValue h]
  obtain ⟨c, rest, himage⟩ := List.exists_cons_of_ne_nil h.word.ne_nil
  have first : isBlank c = false := h.word.not_blank c (by simp [himage])
  cases hstage : x.stage with
  | none =>
    have tag : OneLine (':' :: ("latest".toList ++ [])) := by decide
    refine ⟨h.word.oneLine.append tag, ⟨c, by simp [himage], first⟩, 't', ?_, by decide, by decide⟩
    simp [BaseImage.stageSuffix]
  | some s =>
    have plain : Plain s.toList := (h.stage s hstage).2
    obtain ⟨d, hd, last⟩ := plain.last
    have tag : OneLine ":latest as ".toList := by decide
    have heq : image.toList ++ ':' :: ("latest".toList ++ BaseImage.stageSuffix (some s))
        = image.toList ++ (":latest as ".toList ++ s.toList) := by simp [BaseImage.stageSuffix]
    rw [heq]
    refine ⟨h.word.oneLine.append (tag.append plain.oneLine), ⟨c, by simp [himage], first⟩, d, ?_,
      last⟩
    simp [List.getLast?_cons, Option.mem_def.mp hd]

theorem ofValue?_pinnedValue {image : String} (h : x.Based image) :
    BaseImage.ofValue? (pinnedValue x) = some ⟨image, some "latest", x.stage⟩ := by
  have tag : Word "latest".toList := by decide
  rw [BaseImage.ofValue?, toList_pinnedValue h,
    BaseImage.ofChars?_tagged h.word h.colon tag fun s hs => (h.stage s hs).1]
  simp

theorem printed_pin {image : String} (h : x.Based image) :
    Printed { Instruction.write line .fromImage (pinnedValue x) with
      image := x.image, tag := some "latest", stage := x.stage } := by
  have plain := plain_pinnedValue h
  have named : Instruction.baseOf .fromImage (fold (pinnedValue x))
      = some ⟨image, some "latest", x.stage⟩ := by
    rw [fold_of_plain (Or.inr plain)]
    exact ofValue?_pinnedValue h
  refine printed_of_text (by simp) rfl (laidOut_of_plain (Or.inr plain)) named h.image_eq.symm rfl
    rfl (fun _ => ⟨image, h.image_eq, h.word, h.colon, h.stage⟩) (fun hk => ?_)
  exact absurd hk (by simp [isMetadata])

/-! ### What a pass writes -/

theorem printed_replacement {pass : Pass} {change : Change} (printed : Printed x)
    (h : pass.replacement? x = some (y, change)) : Printed y := by
  have trimmed : LaidOut (trim x.value.toList) := printed.value.trim
  cases pass with
  | mergeRuns | mergeMetadata => cases h
  | pin =>
    obtain ⟨hk, -, rfl, -⟩ := pin?_eq_some.mp h
    obtain ⟨image, based⟩ := printed.base hk
    exact printed_pin based
  | clean =>
    obtain ⟨-, -, -, rfl, -⟩ := clean?_eq_some.mp h
    refine printed_write (by decide) (by decide) ?_ (Or.inl rfl)
    have removal : Continued Closed "    && rm -rf /var/lib/apt/lists/*".toList :=
      .last (by decide) (Or.inl ⟨"    && rm -rf /var/lib/apt/lists/".toList, '*', by decide⟩)
    rw [String.toList_append, toList_strip]
    exact Or.inr (trimmed.break removal)
  | addProtocol =>
    obtain ⟨-, -, rfl, -⟩ := addProtocol?_eq_some.mp h
    refine printed_write (by decide) (by decide) ?_ (Or.inl rfl)
    rw [String.toList_append, toList_strip]
    exact Or.inr (trimmed.append (by decide) (Or.inl ⟨"/tc".toList, 'p', by decide⟩))
  | addToCopy =>
    obtain ⟨-, rfl, -⟩ := addToCopy?_eq_some.mp h
    exact printed_write (by decide) (by decide) printed.value (Or.inl rfl)
  | dropSudo =>
    obtain ⟨-, -, rfl, -⟩ := dropSudo?_eq_some.mp h
    refine printed_write (by decide) (by decide) ?_ (Or.inl rfl)
    rw [removeAll, String.toList_ofList]
    exact printed.value.removeSudo
  | prependUpdate =>
    obtain ⟨-, -, -, rfl, -⟩ := prependUpdate?_eq_some.mp h
    refine printed_write (by decide) (by decide) ?_ (Or.inl rfl)
    rw [String.toList_append, toList_strip]
    exact Or.inr (trimmed.prepend (by decide) (Or.inr ⟨"apt-get update ".toList, by decide⟩))

theorem toList_joined (separator : String) (block : List Instruction) :
    (joined separator block).toList
      = separator.toList.intercalate (block.map fun x => trim x.value.toList) := by
  simp [joined, String.toList_intercalate, Function.comp_def]

theorem laidOut_joined {separator : String} {a : List Char} {block : List Instruction}
    (hsep : separator.toList = ' ' :: '\\' :: '\n' :: a)
    (h : ∀ x ∈ block, LaidOut (trim x.value.toList) ∧ Continued Closed (a ++ trim x.value.toList)) :
    LaidOut (joined separator block).toList := by
  rw [toList_joined, hsep]
  refine (laidOut_intercalate fun v hv => ?_).1
  obtain ⟨x, hx, rfl⟩ := List.mem_map.mp hv
  exact h x hx

theorem laidOut_joined_commands {block : List Instruction} (printed : ∀ x ∈ block, Printed x) :
    LaidOut (joined Pass.mergeRuns.separator block).toList := by
  refine laidOut_joined (a := "    && ".toList) rfl fun x hx => ?_
  have trimmed := (printed x hx).value.trim
  exact ⟨trimmed, trimmed.prepend (by decide) (Or.inr ⟨"    ".toList, by decide⟩)⟩

/-- Settings are never empty, so each line has one. -/
theorem laidOut_joined_settings {block : List Instruction} (printed : ∀ x ∈ block, Printed x)
    (settings : ∀ x ∈ block, isMetadata x.keyword = true) :
    LaidOut (joined Pass.mergeMetadata.separator block).toList := by
  refine laidOut_joined (a := "    ".toList) rfl fun x hx => ?_
  have ne : x.value.toList ≠ [] := (printed x hx).setting (settings x hx)
  have trimmed := ((printed x hx).value.resolve_left ne).trim
  exact ⟨Or.inr trimmed, trimmed.prependLine (by decide)⟩

theorem joined_ne_nil {separator : String} (ne : separator.toList ≠ []) (first second : Instruction)
    (rest : List Instruction) : (joined separator (first :: second :: rest)).toList ≠ [] := by
  rw [toList_joined, List.map_cons, List.map_cons, List.intercalate_cons_cons]
  simp [ne]

theorem printed_of_rewrites {pass : Pass} {block : List Instruction} (h : pass.Rewrites block y)
    (printed : ∀ x ∈ block, Printed x) : Printed y := by
  cases h with
  | keep => exact printed y List.mem_cons_self
  | replace found => exact printed_replacement (printed _ List.mem_cons_self) found
  | @merge first second rest merges same =>
    cases pass with
    | mergeRuns =>
      have hk : first.keyword = .run := by simpa [Pass.merges] using merges
      rw [hk]
      exact printed_write (by decide) (by decide) (laidOut_joined_commands printed) (Or.inl rfl)
    | mergeMetadata =>
      have hmeta : isMetadata first.keyword = true := merges
      have settings : ∀ x ∈ first :: second :: rest, isMetadata x.keyword = true := by
        intro x hx
        rw [same x hx]
        exact hmeta
      refine printed_write ?_ ?_ (laidOut_joined_settings printed settings)
        (Or.inr (joined_ne_nil (by decide) first second rest))
      · intro hk
        simp [hk, isMetadata] at hmeta
      · intro hk
        simp [hk, isMetadata] at hmeta
    | _ => cases merges

theorem printed_optimize {xs : List Instruction} (h : ∀ x ∈ xs, Printed x) :
    ∀ y ∈ (optimize xs).instructions, Printed y :=
  Pass.forall_mem_applyAll Pass.all (fun _ _ _ _ rewrites => printed_of_rewrites rewrites) h

/-! ### Printing and reading a list -/

theorem forall₂_rereads {lines : List LogicalLine} {ys : List Instruction}
    (h : List.Forall₂ (fun l y => l.chars = [' '].intercalate (pieces y.text.toList)) lines ys)
    (printed : ∀ y ∈ ys, Printed y) :
    List.Forall₂ Rereads (lines.filterMap fun l => l.read.toOption) ys := by
  induction h with
  | nil => exact .nil
  | @cons l y lines ys hchars _ ih =>
    obtain ⟨z, rereads, hread⟩ := (printed y List.mem_cons_self).reads l.number
    have hz : l.read.toOption = some z := by
      rw [LogicalLine.read, hchars, hread]
      rfl
    rw [List.filterMap_cons, hz]
    exact .cons rereads (ih fun w hw => printed w (List.mem_cons_of_mem _ hw))

theorem parse_render {ys : List Instruction} (printed : ∀ y ∈ ys, Printed y) :
    List.Forall₂ Rereads (parse (render ys)) ys := by
  have texts : ∀ t ∈ ys.map fun y => y.text.toList, Continued Closes t := by
    intro t ht
    obtain ⟨y, hy, rfl⟩ := List.mem_map.mp ht
    exact (printed y hy).text
  apply forall₂_rereads _ printed
  rw [LogicalLine.ofText, toList_render]
  have lines := LogicalLine.forall₂_gather_intercalate texts 1
  rwa [List.forall₂_map_right_iff] at lines

/-- The optimized file is read back instruction by instruction, if every FROM of the file names a
base image in the plain form, no setting of it is empty and no continuation in it starts with a lone
backslash. -/
theorem parse_render_optimize (content : String)
    (bases : ∀ x ∈ parse content, x.keyword = .fromImage → x.image ≠ none)
    (settings : ∀ x ∈ parse content, isMetadata x.keyword = true → x.value ≠ "")
    (headed : LogicalLine.Headed false (linesOf content.toList)) :
    List.Forall₂ Rereads (parse (render (optimize (parse content)).instructions))
      (optimize (parse content)).instructions := by
  refine parse_render (printed_optimize fun x hx => ?_)
  obtain ⟨l, hl, hread⟩ := exists_logicalLine_of_mem_parse hx
  have plain : Plain l.chars := LogicalLine.plain_of_mem_ofText headed hl
  exact printed_of_read plain hread (bases x hx) (settings x hx)

/-- A file with a blank line within a continuation, an empty command, and a `sudo` to take out. -/
theorem parse_render_optimize_sudo :
    let content := "FROM a as b\nENV C=1\nENV D=2 \\\n\n E=3\nRUN f\nRUN sudo g \\\n h\nRUN"
    let ys := (optimize (parse content)).instructions
    (optimize (parse content)).changes = [.mergedRuns 3 6, .pinned "a" 1,
        .mergedMetadata .env 2 2, .sudoRemoved 6] ∧
      List.Forall₂ Rereads (parse (render ys)) ys :=
  ⟨by decide +kernel,
    parse_render_optimize _ (by decide +kernel) (by decide +kernel) (by decide +kernel)⟩

end Dockerfile
