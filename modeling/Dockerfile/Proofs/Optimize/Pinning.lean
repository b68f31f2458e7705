import Dockerfile.Proofs.Instruction.FromWords
import Dockerfile.Proofs.Optimize.NormalForm
import Dockerfile.Proofs.Optimize.Rendering

/-!
Base images through the pipeline.

Passes leave the instructions with a keyword that they neither merge nor replace as they are, in
their order (`Pass.filter_applyAll`). So of all the passes only pinning concerns the FROMs, and the
pipeline pins each of them by itself (`froms_optimize`).

* `KeepsWords` — pinning keeps the words of a FROM exactly if the FROM was in the plain form. Of any
  other it knows no image, and writes `None:latest` in its place.
* `origins` — a stage that was built on an earlier stage or on nothing is built on an image from
  outside afterwards, since pinning gives a tag to every name. Only the stages that were built on
  such an image before keep their origin.
-/

namespace Dockerfile

open Text Optimize

/-! ### What a pass leaves alone -/

namespace Pass

/-- The pass neither merges nor replaces instructions with the keyword. -/
def Spares (pass : Pass) (k : Keyword) : Prop :=
  pass.merges k = false ∧ pass.subject? ≠ some k

instance (pass : Pass) (k : Keyword) : Decidable (pass.Spares k) :=
  inferInstanceAs (Decidable (_ ∧ _))

theorem spares_fromImage {pass : Pass} (h : pass ≠ .pin) : pass.Spares .fromImage := by
  cases pass with
  | pin => exact absurd rfl h
  | _ => decide

variable {p : Instruction → Bool}

theorem Spares.keeps {α : Type} {pass : Pass} {view : Instruction → α}
    (spares : ∀ x, p x = true → pass.Spares x.keyword ∧ x.keyword ≠ .copy) :
    pass.Keeps p view := by
  refine .of_replacement? (fun x y change found => ?_) (fun x merges => ?_)
  · have hx : ¬ p x = true := by
      intro hx
      obtain ⟨spared, ne⟩ := spares x hx
      exact (keyword_ne_of_replacement? found spared.2 ne).1 rfl
    have hy : ¬ p y = true := by
      intro hy
      obtain ⟨spared, ne⟩ := spares y hy
      exact (keyword_ne_of_replacement? found spared.2 ne).2 rfl
    simp [hx, hy]
  · rw [Bool.eq_false_iff]
    intro hx
    exact Bool.false_ne_true ((spares x hx).1.1.symm.trans merges)

theorem filter_applyAll {passes : List Pass}
    (spares : ∀ pass ∈ passes, ∀ x, p x = true → pass.Spares x.keyword ∧ x.keyword ≠ .copy)
    (xs : List Instruction) : (applyAll xs passes).instructions.filter p = xs.filter p := by
  have same : ((applyAll xs passes).instructions.filter p).map id = (xs.filter p).map id :=
    map_filter_applyAll (fun pass hpass => Spares.keeps (spares pass hpass)) xs
  rwa [List.map_id, List.map_id] at same

end Pass

/-! ### The FROMs of a list -/

/-- The FROMs, in order. -/
def froms (xs : List Instruction) : List Instruction :=
  xs.filter (·.keyword == .fromImage)

theorem keyword_of_mem_froms {xs : List Instruction} {x : Instruction} (h : x ∈ froms xs) :
    x.keyword = .fromImage := by
  simpa using (List.mem_filter.mp h).2

/-- The instruction that pinning leaves. -/
def pinned (x : Instruction) : Instruction :=
  ((pin? x).map Prod.fst).getD x

variable {x : Instruction}

theorem pinned_of_tag (h : x.tag ≠ none) : pinned x = x := by
  simp [pinned, pin?, h]

theorem pinned_of_untagged (hk : x.keyword = .fromImage) (h : x.tag = none) :
    pinned x = { Instruction.write x.line .fromImage (pinnedValue x) with
      image := x.image, tag := some "latest", stage := x.stage } := by
  rw [pinned, pin?_eq_some.mpr ⟨hk, h, rfl, rfl⟩]
  rfl

theorem keyword_pinned (x : Instruction) : (pinned x).keyword = x.keyword := by
  cases hx : pin? x with
  | none => simp [pinned, hx]
  | some result =>
    obtain ⟨hk, -, heq, -⟩ := pin?_eq_some.mp (show pin? x = some (result.1, result.2) from hx)
    simp [pinned, hx, heq, hk]

theorem froms_applyAll {passes : List Pass} (h : Pass.pin ∉ passes) (xs : List Instruction) :
    froms (Pass.applyAll xs passes).instructions = froms xs := by
  refine Pass.filter_applyAll (fun pass hpass x hx => ?_) xs
  rw [beq_iff_eq.mp hx]
  exact ⟨Pass.spares_fromImage fun heq => h (heq ▸ hpass), by decide⟩

theorem froms_pin (xs : List Instruction) :
    froms (Pass.pin.apply xs).instructions = (froms xs).map pinned := by
  change (xs.map pinned).filter _ = _
  rw [List.filter_map]
  simp only [Function.comp_def, keyword_pinned]
  rfl

/-- The pipeline pins each FROM and leaves it at that. -/
theorem froms_optimize (xs : List Instruction) :
    froms (optimize xs).instructions = (froms xs).map pinned := by
  have parts : Pass.all = [Pass.mergeRuns] ++ ([Pass.pin] ++ [Pass.clean, .addProtocol, .addToCopy,
    .mergeMetadata, .dropSudo, .prependUpdate]) := rfl
  rw [optimize, parts, Pass.applyAll_append, Pass.applyAll_append, froms_applyAll (by decide),
    Pass.applyAll_singleton, froms_pin, froms_applyAll (by decide)]

/-! ### Words kept -/

/-- The word itself, or the word with the tag `latest`. -/
inductive GainsTag (w : List Char) : List Char → Prop
  | same : GainsTag w w
  | latest : GainsTag w (w ++ ":latest".toList)

/-- The same words, except that a marker at their head may be written in another case. -/
inductive Recases : List (List Char) → List (List Char) → Prop
  | same (ws : List (List Char)) : Recases ws ws
  | marker {m m' : List Char} (ws : List (List Char)) :
      BaseImage.IsMarker m → BaseImage.IsMarker m' → Recases (m :: ws) (m' :: ws)

/-- All words of a FROM are kept, in their order. The image, which stands after the flags, may gain
the tag `latest`, and the marker after it may be written in another case. -/
inductive KeepsWords : List (List Char) → List (List Char) → Prop
  | same (ws : List (List Char)) : KeepsWords ws ws
  | pinned (flags : List (List Char)) {rest rest' : List (List Char)} {image image' : List Char} :
      (∀ flag ∈ flags, "--".toList <+: flag) → GainsTag image image' → Recases rest rest' →
      KeepsWords (flags ++ image :: rest) (flags ++ image' :: rest')

theorem recases_of_stageWords {stage : Option String} {ws vs : List (List Char)}
    (hw : BaseImage.StageWords stage ws) (hv : BaseImage.StageWords stage vs) : Recases ws vs := by
  cases hw with
  | absent =>
    cases hv with
    | absent => exact .same _
  | named s hm =>
    cases hv with
    | named _ hm' => exact .marker _ hm hm'

/-- Nothing but `None` and `None:latest` can turn into `None:latest`. -/
theorem eq_of_keepsWords_none {ws : List (List Char)}
    (h : KeepsWords ws ["None:latest".toList]) :
    ws = ["None:latest".toList] ∨ ws = ["None".toList] := by
  generalize hvs : ["None:latest".toList] = vs at h
  cases h with
  | same => exact Or.inl rfl
  | @pinned flags rest rest' image image' _ gains recases =>
    obtain ⟨rfl, rfl, rfl⟩ : flags = [] ∧ image' = "None:latest".toList ∧ rest' = [] := by
      cases flags with
      | nil => simpa [eq_comm] using hvs
      | cons flag flags => simp at hvs
    obtain rfl : rest = [] := by
      cases recases with
      | same => rfl
    generalize hlatest : "None:latest".toList = latest at gains
    cases gains with
    | same => exact Or.inl rfl
    | latest =>
      have himage : "None".toList ++ ":latest".toList = image ++ ":latest".toList := hlatest
      rw [← List.append_cancel_right himage]
      exact Or.inr rfl

/-! ### What pinning writes -/

/-- The base image that the value names is the one that the FROM has. -/
theorem base_of_mem_parse {content : String} (h : x ∈ froms (parse content)) :
    x.image = (BaseImage.ofValue? x.value).map BaseImage.image ∧
      x.tag = (BaseImage.ofValue? x.value).bind BaseImage.tag ∧
      x.stage = (BaseImage.ofValue? x.value).bind BaseImage.stage ∧ Trimmed x.value.toList := by
  have hk := keyword_of_mem_froms h
  obtain ⟨l, hl, hread⟩ := exists_logicalLine_of_mem_parse (List.mem_of_mem_filter h)
  obtain ⟨keyword, value, hparts, rfl⟩ := Instruction.read_eq_ok_iff.mp hread
  change keyword = .fromImage at hk
  subst hk
  exact ⟨rfl, rfl, rfl, Instruction.trimmed_value (LogicalLine.last_of_mem_gather hl) hparts⟩

theorem pinnedValue_of_unknown (image : x.image = none) (stage : x.stage = none) :
    pinnedValue x = "None:latest" := by
  simp [pinnedValue, image, stage, Change.imageText]

theorem wordsOf_pinnedValue {image : String} (himage : x.image = some image)
    (word : Word image.toList) (stage : ∀ s ∈ x.stage, Word s.toList) :
    ∃ rest, wordsOf (pinnedValue x).toList = (image.toList ++ ":latest".toList) :: rest ∧
      BaseImage.StageWords x.stage rest := by
  have latest : Word (image.toList ++ ":latest".toList) := by
    refine ⟨by simp [word.ne_nil], fun c hc => ?_⟩
    rcases List.mem_append.mp hc with hc | hc
    · exact word.not_blank c hc
    · have tag : Word ":latest".toList := by decide
      exact tag.not_blank c hc
  have base : (Change.imageText x.image ++ ":latest").toList
      = image.toList ++ ":latest".toList := by
    rw [himage, Change.imageText, Option.getD_some, String.toList_append]
  cases hstage : x.stage with
  | none =>
    refine ⟨[], ?_, .absent⟩
    simp only [pinnedValue, hstage, base]
    exact wordsOf_word latest
  | some s =>
    have hs : Word s.toList := stage s hstage
    have full : s.isEmpty = false := by
      rw [Bool.eq_false_iff]
      intro hempty
      exact hs.ne_nil (by simp [String.isEmpty_iff.mp hempty])
    refine ⟨["as".toList, s.toList], ?_, .named s BaseImage.isMarker_as⟩
    have hvalue : (pinnedValue x).toList
        = (image.toList ++ ":latest".toList) ++ (' ' :: ("as".toList ++ ' ' :: s.toList)) := by
      simp [pinnedValue, hstage, full, himage, Change.imageText]
    have marker : Word "as".toList := by decide
    rw [hvalue, wordsOf_append_cons (by decide), wordsOf_append_cons (by decide),
      wordsOf_word latest, wordsOf_word marker, wordsOf_word hs]
    rfl

theorem ofValue?_none : BaseImage.ofValue? "None" = some ⟨"None", none, none⟩ := by
  decide +kernel

theorem ofValue?_none_latest :
    BaseImage.ofValue? "None:latest" = some ⟨"None", some "latest", none⟩ := by
  decide +kernel

/-- A FROM that is not in the plain form does not consist of a word that could be pinned so. -/
theorem not_keepsWords_none (ends : Trimmed x.value.toList)
    (unknown : BaseImage.ofValue? x.value = none) :
    ¬ KeepsWords (wordsOf x.value.toList) ["None:latest".toList] := by
  intro keeps
  rcases eq_of_keepsWords_none keeps with hwords | hwords
  · rw [String.toList_inj.mp (eq_of_wordsOf_eq_singleton ends hwords),
      ofValue?_none_latest] at unknown
    cases unknown
  · rw [String.toList_inj.mp (eq_of_wordsOf_eq_singleton ends hwords), ofValue?_none] at unknown
    cases unknown

/-- A FROM in the plain form, without a tag: its words before and after it is pinned. -/
theorem exists_words_pinned {content : String} (h : x ∈ froms (parse content))
    (known : x.image ≠ none) (untagged : x.tag = none) :
    ∃ image rest rest', wordsOf x.value.toList = image :: rest ∧
      wordsOf (pinned x).value.toList = (image ++ ":latest".toList) :: rest' ∧
      BaseImage.StageWords x.stage rest ∧ BaseImage.StageWords x.stage rest' := by
  obtain ⟨himage, htag, hstage, -⟩ := base_of_mem_parse h
  cases hbase : BaseImage.ofValue? x.value with
  | none =>
    rw [hbase] at himage
    exact absurd himage known
  | some base =>
    rw [hbase] at himage htag hstage
    obtain ⟨image, tag, stage⟩ := base
    obtain rfl : tag = none := htag.symm.trans untagged
    change x.stage = stage at hstage
    subst hstage
    obtain ⟨word, -, places⟩ := BaseImage.ofChars?_eq_some hbase
    obtain ⟨first, rest, hwords, named, hrest⟩ := BaseImage.wordsOf_of_ofChars? hbase
    obtain rfl : first = image.toList :=
      String.toList_ofList.symm.trans (congrArg String.toList named.eq_image)
    obtain ⟨rest', hwords', hrest'⟩ := wordsOf_pinnedValue himage word fun s hs => (places s hs).1
    rw [pinned_of_untagged (keyword_of_mem_froms h) untagged]
    exact ⟨image.toList, rest, rest', hwords, hwords', hrest, hrest'⟩

theorem keepsWords_pinned_iff {content : String} (h : x ∈ froms (parse content)) :
    (KeepsWords (wordsOf x.value.toList) (wordsOf (pinned x).value.toList) ↔ x.image ≠ none) ∧
      (x.image = none → (pinned x).value = "None:latest") := by
  obtain ⟨himage, htag, hstage, ends⟩ := base_of_mem_parse h
  have hk := keyword_of_mem_froms h
  cases hbase : BaseImage.ofValue? x.value with
  | none =>
    rw [hbase] at himage htag hstage
    have value : (pinned x).value = "None:latest" := by
      rw [pinned_of_untagged hk htag]
      exact pinnedValue_of_unknown himage hstage
    have words : wordsOf "None:latest".toList = ["None:latest".toList] := by decide +kernel
    rw [value, words]
    refine ⟨⟨fun keeps => ?_, fun known => absurd himage known⟩, fun _ => rfl⟩
    exact absurd keeps (not_keepsWords_none ends hbase)
  | some base =>
    rw [hbase] at himage htag hstage
    have known : x.image ≠ none := by simp [himage]
    refine ⟨⟨fun _ => known, fun _ => ?_⟩, fun unknown => absurd unknown known⟩
    by_cases tagged : x.tag = none
    · obtain ⟨image, rest, rest', hwords, hwords', hrest, hrest'⟩ :=
        exists_words_pinned h known tagged
      rw [hwords, hwords']
      exact .pinned [] (by simp) .latest (recases_of_stageWords hrest hrest')
    · rw [pinned_of_tag tagged]
      exact .same _

/-- Pinning keeps the words of a FROM exactly if it was read in the plain form; of any other FROM
nothing is left. -/
theorem keepsWords_optimize_iff (content : String) :
    List.Forall₂ (fun x y =>
        (KeepsWords (wordsOf x.value.toList) (wordsOf y.value.toList) ↔ x.image ≠ none) ∧
        (x.image = none → y.value = "None:latest"))
      (froms (parse content)) (froms (optimize (parse content)).instructions) := by
  rw [froms_optimize, List.forall₂_map_right_iff, List.forall₂_same]
  exact fun x hx => keepsWords_pinned_iff hx

/-- A flag before the image is enough to lose both. -/
theorem not_keepsWords_optimize_flag :
    let content := "FROM --platform=linux/amd64 ubuntu:22.04"
    ¬ List.Forall₂ (fun x y => KeepsWords (wordsOf x.value.toList) (wordsOf y.value.toList))
      (froms (parse content)) (froms (optimize (parse content)).instructions) := by
  intro content keeps
  have before : (froms (parse content)).map (fun x => wordsOf x.value.toList)
      = [["--platform=linux/amd64".toList, "ubuntu:22.04".toList]] := by decide +kernel
  have after : (froms (optimize (parse content)).instructions).map (fun x => wordsOf x.value.toList)
      = [["None:latest".toList]] := by decide +kernel
  rw [← List.forall₂_map_right_iff, ← List.forall₂_map_left_iff, before, after,
    List.forall₂_cons] at keeps
  rcases eq_of_keepsWords_none keeps.1 with heq | heq
  · simp at heq
  · simp at heq

/-! ### Origins of stages -/

/-- What a stage is built on: the stage of an earlier FROM, counted from the first, nothing, or an
image from outside. -/
inductive Origin where
  | stage (index : Nat)
  | scratch
  | external
  deriving DecidableEq, Repr

/-- The latest of some FROMs that names its stage so. -/
def latestStage? (earlier : List Instruction) (name : String) : Option Nat :=
  (List.range earlier.length).reverse.find? fun j => earlier[j]?.bind Instruction.stage == some name

/-- The origin of a stage, after the FROMs of the earlier ones. A name with a tag is never that of a
stage, nor `scratch`. -/
def originAfter (earlier : List Instruction) (x : Instruction) : Origin :=
  match x.image, x.tag with
  | some image, none =>
    match latestStage? earlier image with
    | some j => .stage j
    | none => if image = "scratch" then .scratch else .external
  | _, _ => .external

def originsAfter (earlier : List Instruction) : List Instruction → List Origin
  | [] => []
  | x :: xs => originAfter earlier x :: originsAfter (earlier ++ [x]) xs

/-- The origins of the stages of a list, in order. -/
def origins (xs : List Instruction) : List Origin :=
  originsAfter [] (froms xs)

theorem originAfter_of_tag {earlier : List Instruction} (h : x.tag ≠ none) :
    originAfter earlier x = .external := by
  rw [originAfter]
  split
  · next htag => exact absurd htag h
  · rfl

theorem tag_pinned (hk : x.keyword = .fromImage) :
    (pinned x).tag = some (x.tag.getD "latest") := by
  cases htag : x.tag with
  | none => rw [pinned_of_untagged hk htag]; rfl
  | some tag => rw [pinned_of_tag (by simp [htag]), htag]; rfl

theorem names_pinned (hk : x.keyword = .fromImage) :
    (pinned x).image = x.image ∧ (pinned x).stage = x.stage := by
  by_cases htag : x.tag = none
  · rw [pinned_of_untagged hk htag]
    exact ⟨rfl, rfl⟩
  · rw [pinned_of_tag htag]
    exact ⟨rfl, rfl⟩

/-- Once pinned, every stage is built on an image from outside. -/
theorem originsAfter_map_pinned {xs : List Instruction}
    (h : ∀ x ∈ xs, x.keyword = .fromImage) (earlier before : List Instruction) :
    List.Forall₂ (fun o o' => o' = o ↔ o = .external) (originsAfter earlier xs)
      (originsAfter before (xs.map pinned)) := by
  induction xs generalizing earlier before with
  | nil => exact .nil
  | cons x xs ih =>
    have tagged : (pinned x).tag ≠ none := by simp [tag_pinned (h x List.mem_cons_self)]
    refine .cons ?_ (ih (fun z hz => h z (List.mem_cons_of_mem _ hz)) _ _)
    rw [originAfter_of_tag tagged, eq_comm]

/-- A stage keeps its origin exactly if that is an image from outside: image and name of the stage
stay as they are, but every image has a tag afterwards. -/
theorem origins_optimize (xs : List Instruction) :
    List.Forall₂ (fun o o' => o' = o ↔ o = .external) (origins xs)
      (origins (optimize xs).instructions) ∧
    List.Forall₂ (fun x y => y.image = x.image ∧ y.stage = x.stage ∧
        y.tag = some (x.tag.getD "latest"))
      (froms xs) (froms (optimize xs).instructions) := by
  rw [origins, origins, froms_optimize]
  refine ⟨originsAfter_map_pinned (fun x hx => keyword_of_mem_froms hx) [] [], ?_⟩
  rw [List.forall₂_map_right_iff, List.forall₂_same]
  intro x hx
  have hk := keyword_of_mem_froms hx
  exact ⟨(names_pinned hk).1, (names_pinned hk).2, tag_pinned hk⟩

/-- A stage on an earlier one and a stage on nothing, both of which lose their origin. -/
theorem origins_optimize_stages :
    let xs := parse "FROM golang:1.21 as build\nFROM build\nFROM scratch"
    (∀ x ∈ froms xs, x.image ≠ none) ∧ origins xs = [.external, .stage 0, .scratch] ∧
      origins (optimize xs).instructions = [.external, .external, .external] := by
  decide +kernel

end Dockerfile
