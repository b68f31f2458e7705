import Mathlib.Data.List.TakeWhile
import Dockerfile.Instruction
import Dockerfile.Proofs.Related
import Dockerfile.Proofs.Rule.Analysis

/-!
How much of a file a rule looks at.

A stage can be copied from only below the FROM that names it, and a container runs as the user of
the last stage. The rules on these two go through the whole file instead. A COPY from a stage is
passed if any FROM names that stage, above or below (`reportsEach_checkUnknownStage`), and the last
USER counts even where another stage starts below it (`checkRootUser_eq_nil_iff`).
-/

namespace Dockerfile

open Text

/-! ### The name in a flag -/

namespace Text

variable {c : Char} {cs w value : List Char} {flag name : String}

theorem bne_of_not_mem (h : c ∉ w) : ∀ d ∈ w, (d != c) = true := by
  intro d hd
  rw [bne_iff_ne]
  exact ne_of_mem_of_not_mem hd h

theorem takeWhile_ne_eq_iff :
    cs.takeWhile (· != c) = w ↔ c ∉ w ∧ ∃ more, cs = w ++ more ∧ ∀ d ∈ more.head?, d = c := by
  constructor
  · rintro rfl
    refine ⟨fun hc => ?_, cs.dropWhile (· != c), List.takeWhile_append_dropWhile.symm, ?_⟩
    · simpa using List.mem_takeWhile_imp hc
    · intro d hd
      have stop := List.head?_dropWhile_not (· != c) cs
      simpa [Option.mem_def.mp hd] using stop
  · rintro ⟨hw, more, rfl, stop⟩
    rw [List.takeWhile_append_of_pos (bne_of_not_mem hw)]
    cases more with
    | nil => simp
    | cons d more => simp [stop d rfl]

theorem before_ofList_eq_iff :
    before c (String.ofList value) = name ↔
      c ∉ name.toList ∧ ∃ more, value = name.toList ++ more ∧ ∀ d ∈ more.head?, d = c := by
  rw [before, String.toList_ofList, ← String.toList_inj, String.toList_ofList, takeWhile_ne_eq_iff]

theorem after_ofList_append {key : List Char} (hkey : c ∉ key) :
    after c (String.ofList (key ++ c :: value)) = String.ofList value := by
  rw [after, String.toList_ofList, List.dropWhile_append_of_pos (bne_of_not_mem hkey)]
  simp

/-- The name stands in the flag between the first equals sign and the second, or the end. -/
def FlagNames (flag name : String) : Prop :=
  ∃ key more, flag.toList = key ++ '=' :: (name.toList ++ more) ∧ '=' ∉ key ∧ '=' ∉ name.toList ∧
    ∀ c ∈ more.head?, c = '='

theorem flagNames_iff (h : '=' ∈ flag.toList) :
    FlagNames flag name ↔ before '=' (after '=' flag) = name := by
  constructor
  · rintro ⟨key, more, hflag, hkey, hname, stop⟩
    rw [← String.ofList_toList (s := flag), hflag, after_ofList_append hkey, before_ofList_eq_iff]
    exact ⟨hname, more, rfl, stop⟩
  · intro named
    obtain ⟨key, value, hflag, hkey⟩ := List.eq_append_cons_of_mem h
    rw [← String.ofList_toList (s := flag), hflag, after_ofList_append hkey,
      before_ofList_eq_iff] at named
    obtain ⟨hname, more, rfl, stop⟩ := named
    exact ⟨key, more, hflag, hkey, hname, stop⟩

theorem toList_lower (s : String) : (lower s).toList = s.toList.flatMap lowerForm :=
  String.toList_ofList

/-- Only the equals sign has a lower-case form with an equals sign in it. -/
theorem eq_equals_of_mem_lowerForm (h : '=' ∈ lowerForm c) : c = '=' := by
  unfold lowerForm at h
  split at h
  · simp at h
  · simp at h
  · rw [List.mem_singleton] at h
    delta Char.toLower at h
    split at h
    · next large =>
      -- a capital letter is above the equals sign already
      have least := UInt32.le_iff_toNat_le.mp large.1
      have most := UInt32.le_iff_toNat_le.mp large.2
      have place := congrArg Char.toNat h
      simp at least most place
      omega
    · exact h.symm

end Text

namespace Rule

variable {xs ys : List Instruction} {x : Instruction} {stage : String}

/-! ### Stages to copy from -/

/-- A FROM whose second word is `AS`, in any case, and whose third word is the name. -/
def NamesStage (x : Instruction) (stage : String) : Prop :=
  x.keyword = .fromImage ∧
    ∃ image marker rest, words x.value = image :: marker :: stage :: rest ∧ upper marker = "AS"

def IsFromFlag (word : String) : Prop :=
  startsWith (lower word) "--from=" = true

/-- A COPY or an ADD whose first `--from=` flag, in any case, names the stage. -/
def CopiesFrom (x : Instruction) (stage : String) : Prop :=
  (x.keyword = .copy ∨ x.keyword = .add) ∧
    ∃ others flag rest, words x.value = others ++ flag :: rest ∧ (∀ w ∈ others, ¬ IsFromFlag w) ∧
      IsFromFlag flag ∧ FlagNames flag stage

/-- A COPY or an ADD from a stage that none of the instructions names. -/
def CopiesUnnamed (xs : List Instruction) (x : Instruction) : Prop :=
  ∃ stage, CopiesFrom x stage ∧ ∀ y ∈ xs, ¬ NamesStage y stage

theorem namesStage_iff :
    NamesStage x stage ↔ x.keyword = .fromImage ∧ stageName? x.value = some stage := by
  refine and_congr_right fun _ => ?_
  unfold stageName?
  constructor
  · rintro ⟨image, marker, rest, hwords, hmarker⟩
    simp [hwords, hmarker]
  · intro named
    split at named
    · next image marker name rest hwords =>
      obtain ⟨hmarker, same⟩ := Option.ite_none_right_eq_some.mp named
      obtain rfl := Option.some_inj.mp same
      exact ⟨image, marker, rest, hwords, hmarker⟩
    · cases named

theorem mem_stageNames_iff : stage ∈ stageNames xs ↔ ∃ x ∈ xs, NamesStage x stage := by
  simp only [stageNames, List.mem_filterMap, List.mem_filter, beq_iff_eq, and_assoc,
    namesStage_iff]

theorem equals_mem_of_isFromFlag {word : String} (h : IsFromFlag word) : '=' ∈ word.toList := by
  rw [IsFromFlag, startsWith, List.isPrefixOf_iff_prefix, toList_lower] at h
  have equals : '=' ∈ "--from=".toList := by simp
  obtain ⟨c, hc, lowered⟩ := List.mem_flatMap.mp (h.subset equals)
  rwa [← eq_equals_of_mem_lowerForm lowered]

theorem fromFlag?_eq_some_iff {value flag : String} :
    fromFlag? value = some flag ↔ IsFromFlag flag ∧
      ∃ others rest, words value = others ++ flag :: rest ∧ ∀ w ∈ others, ¬ IsFromFlag w := by
  simp [fromFlag?, List.find?_eq_some_iff_append, IsFromFlag]

/-- The stage that a flag names is always found: it has an equals sign. -/
theorem flagStage_of_isFromFlag {flag : String} (h : IsFromFlag flag) (line : Int) :
    flagStage line flag = .ok (before '=' (after '=' flag)) :=
  if_pos (equals_mem_of_isFromFlag h)

/-- The stage that a COPY or an ADD copies from, if it has a flag for that. -/
def copiedStage? (x : Instruction) : Option String :=
  (fromFlag? x.value).map fun flag => before '=' (after '=' flag)

theorem copiesFrom_iff :
    CopiesFrom x stage ↔ isCopy x = true ∧ copiedStage? x = some stage := by
  have copies : (x.keyword = .copy ∨ x.keyword = .add) ↔ isCopy x = true := by
    simp [isCopy]
  rw [CopiesFrom, copies, copiedStage?, Option.map_eq_some_iff]
  simp only [fromFlag?_eq_some_iff]
  refine and_congr_right fun _ => ⟨?_, ?_⟩
  · rintro ⟨others, flag, rest, hwords, unflagged, isFlag, named⟩
    exact ⟨flag, ⟨isFlag, others, rest, hwords, unflagged⟩,
      (flagNames_iff (equals_mem_of_isFromFlag isFlag)).mp named⟩
  · rintro ⟨flag, ⟨isFlag, others, rest, hwords, unflagged⟩, named⟩
    exact ⟨others, flag, rest, hwords, unflagged, isFlag,
      (flagNames_iff (equals_mem_of_isFromFlag isFlag)).mpr named⟩

theorem copiesUnnamed_iff :
    CopiesUnnamed xs x ↔ isCopy x = true ∧ ∃ stage ∈ copiedStage? x, stage ∉ stageNames xs := by
  simp only [CopiesUnnamed, copiesFrom_iff, mem_stageNames_iff, Option.mem_def, not_exists, not_and,
    and_assoc, exists_and_left]

instance (xs : List Instruction) : DecidablePred (CopiesUnnamed xs) :=
  fun _ => decidable_of_iff _ copiesUnnamed_iff.symm

/-- The findings of the rule are one on each of the chosen instructions, in order. -/
def ReportsEach (rule : Rule) (found : List Finding) (chosen : List Instruction) : Prop :=
  List.Forall₂ (fun f x => f.rule = rule ∧ f.line = x.line) found chosen

/-- Going through instructions without a fault gives one finding on each that there is one on. -/
theorem reportsEach_mapM {rule : Rule} {report : Instruction → Except Fault (Option Finding)}
    {p : Instruction → Bool}
    (reports : ∀ x, ∃ found, report x = .ok found ∧ found.isSome = p x ∧
      ∀ f ∈ found, f.rule = rule ∧ f.line = x.line) (xs : List Instruction) :
    ∃ found, (xs.mapM report).map (·.filterMap id) = .ok found ∧
      ReportsEach rule found (xs.filter p) := by
  induction xs with
  | nil => exact ⟨[], rfl, .nil⟩
  | cons x xs ih =>
    obtain ⟨here, hhere, chosen, points⟩ := reports x
    obtain ⟨_, later, each⟩ := ih
    obtain ⟨rest, hrest, rfl⟩ := map_eq_ok_iff.mp later
    have all := mapM_eq_ok_iff.mpr (.cons hhere (mapM_eq_ok_iff.mp hrest))
    refine ⟨_, map_eq_ok_iff.mpr ⟨here :: rest, all, rfl⟩, ?_⟩
    rw [List.filter_cons, ← chosen]
    cases here with
    | none => exact each
    | some f => exact .cons (points f rfl) each

theorem unknownStageFinding_ok (stages : List String) (x : Instruction) :
    ∃ found, unknownStageFinding stages x = .ok found ∧
      found.isSome = decide (∃ stage ∈ copiedStage? x, stage ∉ stages) ∧
      ∀ f ∈ found, f.rule = .unknownStage ∧ f.line = x.line := by
  unfold unknownStageFinding copiedStage?
  cases hflag : fromFlag? x.value with
  | none => exact ⟨none, rfl, by simp, by simp⟩
  | some flag =>
    have found := flagStage_of_isFromFlag (fromFlag?_eq_some_iff.mp hflag).1 x.line
    simp only [found, Except.map]
    refine ⟨_, rfl, ?_, ?_⟩
    · by_cases named : before '=' (after '=' flag) ∈ stages <;> simp [named]
    · intro f hf
      rw [Option.mem_def] at hf
      split at hf
      · cases hf
      · cases hf
        exact ⟨rfl, rfl⟩

theorem reportsEach_checkUnknownStage (xs : List Instruction) :
    ∃ found, checkUnknownStage xs = .ok found ∧
      ReportsEach .unknownStage found (xs.filter (CopiesUnnamed xs)) := by
  have chosen : xs.filter (CopiesUnnamed xs) = (xs.filter isCopy).filter
      fun x => decide (∃ stage ∈ copiedStage? x, stage ∉ stageNames xs) := by
    rw [List.filter_filter]
    refine List.filter_congr fun x _ => ?_
    simp only [copiesUnnamed_iff, Bool.decide_and, Bool.decide_eq_true, Bool.and_comm]
  rw [chosen]
  exact reportsEach_mapM (unknownStageFinding_ok (stageNames xs)) (xs.filter isCopy)

theorem copiesUnnamed_iff_of_copiesFrom (copies : CopiesFrom x stage) :
    CopiesUnnamed xs x ↔ ∀ y ∈ xs, ¬ NamesStage y stage := by
  constructor
  · rintro ⟨stage', copies', unnamed⟩
    obtain ⟨-, hstage⟩ := copiesFrom_iff.mp copies
    obtain ⟨-, hstage'⟩ := copiesFrom_iff.mp copies'
    obtain rfl := Option.some_inj.mp (hstage.symm.trans hstage')
    exact unnamed
  · exact fun unnamed => ⟨stage, copies, unnamed⟩

theorem not_namesStage_of_copiesFrom (copies : CopiesFrom x stage) : ¬ NamesStage x stage := by
  rintro ⟨base, -⟩
  simp [CopiesFrom, base] at copies

/-- Every COPY and ADD from a stage that no FROM of the file names is reported, and no other. This
is what it should be, that no FROM above names the stage, exactly if the stage is named above where
it is named below. -/
theorem unknownStage_reports_unnamed (xs : List Instruction) :
    (∃ found, checkUnknownStage xs = .ok found ∧
        ReportsEach .unknownStage found (xs.filter (CopiesUnnamed xs))) ∧
      ∀ before x after stage, xs = before ++ x :: after → CopiesFrom x stage →
        ((CopiesUnnamed xs x ↔ ∀ y ∈ before, ¬ NamesStage y stage) ↔
          ((∃ y ∈ after, NamesStage y stage) → ∃ y ∈ before, NamesStage y stage)) := by
  refine ⟨reportsEach_checkUnknownStage xs, ?_⟩
  rintro before x after stage rfl copies
  have named {ys : List Instruction} :
      (∃ y ∈ ys, NamesStage y stage) ↔ ¬ ∀ y ∈ ys, ¬ NamesStage y stage := by
    simp
  have around : (∀ y ∈ before ++ x :: after, ¬ NamesStage y stage) ↔
      (∀ y ∈ before, ¬ NamesStage y stage) ∧ ∀ y ∈ after, ¬ NamesStage y stage := by
    rw [List.forall_mem_append, List.forall_mem_cons]
    simp only [not_namesStage_of_copiesFrom copies, not_false_iff, true_and]
  rw [copiesUnnamed_iff_of_copiesFrom copies, around, and_iff_left_iff_imp, named, named,
    not_imp_not]

/-- A stage that is named above may be named again below. -/
theorem unknownStage_reports_unnamed_again :
    let above := Instruction.write 1 .fromImage "golang:1.21 as build"
    let x := Instruction.write 2 .add "--chown=app --FROM=build=1 /a /b"
    let below := Instruction.write 3 .fromImage "alpine:3.19 AS build"
    CopiesFrom x "build" ∧ NamesStage below "build" ∧
      (CopiesUnnamed [above, x, below] x ↔ ∀ y ∈ [above], ¬ NamesStage y "build") := by
  intro above x below
  have copies : CopiesFrom x "build" := copiesFrom_iff.mpr (by decide +kernel)
  have namedAbove : NamesStage above "build" := namesStage_iff.mpr (by decide +kernel)
  have namedBelow : NamesStage below "build" := namesStage_iff.mpr (by decide +kernel)
  obtain ⟨-, placed⟩ := unknownStage_reports_unnamed [above, x, below]
  refine ⟨copies, namedBelow, (placed [above] x [below] "build" rfl copies).mpr fun _ => ?_⟩
  exact ⟨above, List.mem_singleton_self above, namedAbove⟩

/-- A COPY goes unreported from a stage that is named only below it. -/
theorem unknownStage_named_below :
    let above := Instruction.write 1 .fromImage "golang:1.21"
    let x := Instruction.write 2 .copy "--from=build /a /b"
    let below := Instruction.write 3 .fromImage "alpine:3.19 AS build"
    CopiesFrom x "build" ∧ ¬ NamesStage above "build" ∧
      checkUnknownStage [above, x, below] = .ok [] := by
  intro above x below
  rw [copiesFrom_iff, namesStage_iff]
  decide +kernel

/-! ### The user of the container -/

/-- The last USER of the instructions switches to another user than root. -/
def EndsAsUser (xs : List Instruction) : Prop :=
  ∃ before user after, xs = before ++ user :: after ∧ user.keyword = .user ∧
    (∀ x ∈ after, x.keyword ≠ .user) ∧ strip user.value ≠ "root"

theorem checkRootUser_eq_nil_iff : checkRootUser xs = [] ↔ EndsAsUser xs := by
  have last {user : Instruction} : lastUser? xs = some user ↔ user.keyword = .user ∧
      ∃ before after, xs = before ++ user :: after ∧ ∀ x ∈ after, x.keyword ≠ .user := by
    simp only [lastUser?, getLast?_filter_eq_some_iff, beq_iff_eq, beq_eq_false_iff_ne]
  rw [checkRootUser]
  constructor
  · intro silent
    split at silent
    · cases silent
    · next user found =>
      obtain ⟨hk, before, after, hxs, later⟩ := last.mp found
      refine ⟨before, user, after, hxs, hk, later, fun root => ?_⟩
      simp [root] at silent
  · rintro ⟨before, user, after, hxs, hk, later, other⟩
    rw [last.mpr ⟨hk, before, after, hxs, later⟩]
    exact if_neg other

theorem endsAsUser_append :
    EndsAsUser (xs ++ ys) ↔
      EndsAsUser ys ∨ (∀ y ∈ ys, y.keyword ≠ .user) ∧ EndsAsUser xs := by
  constructor
  · rintro ⟨before, user, after, split, hk, later, other⟩
    rcases List.append_eq_append_iff.mp split with ⟨lead, rfl, rfl⟩ | ⟨rest, rfl, hrest⟩
    · exact .inl ⟨lead, user, after, rfl, hk, later, other⟩
    · cases rest with
      | nil => exact .inl ⟨[], user, after, hrest.symm, hk, later, other⟩
      | cons x rest =>
        obtain ⟨rfl, rfl⟩ := List.cons_eq_cons.mp hrest
        refine .inr ⟨fun y hy => later y (List.mem_append_right _ hy), before, user, rest, rfl, hk,
          fun y hy => later y (List.mem_append_left _ hy), other⟩
  · rintro (⟨before, user, after, rfl, hk, later, other⟩ |
      ⟨none, before, user, after, rfl, hk, later, other⟩)
    · exact ⟨xs ++ before, user, after, by rw [List.append_assoc], hk, later, other⟩
    · refine ⟨before, user, after ++ ys, by rw [List.append_assoc, List.cons_append], hk, ?_, other⟩
      exact fun x hx => (List.mem_append.mp hx).elim (later x) (none x)

theorem endsAsUser_concat (h : x.keyword ≠ .user) : EndsAsUser (xs ++ [x]) ↔ EndsAsUser xs := by
  have none : ¬ EndsAsUser [x] := by
    rintro ⟨before, user, after, split, hk, -, -⟩
    have hmem : user ∈ [x] := by simp [split]
    exact h (List.mem_singleton.mp hmem ▸ hk)
  rw [endsAsUser_append]
  simp [none, h]

/-- The rule is silent exactly if the last USER of the last stage is another than root, or there is
none in that stage and the last one of the stages above it is another than root. -/
theorem rootUser_silent_iff (h : ∃ x ∈ xs, x.keyword = .fromImage) :
    ∃ earlier base stage, xs = earlier ++ base :: stage ∧ base.keyword = .fromImage ∧
      (∀ x ∈ stage, x.keyword ≠ .fromImage) ∧
      (checkRootUser xs = [] ↔
        EndsAsUser stage ∨ (∀ x ∈ stage, x.keyword ≠ .user) ∧ EndsAsUser earlier) := by
  obtain ⟨x, hx, hk⟩ := h
  have some_from : (xs.filter (·.keyword == .fromImage)) ≠ [] :=
    List.ne_nil_of_mem (List.mem_filter.mpr ⟨hx, beq_iff_eq.mpr hk⟩)
  obtain ⟨base, last⟩ := Option.isSome_iff_exists.mp (List.getLast?_isSome.mpr some_from)
  obtain ⟨isFrom, earlier, stage, rfl, later⟩ := getLast?_filter_eq_some_iff.mp last
  rw [beq_iff_eq] at isFrom
  refine ⟨earlier, base, stage, rfl, isFrom, by simpa using later, ?_⟩
  rw [checkRootUser_eq_nil_iff, List.append_cons, endsAsUser_append,
    endsAsUser_concat (by simp [isFrom])]

/-- A build runs as root, and the container does not. -/
theorem rootUser_silent_iff_build :
    let xs := parse "FROM node:20 AS build\nUSER root\nFROM nginx:1.25\nUSER web"
    (∃ x ∈ xs, x.keyword = .fromImage) ∧ checkRootUser xs = [] ∧
      ∃ earlier base stage, xs = earlier ++ base :: stage ∧ base.keyword = .fromImage ∧
        (EndsAsUser stage ∨ (∀ x ∈ stage, x.keyword ≠ .user) ∧ EndsAsUser earlier) := by
  intro xs
  have facts : (∃ x ∈ xs, x.keyword = .fromImage) ∧ checkRootUser xs = [] := by decide +kernel
  obtain ⟨bases, silent⟩ := facts
  obtain ⟨earlier, base, stage, hxs, isFrom, -, silent_iff⟩ := rootUser_silent_iff bases
  exact ⟨bases, silent, earlier, base, stage, hxs, isFrom, silent_iff.mp silent⟩

/-- The user of a build stage passes for that of the container. -/
theorem rootUser_silent_for_build :
    let xs := parse "FROM node:20 AS build\nUSER node\nFROM nginx:1.25"
    xs.map Instruction.keyword = [.fromImage, .user, .fromImage] ∧ checkRootUser xs = [] := by
  decide +kernel

end Rule

end Dockerfile
