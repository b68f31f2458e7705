import Dockerfile.Proofs.Rule.NewerTag

/-!
Which answers of a registry end the search for newer tags in a fault.

A registry that fails to answer, or answers with something that is not JSON, counts as one without
tags. An answer that arrives is used as it is, and two values in it can be of a sort that cannot be
used: results that hold no entries at all (`Json.Single`), and a name that is neither text nor
nothing (`Json.NoName`). All else is passed over. So as long as every version can be read
(`Rule.Legible`), the FROMs with such an answer (`Rule.Obstructed`) are the only ones with a fault,
and one of them is enough.

Each FROM is looked up by itself. What is found is therefore put together from what is found on the
parts of a list (`checkNewerTag_append_eq_ok_iff`), and a FROM that gets no answer adds nothing.
-/

namespace Dockerfile

open Text

/-! ### Values of the wrong sort -/

namespace Json

/-- Null, a truth value or a number: nothing that could hold entries. -/
def Single (value : Json) : Prop :=
  value.kind = .null ∨ value.kind = .bool ∨ value.kind = .int ∨ value.kind = .real

/-- A value in the place of a name that is neither text nor void. -/
def NoName : Json → Prop
  | .null | .text _ => False
  | .bool b => b = true
  | .int n => n ≠ 0
  | .real x => (x == 0) = false
  | .list items => items ≠ []
  | .record fields => fields ≠ []

theorem noName_iff {value : Json} :
    value.NoName ↔ (∀ s, value ≠ .text s) ∧ value.isVoid = false := by
  cases value <;> simp [NoName, isVoid]

/-- The body of an answer lists a tag of this name. -/
def ListsTag (body : Json) (name : String) : Prop :=
  ∃ items entry, body.field? "results" = some (.list items) ∧ entry ∈ items ∧ entry.Names name

/-- The body of an answer holds a value of the wrong sort, and the fault is about that value. -/
inductive Obstructs : Json → Fault → Prop
  | results {body value : Json} : body.field? "results" = some value → value.Single →
      Obstructs body (.resultsNotListed value.kind)
  | name {body entry value : Json} {items : List Json} :
      body.field? "results" = some (.list items) → entry ∈ items →
      entry.field? "name" = some value → value.NoName → Obstructs body (.tagNameNotText value.kind)

end Json

/-- The registry can be reached, its status tells of no failure, and the body of its answer is
JSON. -/
def Registry.Answers (registry : Registry) (repository : String) (body : Json) : Prop :=
  ∃ answer, registry repository = some answer ∧
    ¬ (400 ≤ answer.status ∧ answer.status < 600) ∧ answer.body = some body

/-- A registry that has one repository out of reach and gives the same answer for every other. -/
def Registry.answering (lost : String) (body : Json) : Registry :=
  fun repository => if repository = lost then none else some ⟨200, some body⟩

theorem Registry.answers_answering_iff {lost repository : String} {body other : Json} :
    (Registry.answering lost body).Answers repository other ↔ repository ≠ lost ∧ body = other := by
  unfold Registry.answering Registry.Answers
  by_cases reached : repository = lost
  · simp [reached]
  · simp [reached]

namespace Rule

variable {registry : Registry} {x : Instruction} {tag wanted name : String} {items : List Json}
  {entry body : Json} {fault : Fault} {xs ys before after : List Instruction}
  {found : List Finding}

/-! ### Entries and names -/

theorem entries_eq_error_iff :
    entries body = .error fault ↔ ∃ value, body.field? "results" = some value ∧ value.Single ∧
      .resultsNotListed value.kind = fault := by
  unfold entries
  cases body.field? "results" with
  | none => simp
  | some value => cases value <;> simp [Json.Single, Json.kind]

/-- Only a list has entries; a text or a record in its place has none. -/
theorem mem_entries_iff (h : entries body = .ok items) :
    entry ∈ items ↔ ∃ listed, body.field? "results" = some (.list listed) ∧ entry ∈ listed := by
  unfold entries at h
  split at h
  all_goals cases h
  all_goals next here => simp [here]

theorem tagName?_eq_error_iff :
    tagName? entry = .error fault ↔ ∃ value, entry.field? "name" = some value ∧ value.NoName ∧
      .tagNameNotText value.kind = fault := by
  unfold tagName?
  split
  · next none => simp [none]
  · next name here => simp [here, Json.NoName]
  · next value other here =>
    simp only [here, Option.some.injEq, exists_eq_left', Json.noName_iff]
    by_cases void : value.isVoid = true
    · simp [void]
    · simpa [void] using fun _ => other

theorem names_of_tagName? (h : tagName? entry = .ok (some name)) : entry.Names name := by
  unfold tagName? at h
  split at h
  · cases h
  · next text here =>
    split at h
    · cases h
    · cases h
      exact here
  · split at h <;> cases h

/-- Where its name can be read, an entry ends in a fault exactly if it has no name to read. -/
theorem candidate?_eq_error_iff (readable : ∀ name, entry.Names name → Version.Readable name) :
    candidate? wanted entry = .error fault ↔ ∃ value, entry.field? "name" = some value ∧
      value.NoName ∧ .tagNameNotText value.kind = fault := by
  rw [← tagName?_eq_error_iff]
  cases result : tagName? entry with
  | error other => simp [candidate?, result, bind, Except.bind]
  | ok name? =>
    have fine : ∃ found, candidate? wanted entry = .ok found := by
      cases name? with
      | none => exact ⟨none, by rw [candidate?, result]; rfl⟩
      | some name =>
        have named := names_of_tagName? result
        exact exists_candidate?_of_names named (readable name named)
    obtain ⟨found, hfound⟩ := fine
    simp [hfound]

/-! ### Answers -/

theorem obstructs_of_newerTag? (own : Version.Readable tag)
    (readable : ∀ name, body.ListsTag name → Version.Readable name)
    (failed : newerTag? tag body = .error fault) : body.Obstructs fault := by
  cases hitems : entries body with
  | error other =>
    obtain ⟨value, results, single, rfl⟩ := entries_eq_error_iff.mp hitems
    rw [newerTag?, hitems] at failed
    cases failed
    exact .results results single
  | ok items =>
    cases hgathered : items.mapM (candidate? (series tag)) with
    | error other =>
      obtain ⟨entry, first, here⟩ := mapM_eq_error_iff.mp hgathered
      obtain ⟨listed, results, hentry⟩ :=
        (mem_entries_iff hitems).mp (List.mem_of_find?_eq_some first)
      obtain ⟨value, hvalue, noName, rfl⟩ := (candidate?_eq_error_iff fun name named =>
        readable name ⟨listed, entry, results, hentry, named⟩).mp here
      simp only [newerTag?, hitems, hgathered, bind, Except.bind] at failed
      cases failed
      exact .name results hentry hvalue noName
    | ok gathered =>
      -- with all candidates at hand, only the tag itself is left to be read
      obtain ⟨version?, reading⟩ := Version.exists_leading?_of_readable own
      rw [newerTag?_eq_ok hitems hgathered reading] at failed
      cases failed

/-- A value of the wrong sort ends in a fault, if perhaps in that of an earlier one. -/
theorem exists_newerTag?_error (tag : String) (h : body.Obstructs fault) :
    ∃ fault, newerTag? tag body = .error fault := by
  cases h with
  | results results single =>
    have failed := entries_eq_error_iff.mpr ⟨_, results, single, rfl⟩
    exact ⟨_, by rw [newerTag?, failed]; rfl⟩
  | @name entry value items results hentry hvalue noName =>
    have listed : entries body = .ok items := by rw [entries, results]
    have misnamed := tagName?_eq_error_iff.mpr ⟨value, hvalue, noName, rfl⟩
    have here : ∃ fault, candidate? (series tag) entry = .error fault :=
      ⟨_, by rw [candidate?, misnamed]; rfl⟩
    obtain ⟨fault, failed⟩ := exists_mapM_error_iff.mpr ⟨entry, hentry, here⟩
    exact ⟨fault, by simp only [newerTag?, listed, failed, bind, Except.bind]⟩

theorem answers_iff {repository : String} :
    registry.Answers repository body ↔ (registry repository).bind successBody? = some body := by
  simp only [Registry.Answers, Option.bind_eq_some_iff, successBody?, Option.ite_none_left_eq_some]

/-! ### FROMs -/

/-- The tag of a FROM is looked up, and the answer holds a value of the wrong sort. -/
def Obstructed (registry : Registry) (x : Instruction) (fault : Fault) : Prop :=
  ∃ tag body, (x.keyword = .fromImage ∧ x.tag = some tag ∧ tag ≠ "" ∧ lower tag ≠ "latest") ∧
    registry.Answers (repository x) body ∧ body.Obstructs fault

/-- No version is too long to be read, neither that of the tag nor those of the tags that the
repository has. -/
structure Legible (registry : Registry) (x : Instruction) : Prop where
  tag : ∀ tag, comparableTag? x = some tag → Version.Readable tag
  names : ∀ body name, registry.Answers (repository x) body → body.ListsTag name →
    Version.Readable name

theorem newerTagFinding_eq_error_iff :
    newerTagFinding registry x = .error fault ↔ ∃ tag body, comparableTag? x = some tag ∧
      registry.Answers (repository x) body ∧ newerTag? tag body = .error fault := by
  simp only [answers_iff]
  unfold newerTagFinding
  split
  · next tag body comparable answered => simp [comparable, answered, map_eq_error_iff]
  · next none =>
    constructor
    · intro failed
      cases failed
    · rintro ⟨tag, body, comparable, answered, -⟩
      exact (none tag body comparable answered).elim

theorem obstructed_of_newerTagFinding (legible : Legible registry x)
    (failed : newerTagFinding registry x = .error fault) : Obstructed registry x fault := by
  obtain ⟨tag, body, comparable, answers, failed⟩ := newerTagFinding_eq_error_iff.mp failed
  have readable : ∀ name, body.ListsTag name → Version.Readable name :=
    fun name listed => legible.names body name answers listed
  exact ⟨tag, body, comparableTag?_eq_some_iff.mp comparable, answers,
    obstructs_of_newerTag? (legible.tag tag comparable) readable failed⟩

theorem exists_newerTagFinding_error (h : Obstructed registry x fault) :
    ∃ fault, newerTagFinding registry x = .error fault := by
  obtain ⟨tag, body, compares, answers, obstructs⟩ := h
  obtain ⟨fault, failed⟩ := exists_newerTag?_error tag obstructs
  exact ⟨fault, newerTagFinding_eq_error_iff.mpr
    ⟨tag, body, comparableTag?_eq_some_iff.mpr compares, answers, failed⟩⟩

theorem obstructed_of_checkNewerTag (legible : ∀ x ∈ xs, Legible registry x)
    (failed : checkNewerTag registry xs = .error fault) :
    ∃ x ∈ xs, Obstructed registry x fault := by
  rw [checkNewerTag, map_eq_error_iff, mapM_eq_error_iff] at failed
  obtain ⟨x, first, failed⟩ := failed
  have hx := List.mem_of_find?_eq_some first
  exact ⟨x, hx, obstructed_of_newerTagFinding (legible x hx) failed⟩

/-- A list ends in a fault exactly if one of its FROMs is obstructed. -/
theorem exists_checkNewerTag_error_iff (legible : ∀ x ∈ xs, Legible registry x) :
    (∃ fault, checkNewerTag registry xs = .error fault) ↔
      ∃ x ∈ xs, ∃ fault, Obstructed registry x fault := by
  constructor
  · rintro ⟨fault, failed⟩
    obtain ⟨x, hx, obstructed⟩ := obstructed_of_checkNewerTag legible failed
    exact ⟨x, hx, fault, obstructed⟩
  · rintro ⟨x, hx, fault, obstructed⟩
    simp only [checkNewerTag, map_eq_error_iff]
    exact exists_mapM_error_iff.mpr ⟨x, hx, exists_newerTagFinding_error obstructed⟩

/-! ### Each FROM by itself -/

theorem checkNewerTag_append_eq_ok_iff :
    checkNewerTag registry (xs ++ ys) = .ok found ↔ ∃ first second,
      checkNewerTag registry xs = .ok first ∧ checkNewerTag registry ys = .ok second ∧
        first ++ second = found := by
  simp only [checkNewerTag, map_eq_ok_iff, List.mapM_append, bind_eq_ok_iff]
  constructor
  · rintro ⟨each, ⟨as, has, bs, hbs, joined⟩, rfl⟩
    cases joined
    exact ⟨_, _, ⟨as, has, rfl⟩, ⟨bs, hbs, rfl⟩, List.filterMap_append.symm⟩
  · rintro ⟨_, _, ⟨as, has, rfl⟩, ⟨bs, hbs, rfl⟩, rfl⟩
    exact ⟨as ++ bs, ⟨as, has, bs, hbs, rfl⟩, List.filterMap_append⟩

/-- What is found on a list is what is found on an instruction of it, between what is found on the
others. -/
theorem exists_found_around (h : checkNewerTag registry (before ++ x :: after) = .ok found) :
    ∃ earlier own later, checkNewerTag registry before = .ok earlier ∧
      checkNewerTag registry [x] = .ok own ∧ checkNewerTag registry after = .ok later ∧
      found = earlier ++ own ++ later ∧
      checkNewerTag registry (before ++ after) = .ok (earlier ++ later) := by
  rw [List.append_cons, checkNewerTag_append_eq_ok_iff] at h
  obtain ⟨_, later, first, hafter, rfl⟩ := h
  obtain ⟨earlier, own, hbefore, hown, rfl⟩ := checkNewerTag_append_eq_ok_iff.mp first
  exact ⟨earlier, own, later, hbefore, hown, hafter, rfl,
    checkNewerTag_append_eq_ok_iff.mpr ⟨earlier, later, hbefore, hafter, rfl⟩⟩

theorem checkNewerTag_unanswered (none : ∀ body, ¬ registry.Answers (repository x) body) :
    checkNewerTag registry [x] = .ok [] := by
  refine checkNewerTag_eq_ok_iff.mpr ⟨[Option.none], .cons ?_ .nil, rfl⟩
  unfold newerTagFinding
  split
  · next tag body comparable answered => exact (none body (answers_iff.mpr answered)).elim
  · rfl

/-- Where all versions can be read, the search ends in a fault exactly if a FROM gets an answer with
a value of the wrong sort, and the fault is about such a value. Otherwise it returns, and what it
finds on a FROM stands between what it finds on the others, with that FROM and without it. A FROM
that gets no answer adds nothing. -/
theorem newerTag_obstructed_iff (legible : ∀ x ∈ xs, Legible registry x) :
    ((∃ fault, checkNewerTag registry xs = .error fault) ↔
        ∃ x ∈ xs, ∃ fault, Obstructed registry x fault) ∧
      (∀ fault, checkNewerTag registry xs = .error fault →
        ∃ x ∈ xs, Obstructed registry x fault) ∧
      ((¬ ∃ x ∈ xs, ∃ fault, Obstructed registry x fault) →
        ∃ found, checkNewerTag registry xs = .ok found ∧
          ∀ before x after, xs = before ++ x :: after → ∃ earlier own later,
            checkNewerTag registry before = .ok earlier ∧
            checkNewerTag registry [x] = .ok own ∧
            checkNewerTag registry after = .ok later ∧
            found = earlier ++ own ++ later ∧
            checkNewerTag registry (before ++ after) = .ok (earlier ++ later) ∧
            ((∀ body, ¬ registry.Answers (repository x) body) → own = [])) := by
  have raises := exists_checkNewerTag_error_iff legible
  refine ⟨raises, fun fault failed => obstructed_of_checkNewerTag legible failed, fun clear => ?_⟩
  cases result : checkNewerTag registry xs with
  | error fault => exact absurd (raises.mp ⟨fault, result⟩) clear
  | ok found =>
    refine ⟨found, rfl, ?_⟩
    rintro before x after rfl
    obtain ⟨earlier, own, later, hbefore, hown, hafter, joined, without⟩ :=
      exists_found_around result
    refine ⟨earlier, own, later, hbefore, hown, hafter, joined, without, fun unanswered => ?_⟩
    cases (checkNewerTag_unanswered unanswered).symm.trans hown
    rfl

theorem legible_answering {lost : String}
    (own : ∀ tag, comparableTag? x = some tag → Version.Readable tag)
    (names : ∀ name, body.ListsTag name → Version.Readable name) :
    Legible (.answering lost body) x := by
  refine ⟨own, fun other name answers lists => ?_⟩
  obtain ⟨-, rfl⟩ := Registry.answers_answering_iff.mp answers
  exact names name lists

/-- One repository is out of reach. The other one has a newer tag, or null in the place of its
results. -/
theorem newerTag_obstructed_iff_neighbours :
    let a := (Instruction.write 1 .fromImage "a:1").withBase ⟨"a", some "1", none⟩
    let b := (Instruction.write 2 .fromImage "b:1").withBase ⟨"b", some "1", none⟩
    let listing := Json.record [("results", .list [.record [("name", .text "1.2")]])]
    let broken := Json.record [("results", .null)]
    (∃ found, checkNewerTag (.answering "library/a" listing) [a, b] = .ok found ∧
        checkNewerTag (.answering "library/a" listing) [b] = .ok found) ∧
      ∃ fault, checkNewerTag (.answering "library/a" broken) [a, b] = .error fault := by
  intro a b listing broken
  have own : ∀ x ∈ [a, b], ∀ tag, comparableTag? x = some tag → Version.Readable tag := by
    intro x hx tag comparable
    obtain ⟨-, htag, -, -⟩ := comparableTag?_eq_some_iff.mp comparable
    have one : x.tag = some "1" := by
      simp only [List.mem_cons, List.not_mem_nil, or_false] at hx
      rcases hx with rfl | rfl <;> rfl
    cases one.symm.trans htag
    decide +kernel
  have listed : ∀ name, listing.ListsTag name → name = "1.2" := by
    rintro name ⟨items, entry, results, hentry, named⟩
    cases results
    cases List.mem_singleton.mp hentry
    cases named
    rfl
  constructor
  · have legible : ∀ x ∈ [a, b], Legible (.answering "library/a" listing) x := by
      refine fun x hx => legible_answering (own x hx) fun name lists => ?_
      rw [listed name lists]
      decide +kernel
    have clear : ¬ ∃ x ∈ [a, b], ∃ fault, Obstructed (.answering "library/a" listing) x fault := by
      rintro ⟨x, -, fault, tag, body, -, answers, obstructs⟩
      obtain ⟨-, rfl⟩ := Registry.answers_answering_iff.mp answers
      cases obstructs with
      | results results single =>
        cases results
        simp [Json.Single, Json.kind] at single
      | name results hentry hvalue noName =>
        cases results
        cases List.mem_singleton.mp hentry
        cases hvalue
        exact noName
    obtain ⟨found, hfound, around⟩ := (newerTag_obstructed_iff legible).2.2 clear
    obtain ⟨earlier, own, later, -, -, -, rfl, without, nothing⟩ := around [] a [b] rfl
    have unanswered (body : Json) :
        ¬ (Registry.answering "library/a" listing).Answers (repository a) body :=
      fun answers => (Registry.answers_answering_iff.mp answers).1 (by decide +kernel)
    rw [nothing unanswered, List.append_nil] at hfound
    exact ⟨_, hfound, without⟩
  · have legible : ∀ x ∈ [a, b], Legible (.answering "library/a" broken) x := by
      refine fun x hx => legible_answering (own x hx) fun name lists => ?_
      obtain ⟨items, entry, results, -⟩ := lists
      cases results
    refine (newerTag_obstructed_iff legible).1.mpr ⟨b, by simp, _, "1", broken, ?_, ?_,
      .results rfl (Or.inl rfl)⟩
    · exact ⟨rfl, rfl, by simp, by decide +kernel⟩
    · exact Registry.answers_answering_iff.mpr ⟨by decide +kernel, rfl⟩

end Rule

end Dockerfile
