import Dockerfile.Proofs.Rule.Analysis
import Dockerfile.Proofs.Version

/-!
The tag that is proposed for a base image.

A tag of the repository is a candidate if it starts like the tag of the FROM, up to its second
point, and has a version (`Rule.IsCandidate`). Of the candidates above the tag the one is proposed
whose version is greatest as a list (`Rule.IsBest`). That no candidate is higher follows from the
relation of the two orders, and since only the members of a listing count, its order does not
matter for the version that is proposed.

A candidate starts like the tag as a text, and its second part may go on there. So it has the major
part of the tag, while of its minor part only the first digits are those of the tag
(`exists_leadingParts_of_startsWith`).
-/

namespace Dockerfile

open Text

/-- The entry of a listing is a record that names a tag. -/
def Json.Names (entry : Json) (name : String) : Prop :=
  entry.field? "name" = some (.text name)

/-- The registry answers with success, and lists the tags of the repository by these names. -/
def Registry.Lists (registry : Registry) (repository : String) (names : List String) : Prop :=
  ∃ answer body items, registry repository = some answer ∧
    ¬ (400 ≤ answer.status ∧ answer.status < 600) ∧ answer.body = some body ∧
    body.field? "results" = some (.list items) ∧ List.Forall₂ Json.Names items names

/-- A registry that has tags with the same names in every repository. -/
def Registry.ofNames (names : List String) : Registry :=
  fun _ => some ⟨200, some (.record [("results",
    .list (names.map fun name => .record [("name", .text name)]))])⟩

theorem Registry.lists_ofNames (repository : String) (names : List String) :
    (Registry.ofNames names).Lists repository names := by
  have success : ¬ (400 ≤ (200 : Int) ∧ (200 : Int) < 600) := by omega
  refine ⟨_, _, _, rfl, success, rfl, rfl, ?_⟩
  rw [List.forall₂_map_left_iff, List.forall₂_same]
  exact fun name _ => rfl

namespace Rule

variable {registry : Registry} {x : Instruction} {tag wanted name : String}
  {names others : List String} {items : List Json} {entry body : Json} {cs : List Candidate}
  {c d : Candidate} {gathered : List (Option Candidate)} {current : Version}

/-! ### Candidates -/

/-- A listed tag that starts like the tag, up to its second point, and has a version. -/
structure IsCandidate (tag : String) (names : List String) (c : Candidate) : Prop where
  listed : c.name ∈ names
  inSeries : startsWith c.name (series tag) = true
  version : Version.leading? c.name = .ok (some c.version)

theorem IsCandidate.of_mem (h : IsCandidate tag names c) (same : ∀ name ∈ names, name ∈ others) :
    IsCandidate tag others c :=
  ⟨same _ h.listed, h.inSeries, h.version⟩

theorem candidate?_eq_some_iff :
    candidate? wanted entry = .ok (some c) ↔ tagName? entry = .ok (some c.name) ∧
      startsWith c.name wanted = true ∧ Version.leading? c.name = .ok (some c.version) := by
  rw [candidate?, bind_eq_ok_iff]
  constructor
  · rintro ⟨name?, named, h⟩
    cases name? with
    | none => cases h
    | some name =>
      dsimp only at h
      split at h
      · next starts =>
        obtain ⟨version?, reading, h⟩ := bind_eq_ok_iff.mp h
        obtain ⟨version, rfl, rfl⟩ := Option.map_eq_some_iff.mp (Except.ok.inj h)
        exact ⟨named, starts, reading⟩
      · cases h
  · rintro ⟨named, starts, reading⟩
    refine ⟨some c.name, named, ?_⟩
    dsimp only
    rw [if_pos starts, bind_eq_ok_iff]
    exact ⟨some c.version, reading, rfl⟩

theorem tagName?_of_names (h : entry.Names name) :
    tagName? entry = .ok (if name.isEmpty then none else some name) := by
  rw [tagName?, h]

/-- A name that stands for a candidate is not empty. -/
theorem tagName?_eq_some_iff (h : entry.Names name)
    (version : Version.leading? c.name = .ok (some c.version)) :
    tagName? entry = .ok (some c.name) ↔ name = c.name := by
  rw [tagName?_of_names h]
  constructor
  · intro heq
    split at heq
    · cases heq
    · exact Option.some.inj (Except.ok.inj heq)
  · rintro rfl
    have full : c.name.isEmpty = false := by
      rw [Bool.eq_false_iff]
      intro empty
      rw [String.isEmpty_iff.mp empty] at version
      cases version
    rw [full]
    rfl

theorem exists_candidate?_of_names (h : entry.Names name) (readable : Version.Readable name) :
    ∃ found, candidate? wanted entry = .ok found := by
  obtain ⟨version?, reading⟩ := Version.exists_leading?_of_readable readable
  rw [candidate?, tagName?_of_names h]
  by_cases empty : name.isEmpty = true
  · exact ⟨none, by simp [empty, bind, Except.bind, pure, Except.pure]⟩
  · by_cases starts : startsWith name wanted = true
    · refine ⟨version?.map fun version => ⟨version, name⟩, ?_⟩
      simp [empty, starts, reading, bind, Except.bind, pure, Except.pure]
    · exact ⟨none, by simp [empty, starts, bind, Except.bind, pure, Except.pure]⟩

/-- A listing whose names can be read has candidates without a fault. -/
theorem exists_mapM_candidate? (named : List.Forall₂ Json.Names items names)
    (readable : ∀ name ∈ names, Version.Readable name) :
    ∃ gathered, items.mapM (candidate? wanted) = .ok gathered := by
  induction named with
  | nil => exact ⟨[], rfl⟩
  | cons here _ ih =>
    obtain ⟨first, hfirst⟩ := exists_candidate?_of_names here (readable _ List.mem_cons_self)
    obtain ⟨more, hmore⟩ := ih fun name hname => readable name (List.mem_cons_of_mem _ hname)
    exact ⟨first :: more, mapM_eq_ok_iff.mpr (.cons hfirst (mapM_eq_ok_iff.mp hmore))⟩

theorem mem_gathered_iff (h : items.mapM (candidate? wanted) = .ok gathered) :
    c ∈ gathered.filterMap id ↔ ∃ entry ∈ items, candidate? wanted entry = .ok (some c) := by
  rw [List.mem_filterMap]
  constructor
  · rintro ⟨_, hmem, rfl⟩
    exact exists_of_mem_mapM h hmem
  · rintro ⟨entry, hentry, hc⟩
    obtain ⟨found, hfound, heq⟩ := exists_of_mem_left (mapM_eq_ok_iff.mp h) hentry
    cases hc.symm.trans heq
    exact ⟨some c, hfound, rfl⟩

/-- What is gathered from a listing is its candidates. -/
theorem mem_gathered_iff_isCandidate (named : List.Forall₂ Json.Names items names)
    (h : items.mapM (candidate? (series tag)) = .ok gathered) :
    c ∈ gathered.filterMap id ↔ IsCandidate tag names c := by
  simp only [mem_gathered_iff h, candidate?_eq_some_iff]
  constructor
  · rintro ⟨entry, hentry, hname, starts, version⟩
    obtain ⟨name, hmem, here⟩ := exists_of_mem_left named hentry
    rw [tagName?_eq_some_iff here version] at hname
    exact ⟨hname ▸ hmem, starts, version⟩
  · rintro ⟨listed, starts, version⟩
    obtain ⟨entry, hentry, here⟩ := exists_of_mem_right named listed
    exact ⟨entry, hentry, (tagName?_eq_some_iff here version).mpr rfl, starts, version⟩

/-! ### The greatest candidate -/

/-- Going through a list keeps a candidate such that none that was seen is greater. -/
theorem foldl_greater (c : Candidate) (rest : List Candidate) :
    let best := rest.foldl (fun best d => if best.version < d.version then d else best) c
    best ∈ c :: rest ∧ ∀ d ∈ c :: rest, ¬ best.version < d.version := by
  induction rest generalizing c with
  | nil =>
    refine ⟨List.mem_cons_self, fun d hd => ?_⟩
    rw [List.mem_singleton.mp hd]
    exact List.lt_irrefl _
  | cons e rest ih =>
    intro best
    by_cases greater : c.version < e.version
    · obtain ⟨hbest, none⟩ := ih e
      have hstep : best
          = rest.foldl (fun best d => if best.version < d.version then d else best) e := by
        simp [best, greater]
      rw [← hstep] at hbest none
      refine ⟨List.mem_cons_of_mem _ hbest, fun d hd less => ?_⟩
      rcases List.mem_cons.mp hd with rfl | hd
      · exact none e List.mem_cons_self (List.lt_trans less greater)
      · exact none d hd less
    · obtain ⟨hbest, none⟩ := ih c
      have hstep : best
          = rest.foldl (fun best d => if best.version < d.version then d else best) c := by
        simp [best, greater]
      rw [← hstep] at hbest none
      constructor
      · rcases List.mem_cons.mp hbest with here | later
        · exact here ▸ List.mem_cons_self
        · exact List.mem_cons_of_mem _ (List.mem_cons_of_mem _ later)
      · intro d hd less
        rcases List.mem_cons.mp hd with rfl | hd
        · exact none d List.mem_cons_self less
        · rcases List.mem_cons.mp hd with rfl | hd
          · exact greater
              (List.lt_of_le_of_lt (List.not_lt.mp (none c List.mem_cons_self)) less)
          · exact none d (List.mem_cons_of_mem _ hd) less

theorem greatest?_eq_none_iff : greatest? cs = none ↔ cs = [] := by
  cases cs <;> simp [greatest?]

theorem greatest?_eq_some (h : greatest? cs = some c) :
    c ∈ cs ∧ ∀ d ∈ cs, ¬ c.version < d.version := by
  cases cs with
  | nil => cases h
  | cons first rest =>
    cases Option.some.inj h
    exact foldl_greater first rest

/-- A candidate above a version that has the greatest version of all these. -/
structure IsBest (tag : String) (names : List String) (current : Version) (c : Candidate) :
    Prop where
  candidate : IsCandidate tag names c
  higher : c.version.isHigher current = true
  greatest : ∀ d, IsCandidate tag names d → d.version.isHigher current = true →
    ¬ c.version < d.version

/-- No candidate is higher than the one with the greatest version. -/
theorem IsBest.not_isHigher (h : IsBest tag names current c) (hd : IsCandidate tag names d) :
    ¬ d.version.isHigher c.version = true := by
  intro higher
  have above := Version.isHigher_trans higher h.higher
  have parts := Version.nonneg_of_leading? h.candidate.version
  exact h.greatest d hd above (Version.lt_of_isHigher parts higher)

/-- Listings with the same names have one greatest version. -/
theorem IsBest.version_eq (h : IsBest tag names current c) (h' : IsBest tag others current d)
    (same : ∀ name, name ∈ names ↔ name ∈ others) : c.version = d.version := by
  refine List.le_antisymm (List.not_lt.mp ?_) (List.not_lt.mp ?_)
  · exact h'.greatest c (h.candidate.of_mem fun name => (same name).mp) h.higher
  · exact h.greatest d (h'.candidate.of_mem fun name => (same name).mpr) h'.higher

/-- What is chosen for a tag out of a listing. -/
inductive Chooses (tag : String) (names : List String) : Option Candidate → Prop
  | nothing : (∀ current c, Version.leading? tag = .ok (some current) → IsCandidate tag names c →
      ¬ c.version.isHigher current = true) → Chooses tag names none
  | best {current : Version} {c : Candidate} : Version.leading? tag = .ok (some current) →
      IsBest tag names current c → Chooses tag names (some c)

/-- The tag that is chosen out of candidates, where the tag itself has been read. -/
theorem newerTag?_eq_ok (listed : entries body = .ok items)
    (h : items.mapM (candidate? (series tag)) = .ok gathered) {version? : Option Version}
    (reading : Version.leading? tag = .ok version?) :
    newerTag? tag body = .ok (version?.bind fun current =>
      (greatest? ((gathered.filterMap id).filter (·.version.isHigher current))).map (·.name)) := by
  simp only [newerTag?, listed, h, reading, bind, Except.bind, pure, Except.pure]
  cases version? with
  | none => split <;> rfl
  | some current =>
    split
    · next none =>
      rw [List.isEmpty_iff.mp none]
      rfl
    · rfl

/-- A tag that is chosen starts like the tag it is chosen for, and has a version. -/
theorem exists_version_of_newerTag? (h : newerTag? tag body = .ok (some name)) :
    startsWith name (series tag) = true ∧
      ∃ version, Version.leading? name = .ok (some version) := by
  unfold newerTag? at h
  obtain ⟨items, -, h⟩ := bind_eq_ok_iff.mp h
  obtain ⟨gathered, hgathered, h⟩ := bind_eq_ok_iff.mp h
  dsimp only at h
  split at h
  · cases h
  · obtain ⟨version?, -, h⟩ := bind_eq_ok_iff.mp h
    cases version? with
    | none => cases h
    | some current =>
      obtain ⟨c, hc, rfl⟩ := Option.map_eq_some_iff.mp (Except.ok.inj h)
      have listed := List.mem_of_mem_filter (greatest?_eq_some hc).1
      obtain ⟨entry, -, found⟩ := (mem_gathered_iff hgathered).mp listed
      obtain ⟨-, starts, version⟩ := candidate?_eq_some_iff.mp found
      exact ⟨starts, c.version, version⟩

theorem exists_chooses (listed : entries body = .ok items)
    (named : List.Forall₂ Json.Names items names)
    (readable : ∀ name ∈ tag :: names, Version.Readable name) :
    ∃ chosen, newerTag? tag body = .ok (chosen.map (·.name)) ∧ Chooses tag names chosen := by
  obtain ⟨own, others⟩ := List.forall_mem_cons.mp readable
  obtain ⟨gathered, hgathered⟩ := @exists_mapM_candidate? (series tag) names items named others
  obtain ⟨version?, reading⟩ := Version.exists_leading?_of_readable own
  rw [newerTag?_eq_ok listed hgathered reading]
  have candidates := fun c => mem_gathered_iff_isCandidate (c := c) named hgathered
  cases version? with
  | none =>
    refine ⟨none, rfl, .nothing fun current c version => ?_⟩
    cases reading.symm.trans version
  | some current =>
    refine ⟨_, rfl, ?_⟩
    have above : ∀ c, c ∈ (gathered.filterMap id).filter (·.version.isHigher current) ↔
        IsCandidate tag names c ∧ c.version.isHigher current = true := by
      intro c
      rw [List.mem_filter, candidates]
    cases hbest : greatest? ((gathered.filterMap id).filter (·.version.isHigher current)) with
    | none =>
      refine .nothing fun current' c version hc higher => ?_
      cases reading.symm.trans version
      have hmem := (above c).mpr ⟨hc, higher⟩
      rw [greatest?_eq_none_iff.mp hbest] at hmem
      cases hmem
    | some best =>
      obtain ⟨hmem, greatest⟩ := greatest?_eq_some hbest
      obtain ⟨candidate, higher⟩ := (above best).mp hmem
      exact .best reading ⟨candidate, higher, fun d hd hhigher =>
        greatest d ((above d).mpr ⟨hd, hhigher⟩)⟩

/-! ### What is reported -/

/-- The finding that proposes a tag. -/
def proposal (x : Instruction) (name : String) : Finding where
  rule := newerTag
  line := x.line
  message := s!"Newer version available: {imageName x}:{name}."
  explanation := some newerTag.explanation

theorem proposal_inj {other : String} (h : proposal x name = proposal x other) : name = other := by
  have text := congrArg String.toList (congrArg Finding.message h)
  simpa [proposal, toString, String.toList_inj] using text

theorem comparableTag?_eq_some_iff :
    comparableTag? x = some tag ↔
      x.keyword = .fromImage ∧ x.tag = some tag ∧ tag ≠ "" ∧ lower tag ≠ "latest" := by
  unfold comparableTag?
  split
  · next other hk htag =>
    rw [Option.ite_none_left_eq_some]
    constructor
    · rintro ⟨compares, heq⟩
      cases heq
      simpa [hk, htag] using compares
    · rintro ⟨-, heq, ne, latest⟩
      cases htag.symm.trans heq
      simpa using ⟨ne, latest⟩
  · next none =>
    constructor
    · intro h
      cases h
    · rintro ⟨hk, htag, -, -⟩
      exact absurd htag (none tag hk)

theorem newerTagFinding_of_answer (comparable : comparableTag? x = some tag)
    (answered : (registry (repository x)).bind successBody? = some body) :
    newerTagFinding registry x = (newerTag? tag body).map fun found => found.map (proposal x) := by
  rw [newerTagFinding, comparable, answered]
  rfl

theorem checkNewerTag_eq_ok_iff {xs : List Instruction} {found : List Finding} :
    checkNewerTag registry xs = .ok found ↔ ∃ each,
      List.Forall₂ (fun x r => newerTagFinding registry x = .ok r) xs each ∧
        each.filterMap id = found := by
  rw [checkNewerTag, map_eq_ok_iff]
  simp only [mapM_eq_ok_iff]

/-- Whatever stands before and after the instruction, what is reported on it is this proposal, or
nothing. -/
def Proposes (registry : Registry) (x : Instruction) (proposed : Option String) : Prop :=
  ∀ before after earlier later, checkNewerTag registry before = .ok earlier →
    checkNewerTag registry after = .ok later →
    checkNewerTag registry (before ++ x :: after)
      = .ok (earlier ++ ((proposed.map (proposal x)).toList ++ later))

theorem proposes_of_newerTagFinding {proposed : Option String}
    (h : newerTagFinding registry x = .ok (proposed.map (proposal x))) :
    Proposes registry x proposed := by
  intro before after earlier later hbefore hafter
  obtain ⟨each, hearlier, rfl⟩ := checkNewerTag_eq_ok_iff.mp hbefore
  obtain ⟨each', hlater, rfl⟩ := checkNewerTag_eq_ok_iff.mp hafter
  refine checkNewerTag_eq_ok_iff.mpr ⟨_, List.rel_append hearlier (.cons h hlater), ?_⟩
  cases proposed <;> simp

/-- For a listing, what is proposed is the choice out of its names. -/
theorem exists_proposes (comparable : comparableTag? x = some tag)
    (listed : registry.Lists (repository x) names)
    (readable : ∀ name ∈ tag :: names, Version.Readable name) :
    ∃ chosen, Proposes registry x (chosen.map (·.name)) ∧ Chooses tag names chosen := by
  obtain ⟨answer, body, items, hanswer, success, hbody, hresults, named⟩ := listed
  have answered : (registry (repository x)).bind successBody? = some body := by
    rw [hanswer, Option.bind_some, successBody?, if_neg success, hbody]
  have hentries : entries body = .ok items := by
    rw [entries, hresults]
  obtain ⟨chosen, hchosen, chooses⟩ := exists_chooses hentries named readable
  refine ⟨chosen, proposes_of_newerTagFinding ?_, chooses⟩
  rw [newerTagFinding_of_answer comparable answered, hchosen]
  rfl

theorem Chooses.isSome_iff {chosen : Option Candidate} (h : Chooses tag names chosen) :
    chosen.isSome = true ↔ ∃ current c, Version.leading? tag = .ok (some current) ∧
      IsCandidate tag names c ∧ c.version.isHigher current = true := by
  cases h with
  | nothing none =>
    refine ⟨nofun, ?_⟩
    rintro ⟨current, c, version, candidate, higher⟩
    exact absurd higher (none current c version candidate)
  | @best current c version best =>
    exact ⟨fun _ => ⟨current, c, version, best.candidate, best.higher⟩, fun _ => rfl⟩

/-- Listings with the same names lead to tags with one version. -/
theorem Chooses.leading?_eq {chosen chosen' : Option Candidate} (h : Chooses tag names chosen)
    (h' : Chooses tag others chosen') (same : ∀ name, name ∈ names ↔ name ∈ others) :
    chosen.map (fun c => Version.leading? c.name)
      = chosen'.map fun c => Version.leading? c.name := by
  cases h with
  | nothing none =>
    cases h' with
    | nothing => rfl
    | best version best =>
      have candidate := best.candidate.of_mem fun name => (same name).mpr
      exact absurd best.higher (none _ _ version candidate)
  | best version best =>
    cases h' with
    | nothing none =>
      have candidate := best.candidate.of_mem fun name => (same name).mp
      exact absurd best.higher (none _ _ version candidate)
    | best version' best' =>
      cases version.symm.trans version'
      simp [best.candidate.version, best'.candidate.version, best.version_eq best' same]

theorem toList_series_of_splitOn {major minor : List Char} {more : List (List Char)}
    (h : tag.toList.splitOn '.' = major :: minor :: more) :
    (series tag).toList = major ++ '.' :: minor := by
  rw [series, h, String.toList_ofList]

/-- The series of a tag whose version has two parts goes up to the second part, with what follows
its digits before the next point. -/
theorem exists_toList_series {major minor : List Char} {more : List (List Char)}
    (h : Version.leadingParts tag.toList = major :: minor :: more) :
    ∃ suffix, (series tag).toList = major ++ '.' :: (minor ++ suffix) ∧
      (major ≠ [] ∧ ∀ c ∈ major, isDecimal c = true) ∧
      minor ≠ [] ∧ ∀ c ∈ minor, isDecimal c = true := by
  obtain ⟨rest, htag, ne, digits, -, hrest⟩ := Version.exists_of_leadingParts_eq_cons h
  obtain ⟨rest, rfl⟩ := Version.exists_of_afterPoint_eq_cons hrest
  obtain ⟨rest, rfl, ne', digits', -, -⟩ := Version.exists_of_leadingParts_eq_cons hrest
  have hmajor := Version.point_notMem digits
  have hminor := Version.point_notMem digits'
  have split : tag.toList.splitOn '.' = major :: (minor ++ rest).splitOn '.' := by
    rw [htag, List.splitOn_append_cons_self_of_not_mem hmajor]
  -- the second part ends at the next point, or with the tag
  by_cases point : '.' ∈ rest
  · obtain ⟨suffix, later, rfl, hsuffix⟩ := List.eq_append_cons_of_mem point
    have second : (minor ++ (suffix ++ '.' :: later)).splitOn '.'
        = (minor ++ suffix) :: later.splitOn '.' := by
      rw [← List.append_assoc, List.splitOn_append_cons_self_of_not_mem]
      simp [hminor, hsuffix]
    rw [second] at split
    exact ⟨suffix, toList_series_of_splitOn split, ⟨ne, digits⟩, ne', digits'⟩
  · have last : (minor ++ rest).splitOn '.' = [minor ++ rest] := by
      rw [List.splitOn_eq_singleton]
      simp [hminor, point]
    rw [last] at split
    exact ⟨rest, toList_series_of_splitOn split, ⟨ne, digits⟩, ne', digits'⟩

/-- A tag of the same series has the same major part, and its minor part starts with the same
digits. -/
theorem exists_leadingParts_of_startsWith {major minor : List Char} {more : List (List Char)}
    (h : Version.leadingParts tag.toList = major :: minor :: more)
    (starts : startsWith name (series tag) = true) :
    ∃ digits later, Version.leadingParts name.toList = major :: (minor ++ digits) :: later := by
  obtain ⟨suffix, hseries, ⟨ne, hmajor⟩, ne', hminor⟩ := exists_toList_series h
  obtain ⟨tail, hname⟩ := List.isPrefixOf_iff_prefix.mp starts
  rw [hseries] at hname
  have first : Version.leadingParts name.toList
      = major :: Version.leadingParts (minor ++ (suffix ++ tail)) := by
    have text : name.toList = major ++ '.' :: (minor ++ (suffix ++ tail)) := by
      rw [← hname]
      simp
    rw [text, Version.leadingParts_append ne hmajor]
    · rfl
    · intro c hc
      cases hc
      exact Version.isDecimal_point
  obtain ⟨digits, rest, hsplit, hdigits, stop⟩ := Version.exists_digits_append (suffix ++ tail)
  refine ⟨digits, Version.afterPoint rest, ?_⟩
  rw [first, hsplit, ← List.append_assoc, Version.leadingParts_append (by simp [ne']) _ stop]
  intro c hc
  rcases List.mem_append.mp hc with hc | hc
  · exact hminor c hc
  · exact hdigits c hc

/-- What is reported on an instruction is a proposal that was chosen out of an answer, or nothing. -/
theorem exists_proposed_of_newerTagFinding {found : Option Finding}
    (h : newerTagFinding registry x = .ok found) :
    ∃ proposed : Option String, found = proposed.map (proposal x) ∧ ∀ name ∈ proposed,
      ∃ tag body, comparableTag? x = some tag ∧ newerTag? tag body = .ok (some name) := by
  rw [newerTagFinding] at h
  split at h
  · next tag body comparable _ =>
    obtain ⟨chosen, hchosen, rfl⟩ := map_eq_ok_iff.mp h
    refine ⟨chosen, rfl, fun name hname => ⟨tag, body, comparable, ?_⟩⟩
    rw [hchosen, Option.mem_def.mp hname]
  · cases h
    exact ⟨none, rfl, by simp⟩

/-- A tag that is listed alone is reported, if it is a candidate and higher. -/
theorem reported_of_higher {version : Version}
    (compares : x.keyword = .fromImage ∧ x.tag = some tag ∧ tag ≠ "" ∧ lower tag ≠ "latest")
    (own : Version.leading? tag = .ok (some current))
    (candidate : IsCandidate tag [name] ⟨version, name⟩)
    (higher : version.isHigher current = true) :
    checkNewerTag (.ofNames [name]) [x] = .ok [proposal x name] := by
  have readable : ∀ n ∈ [tag, name], Version.Readable n := by
    rw [List.forall_mem_cons, List.forall_mem_singleton]
    exact ⟨(Version.leading?_eq_some_iff.mp own).2.1,
      (Version.leading?_eq_some_iff.mp candidate.version).2.1⟩
  obtain ⟨chosen, proposes, chooses⟩ := exists_proposes (comparableTag?_eq_some_iff.mpr compares)
    (Registry.lists_ofNames (repository x) [name]) readable
  obtain ⟨c, rfl⟩ := Option.isSome_iff_exists.mp
    (chooses.isSome_iff.mpr ⟨current, _, own, candidate, higher⟩)
  have only : c.name = name := by
    cases chooses with
    | best _ best => exact List.mem_singleton.mp best.candidate.listed
  have reported := proposes [] [] [] [] rfl rfl
  rwa [Option.map_some, only] at reported

/-- What is reported on an instruction alone tells what is proposed for it. -/
theorem proposed_eq_of_reported {proposed : Option String} (proposes : Proposes registry x proposed)
    (reported : checkNewerTag registry [x] = .ok [proposal x name]) : proposed = some name := by
  have alone := (proposes [] [] [] [] rfl rfl).symm.trans reported
  cases proposed with
  | none => cases alone
  | some other => rw [proposal_inj (List.singleton_inj.mp (Except.ok.inj alone))]

theorem exists_parts_of_leading? {major minor : Int} {rest : Version}
    (h : Version.leading? tag = .ok (some (major :: minor :: rest))) :
    ∃ first second more, Version.leadingParts tag.toList = first :: second :: more ∧
      (numeral first : Int) = major ∧ (numeral second : Int) = minor := by
  obtain ⟨-, -, parts⟩ := Version.leading?_eq_some_iff.mp h
  obtain ⟨first, later, heq, hfirst, hlater⟩ := List.map_eq_cons_iff.mp parts
  obtain ⟨second, more, rfl, hsecond, -⟩ := List.map_eq_cons_iff.mp hlater
  exact ⟨first, second, more, heq, hfirst, hsecond⟩

/-- The tag that is proposed for a tag with a version of two parts or more has the same major part,
and its minor part starts with the same digits. -/
theorem exists_minor_of_newerTag? {major minor : Int} {rest : Version}
    (version : Version.leading? tag = .ok (some (major :: minor :: rest)))
    (chosen : newerTag? tag body = .ok (some name)) :
    ∃ (digits more : List Char) (next : Int) (later : Version),
      (Version.leadingParts tag.toList)[1]? = some digits ∧
      (Version.leadingParts name.toList)[1]? = some (digits ++ more) ∧
      Version.leading? name = .ok (some (major :: next :: later)) ∧ minor ≤ next ∧
      (next = minor ↔ more = [] ∨ minor = 0 ∧ numeral more = 0) := by
  obtain ⟨starts, found, hfound⟩ := exists_version_of_newerTag? chosen
  obtain ⟨first, digits, others, parts, rfl, rfl⟩ := exists_parts_of_leading? version
  obtain ⟨more, later, parts'⟩ := exists_leadingParts_of_startsWith parts starts
  have reading : Version.leading? name
      = .ok (some ((numeral first : Int) :: (numeral (digits ++ more) : Int)
        :: Version.ofParts later)) := by
    obtain ⟨-, -, rfl⟩ := Version.leading?_eq_some_iff.mp hfound
    rw [hfound, parts']
    rfl
  refine ⟨digits, more, _, _, by rw [parts]; rfl, by rw [parts']; rfl, reading, ?_, ?_⟩
  · exact Int.ofNat_le.mpr (Version.numeral_le_append digits more)
  · rw [Int.ofNat_inj, Version.numeral_append_eq_iff, Int.natCast_eq_zero]

/-- In a list that is checked without a fault, a tag is only proposed for a tag with a version of
two parts or more if its major part is the same and its minor part starts with the same digits. The
minor part is the same exactly if no digits follow, or only zeros do and it is zero. -/
theorem newerTag_minor {xs : List Instruction} {found : List Finding} {major minor : Int}
    {rest : Version} (checked : checkNewerTag registry xs = .ok found) (hx : x ∈ xs)
    (htag : x.tag = some tag)
    (version : Version.leading? tag = .ok (some (major :: minor :: rest))) :
    ∃ proposed, Proposes registry x proposed ∧ ∀ name ∈ proposed,
      ∃ (digits more : List Char) (next : Int) (later : Version),
        (Version.leadingParts tag.toList)[1]? = some digits ∧
        (Version.leadingParts name.toList)[1]? = some (digits ++ more) ∧
        Version.leading? name = .ok (some (major :: next :: later)) ∧ minor ≤ next ∧
        (next = minor ↔ more = [] ∨ minor = 0 ∧ numeral more = 0) := by
  obtain ⟨each, heach, -⟩ := checkNewerTag_eq_ok_iff.mp checked
  obtain ⟨r, -, here⟩ := exists_of_mem_left heach hx
  obtain ⟨proposed, rfl, chosen⟩ := exists_proposed_of_newerTagFinding here
  refine ⟨proposed, proposes_of_newerTagFinding here, fun name hname => ?_⟩
  obtain ⟨own, body, comparable, hchosen⟩ := chosen name hname
  obtain rfl : tag = own :=
    Option.some.inj (htag.symm.trans (comparableTag?_eq_some_iff.mp comparable).2.1)
  exact exists_minor_of_newerTag? version hchosen

/-- Leading zeros are digits too: `00` is the minor part `0`. -/
theorem newerTag_minor_zeros :
    let x := (Instruction.write 1 .fromImage "alpine:3.0").withBase ⟨"alpine", some "3.0", none⟩
    checkNewerTag (.ofNames ["3.00.1"]) [x] = .ok [proposal x "3.00.1"] ∧
      Proposes (.ofNames ["3.00.1"]) x (some "3.00.1") ∧
      Version.leading? "3.0" = .ok (some [3, 0]) ∧
      ∃ later, Version.leading? "3.00.1" = .ok (some (3 :: 0 :: later)) := by
  intro x
  have own : Version.leading? "3.0" = .ok (some [3, 0]) := by decide +kernel
  have candidate : IsCandidate "3.0" ["3.00.1"] ⟨[3, 0, 1], "3.00.1"⟩ :=
    ⟨by decide, by decide +kernel, by decide +kernel⟩
  have reported : checkNewerTag (.ofNames ["3.00.1"]) [x] = .ok [proposal x "3.00.1"] :=
    reported_of_higher ⟨rfl, rfl, by decide, by decide +kernel⟩ own candidate
      (by simp [Version.isHigher])
  obtain ⟨proposed, proposes, named⟩ :=
    newerTag_minor reported (List.mem_singleton_self x) rfl own
  obtain rfl := proposed_eq_of_reported proposes reported
  obtain ⟨digits, more, next, later, hdigits, hmore, reading, -, same⟩ := named _ rfl
  have zero : (Version.leadingParts "3.0".toList)[1]? = some ['0'] := by decide +kernel
  have zeros : (Version.leadingParts "3.00.1".toList)[1]? = some ['0', '0'] := by decide +kernel
  obtain rfl : ['0'] = digits := Option.some.inj (zero.symm.trans hdigits)
  have both : ['0'] ++ ['0'] = ['0'] ++ more := Option.some.inj (zeros.symm.trans hmore)
  obtain rfl := List.append_cancel_left both
  rw [same.mpr (Or.inr ⟨rfl, by decide⟩)] at reading
  exact ⟨reported, proposes, own, later, reading⟩

/-- A minor part with a digit more is taken for a patch. -/
theorem newerTag_minor_digit :
    let x := (Instruction.write 1 .fromImage "alpine:3.1").withBase ⟨"alpine", some "3.1", none⟩
    checkNewerTag (.ofNames ["3.19"]) [x] = .ok [proposal x "3.19"] ∧
      Version.leading? "3.1" = .ok (some [3, 1]) ∧
      Version.leading? "3.19" = .ok (some [3, 19]) := by
  intro x
  have own : Version.leading? "3.1" = .ok (some [3, 1]) := by decide +kernel
  have other : Version.leading? "3.19" = .ok (some [3, 19]) := by decide +kernel
  have candidate : IsCandidate "3.1" ["3.19"] ⟨[3, 19], "3.19"⟩ :=
    ⟨by decide, by decide +kernel, other⟩
  have reported : checkNewerTag (.ofNames ["3.19"]) [x] = .ok [proposal x "3.19"] :=
    reported_of_higher ⟨rfl, rfl, by decide, by decide +kernel⟩ own candidate
      (by simp [Version.isHigher])
  exact ⟨reported, own, other⟩

end Rule

end Dockerfile
