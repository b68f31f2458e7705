import Dockerfile.Proofs.Optimize.NormalForm
import Dockerfile.Proofs.Optimize.Partition
import Dockerfile.Proofs.Optimize.Rendering
import Dockerfile.Proofs.Text.Words

/-!
Secrets in the environment, before and after optimizing.

The rule on secrets looks at the first variable that an ENV sets (`envKey?`). When neighbouring ENVs
are merged, the first of them gives the merged one its first variable (`envKey?_joined`), and the
variables of the others are no longer looked at. So the rule reports on the optimized list what it
reports on the leading ENVs of the list, those that do not follow another one directly
(`checkSecretInEnv_optimize`).
-/

namespace Dockerfile

open Text Rule Optimize

/-! ### The variable of an ENV -/

/-- The first word before the first equals sign. -/
def keyOf (cs : List Char) : Option (List Char) :=
  (wordsOf (cs.takeWhile (· != '='))).head?

theorem envKey?_eq (s : String) : envKey? s = (keyOf s.toList).map String.ofList := by
  simp [envKey?, words, before, keyOf]

variable {a b cs : List Char}

theorem head_takeWhile_blank {p : Char → Bool} (h : ∀ c ∈ b.head?, isBlank c = true) :
    ∀ c ∈ (b.takeWhile p).head?, isBlank c = true := by
  intro c hc
  apply h
  obtain ⟨rest, heq⟩ := List.takeWhile_prefix (l := b) p
  rw [← heq, List.head?_append, Option.mem_def.mp hc]
  rfl

/-- Text after a blank adds words at the end, if any. -/
theorem exists_wordsOf_takeWhile_append (h : ∀ c ∈ b.head?, isBlank c = true) (p : Char → Bool) :
    ∃ more, wordsOf ((a ++ b).takeWhile p) = wordsOf (a.takeWhile p) ++ more ∧
      ((∀ c ∈ b, isBlank c = true) → more = []) := by
  rw [List.takeWhile_append]
  split
  · next whole =>
    have taken : a.takeWhile p = a := (List.takeWhile_prefix p).eq_of_length whole
    refine ⟨wordsOf (b.takeWhile p), ?_, fun blank => ?_⟩
    · rw [taken, wordsOf_append (head_takeWhile_blank h)]
    · exact wordsOf_eq_nil_of_blank fun c hc => blank c ((List.takeWhile_prefix p).subset hc)
  · exact ⟨[], by simp, fun _ => rfl⟩

theorem keyOf_append (h : ∀ c ∈ b.head?, isBlank c = true) (keyed : keyOf a ≠ none) :
    keyOf (a ++ b) = keyOf a := by
  obtain ⟨more, heq, -⟩ := exists_wordsOf_takeWhile_append (a := a) h (· != '=')
  rw [keyOf, Ne, List.head?_eq_none_iff] at keyed
  rw [keyOf, heq, List.head?_append_of_ne_nil _ keyed, keyOf]

theorem keyOf_trim (cs : List Char) : keyOf (trim cs) = keyOf cs := by
  obtain ⟨before, after, heq, hbefore, hafter⟩ := exists_eq_append_trim cs
  have blank : ∀ c ∈ after.head?, isBlank c = true :=
    fun c hc => hafter c (List.mem_of_mem_head? hc)
  have unequal : ∀ c ∈ before, (c != '=') = true := by
    intro c hc
    have hc := hbefore c hc
    simp only [bne_iff_ne, ne_eq]
    rintro rfl
    exact absurd hc (by decide)
  obtain ⟨more, hwords, none⟩ :=
    exists_wordsOf_takeWhile_append (a := trim cs) blank (· != '=')
  have hkept : (cs.takeWhile (· != '=')) = before ++ (trim cs ++ after).takeWhile (· != '=') := by
    rw [← List.takeWhile_append_of_pos unequal, ← List.append_assoc, ← heq]
  rw [keyOf, keyOf, hkept, wordsOf_blank_append hbefore, hwords, none hafter, List.append_nil]

theorem envKey?_joined {separator : String} (h : ∃ c ∈ separator.toList.head?, isBlank c = true)
    {first second : Instruction} {rest : List Instruction} (keyed : envKey? first.value ≠ none) :
    envKey? (joined separator (first :: second :: rest)) = envKey? first.value := by
  obtain ⟨c, hc, blank⟩ := h
  rw [envKey?_eq, Ne, Option.map_eq_none_iff, ← keyOf_trim] at keyed
  rw [envKey?_eq, envKey?_eq, toList_joined, List.map_cons, List.map_cons,
    List.intercalate_cons_cons, List.append_assoc, keyOf_append _ keyed, keyOf_trim]
  intro d hd
  rw [List.head?_append, Option.mem_def.mp hc] at hd
  cases hd
  exact blank

/-! ### What the rule reports -/

/-- The ENVs, in order. -/
def envs (xs : List Instruction) : List Instruction :=
  xs.filter (·.keyword == .env)

/-- The finding on an ENV, if its variable looks secret. -/
def secret? (x : Instruction) : Option Finding :=
  (secretFinding x).toOption.join

variable {x y : Instruction} {xs : List Instruction} {findings : List Finding}

theorem exists_secretFinding_iff :
    (∃ found, secretFinding x = .ok found) ↔ envKey? x.value ≠ none := by
  rw [secretFinding]
  cases envKey? x.value with
  | none => simp
  | some key => simp

theorem secretFinding_eq_ok_iff {found : Option Finding} :
    secretFinding x = .ok found ↔ envKey? x.value ≠ none ∧ found = secret? x := by
  constructor
  · intro h
    refine ⟨exists_secretFinding_iff.mp ⟨found, h⟩, ?_⟩
    rw [secret?, h]
    rfl
  · intro h
    obtain ⟨found, hfound⟩ := exists_secretFinding_iff.mpr h.1
    rw [h.2, secret?, hfound]
    rfl

theorem secret?_ne_none_iff :
    secret? x ≠ none ↔ ∃ key, envKey? x.value = some key ∧ looksSecret key = true := by
  rw [secret?, secretFinding]
  cases envKey? x.value with
  | none => simp [Except.toOption]
  | some key => simp [Except.toOption]

/-- The rule sees of an ENV its line and its first variable. -/
theorem secret?_congr (line : y.line = x.line) (key : envKey? y.value = envKey? x.value) :
    secret? y = secret? x := by
  rw [secret?, secret?, secretFinding, secretFinding, line, key]

theorem mapM_secretFinding_eq_ok_iff {found : List (Option Finding)} :
    xs.mapM secretFinding = .ok found ↔
      (∀ x ∈ xs, envKey? x.value ≠ none) ∧ found = xs.map secret? := by
  rw [mapM_eq_ok_iff]
  simp only [secretFinding_eq_ok_iff]
  rw [List.forall₂_and_left, eq_comm, ← List.forall₂_eq_eq_eq, List.forall₂_map_left_iff]
  simp only [eq_comm]

theorem filterMap_map_secret? (xs : List Instruction) :
    (xs.map secret?).filterMap id = xs.filterMap secret? := by
  rw [List.filterMap_map, Function.id_comp]

/-- The rule returns normally exactly if every ENV sets a variable, and then it reports those whose
first variable looks secret. -/
theorem checkSecretInEnv_eq_ok_iff :
    checkSecretInEnv xs = .ok findings ↔
      (∀ x ∈ envs xs, envKey? x.value ≠ none) ∧ findings = (envs xs).filterMap secret? := by
  rw [checkSecretInEnv, ← envs, map_eq_ok_iff]
  constructor
  · rintro ⟨found, hmap, rfl⟩
    obtain ⟨keyed, rfl⟩ := mapM_secretFinding_eq_ok_iff.mp hmap
    exact ⟨keyed, filterMap_map_secret? _⟩
  · rintro ⟨keyed, rfl⟩
    have hmap := mapM_secretFinding_eq_ok_iff.mpr ⟨keyed, rfl⟩
    exact ⟨(envs xs).map secret?, hmap, filterMap_map_secret? _⟩

/-! ### Leading ENVs -/

/-- The ENVs that do not follow another one directly; `within` says whether one stands before the
list. -/
def leadingEnvs (within : Bool) : List Instruction → List Instruction
  | [] => []
  | x :: xs =>
    if x.keyword = .env then
      if within then leadingEnvs true xs else x :: leadingEnvs true xs
    else leadingEnvs false xs

theorem leadingEnvs_sublist (within : Bool) (xs : List Instruction) :
    (leadingEnvs within xs).Sublist (envs xs) := by
  induction xs generalizing within with
  | nil => exact List.Sublist.refl _
  | cons x xs ih =>
    rw [leadingEnvs, envs]
    by_cases hx : x.keyword = .env
    · rw [if_pos hx, List.filter_cons_of_pos (by simp [hx])]
      cases within with
      | true => exact (ih true).cons x
      | false => exact (ih true).cons_cons x
    · rw [if_neg hx, List.filter_cons_of_neg (by simp [hx])]
      exact ih false

theorem leadingEnvs_append_env {block rest : List Instruction}
    (h : ∀ x ∈ block, x.keyword = .env) :
    leadingEnvs true (block ++ rest) = leadingEnvs true rest := by
  induction block with
  | nil => rfl
  | cons x block ih =>
    rw [List.cons_append, leadingEnvs, if_pos (h x List.mem_cons_self), if_pos rfl]
    exact ih fun z hz => h z (List.mem_cons_of_mem _ hz)

theorem leadingEnvs_append_other {block rest : List Instruction} (ne : block ≠ [])
    (h : ∀ x ∈ block, x.keyword ≠ .env) (within : Bool) :
    leadingEnvs within (block ++ rest) = leadingEnvs false rest := by
  induction block generalizing within with
  | nil => exact absurd rfl ne
  | cons x block ih =>
    rw [List.cons_append, leadingEnvs, if_neg (h x List.mem_cons_self)]
    cases block with
    | nil => rfl
    | cons z block => exact ih (by simp) (fun w hw => h w (List.mem_cons_of_mem _ hw)) false

/-! ### ENVs through a run -/

/-- The instruction sets first what the block sets first, if it is an ENV, and none of the block is
one if it is none. -/
structure SetsFirst (block : List Instruction) (y : Instruction) : Prop where
  ne_nil : block ≠ []
  env : ∀ x ∈ block, x.keyword = .env ↔ y.keyword = .env
  first : y.keyword = .env → (∀ x ∈ block, envKey? x.value ≠ none) →
    ∀ x ∈ block.head?, y.line = x.line ∧ envKey? y.value = envKey? x.value

theorem SetsFirst.envKey?_ne_none {block : List Instruction} (h : SetsFirst block y)
    (env : y.keyword = .env) (keyed : ∀ x ∈ block, envKey? x.value ≠ none) :
    envKey? y.value ≠ none := by
  have head := List.head?_eq_some_head h.ne_nil
  rw [(h.first env keyed _ head).2]
  exact keyed _ (List.head_mem h.ne_nil)

theorem gathers_setsFirst : Gathers SetsFirst where
  keep x := ⟨List.cons_ne_nil x [], by simp, by simp⟩
  gather := by
    intro pieces block y made top
    obtain ⟨b, bs, rfl⟩ := List.exists_cons_of_ne_nil top.ne_nil
    obtain ⟨piece, pieces, here, later, rfl⟩ := List.forall₂_cons_right_iff.mp made
    obtain ⟨first, rest, rfl⟩ := List.exists_cons_of_ne_nil here.ne_nil
    refine ⟨by simp, ?_, ?_⟩
    · intro x hx
      obtain ⟨piece, -, c, hc, made, hx⟩ := exists_of_mem_flatten made hx
      exact (made.env x hx).trans (top.env c hc)
    · intro env keyed x hx
      obtain rfl : x = first := by simpa [eq_comm] using hx
      have keyedBlock : ∀ c ∈ b :: bs, envKey? c.value ≠ none := by
        intro c hc
        obtain ⟨piece, hpiece, made⟩ := exists_of_mem_right made hc
        refine made.envKey?_ne_none ((top.env c hc).mpr env) fun z hz => keyed z ?_
        exact List.mem_flatten_of_mem hpiece hz
      have keyedPiece : ∀ z ∈ x :: rest, envKey? z.value ≠ none :=
        fun z hz => keyed z (List.mem_append_left _ hz)
      have outer := top.first env keyedBlock b rfl
      have inner := here.first ((top.env b List.mem_cons_self).mpr env) keyedPiece x rfl
      exact ⟨outer.1.trans inner.1, outer.2.trans inner.2⟩

theorem Pass.Rewrites.setsFirst {pass : Pass} {block : List Instruction}
    (h : pass.Rewrites block y) : SetsFirst block y := by
  cases h with
  | keep => exact gathers_setsFirst.keep y
  | @replace x _ change found =>
    have other : pass.subject? ≠ some .env := by cases pass <;> decide
    obtain ⟨hx, hy⟩ := keyword_ne_of_replacement? found other (by decide)
    exact ⟨by simp, by simp [hx, hy], fun env => absurd env hy⟩
  | @merge first second rest merges same =>
    have blank : ∃ c ∈ pass.separator.toList.head?, isBlank c = true := by
      cases pass <;> exact ⟨' ', rfl, isBlank_space⟩
    refine ⟨by simp, fun x hx => by rw [same x hx, write_keyword], fun _ keyed x hx => ?_⟩
    obtain rfl : first = x := by simpa using hx
    rw [write_line, write_value]
    exact ⟨rfl, envKey?_joined blank (keyed first List.mem_cons_self)⟩

/-- Where ENVs are apart, the ENVs made of some pieces set first what the leading ENVs of the pieces
do. -/
theorem forall₂_leadingEnvs {pieces : List (List Instruction)} {ys : List Instruction}
    (made : List.Forall₂ SetsFirst pieces ys) (apart : Apart .env ys) (within : Bool)
    (start : within = true → ∀ y ∈ ys.head?, y.keyword ≠ .env)
    (keyed : ∀ x ∈ envs pieces.flatten, envKey? x.value ≠ none) :
    List.Forall₂ (fun x y => y.line = x.line ∧ envKey? y.value = envKey? x.value)
      (leadingEnvs within pieces.flatten) (envs ys) := by
  induction made generalizing within with
  | nil => exact .nil
  | @cons piece y pieces ys here _ ih =>
    obtain ⟨next, apart⟩ := List.isChain_cons.mp apart
    have later : ∀ x ∈ envs pieces.flatten, envKey? x.value ≠ none := by
      intro x hx
      apply keyed
      rw [List.flatten_cons, envs, List.filter_append]
      exact List.mem_append_right _ hx
    rw [List.flatten_cons]
    by_cases env : y.keyword = .env
    · have block : ∀ x ∈ piece, x.keyword = .env := fun x hx => (here.env x hx).mpr env
      have keyedPiece : ∀ x ∈ piece, envKey? x.value ≠ none := by
        intro x hx
        apply keyed
        simp [envs, hx, block x hx]
      obtain ⟨first, rest, rfl⟩ := List.exists_cons_of_ne_nil here.ne_nil
      obtain rfl : within = false := by
        cases within with
        | false => rfl
        | true => exact absurd env (start rfl y rfl)
      have hfirst : first.keyword = .env := block first List.mem_cons_self
      have hrest : ∀ x ∈ rest, x.keyword = .env := fun x hx => block x (List.mem_cons_of_mem _ hx)
      rw [List.cons_append, leadingEnvs, if_pos hfirst, if_neg (by simp),
        leadingEnvs_append_env hrest, envs, List.filter_cons_of_pos (by simp [env])]
      refine .cons (here.first env keyedPiece first rfl) (ih apart true ?_ later)
      intro _ z hz hzenv
      exact next z hz ⟨env, hzenv⟩
    · have block : ∀ x ∈ piece, x.keyword ≠ .env := fun x hx => mt (here.env x hx).mp env
      rw [leadingEnvs_append_other here.ne_nil block, envs, List.filter_cons_of_neg (by simp [env])]
      exact ih apart false (by simp) later

theorem forall₂_leadingEnvs_optimize (keyed : ∀ x ∈ envs xs, envKey? x.value ≠ none) :
    List.Forall₂ (fun x y => y.line = x.line ∧ envKey? y.value = envKey? x.value)
      (leadingEnvs false xs) (envs (optimize xs).instructions) := by
  obtain ⟨pieces, hpieces, made⟩ := Pass.exists_pieces_applyAll gathers_setsFirst Pass.all
    (fun _ _ _ _ rewritten => rewritten.setsFirst) xs
  have idle : Pass.mergeMetadata.Idle (optimize xs).instructions := idle_optimize (by decide) xs
  have apart : Apart .env (optimize xs).instructions := (Pass.idle_iff.mp idle).2 .env rfl
  subst hpieces
  exact forall₂_leadingEnvs made apart false (by simp) keyed

/-! ### What the rule reports after optimizing -/

theorem map_secret?_eq {ys : List Instruction}
    (h : List.Forall₂ (fun x y => y.line = x.line ∧ envKey? y.value = envKey? x.value) xs ys) :
    ys.map secret? = xs.map secret? := by
  rw [eq_comm, ← List.forall₂_eq_eq_eq, List.forall₂_map_left_iff, List.forall₂_map_right_iff]
  exact h.imp fun x y same => (secret?_congr same.1 same.2).symm

theorem envs_leadingEnvs (xs : List Instruction) :
    envs (leadingEnvs false xs) = leadingEnvs false xs := by
  refine List.filter_eq_self.mpr fun x hx => ?_
  exact (List.mem_filter.mp ((leadingEnvs_sublist false xs).subset hx)).2

theorem checkSecretInEnv_optimize (h : checkSecretInEnv xs = .ok findings) :
    checkSecretInEnv (optimize xs).instructions
      = .ok ((leadingEnvs false xs).filterMap secret?) := by
  obtain ⟨keyed, -⟩ := checkSecretInEnv_eq_ok_iff.mp h
  have same := forall₂_leadingEnvs_optimize keyed
  have leading : ∀ x ∈ leadingEnvs false xs, envKey? x.value ≠ none :=
    fun x hx => keyed x ((leadingEnvs_sublist false xs).subset hx)
  refine checkSecretInEnv_eq_ok_iff.mpr ⟨fun y hy => ?_, ?_⟩
  · obtain ⟨x, hx, -, hkey⟩ := exists_of_mem_right same hy
    rw [hkey]
    exact leading x hx
  · rw [← filterMap_map_secret?, ← filterMap_map_secret?, map_secret?_eq same]

/-- Where the rule on secrets returns normally, it does so after optimizing too, and reports what it
reports on the leading ENVs. So something of what it reported is left exactly if the first variable
of a leading ENV looks secret. -/
theorem secret_optimize (registry : Registry)
    (h : Rule.secretInEnv.check registry xs = .ok findings) :
    ∃ kept, Rule.secretInEnv.check registry (optimize xs).instructions = .ok kept ∧
      Rule.secretInEnv.check registry (leadingEnvs false xs) = .ok kept ∧
      kept.Sublist findings ∧
      (kept ≠ [] ↔ ∃ x ∈ leadingEnvs false xs, ∃ key, envKey? x.value = some key ∧
        looksSecret key = true) := by
  change checkSecretInEnv xs = .ok findings at h
  obtain ⟨keyed, hfindings⟩ := checkSecretInEnv_eq_ok_iff.mp h
  have sublist := leadingEnvs_sublist false xs
  refine ⟨(leadingEnvs false xs).filterMap secret?, checkSecretInEnv_optimize h, ?_, ?_, ?_⟩
  · refine checkSecretInEnv_eq_ok_iff.mpr ⟨?_, ?_⟩
    · rw [envs_leadingEnvs]
      exact fun x hx => keyed x (sublist.subset hx)
    · rw [envs_leadingEnvs]
  · rw [hfindings]
    exact sublist.filterMap secret?
  · simp only [← secret?_ne_none_iff, Ne, List.filterMap_eq_nil_iff, not_forall, exists_prop]

/-- The secret of a leading ENV is still seen when another ENV is merged into it, and the one that
is merged into a leading ENV is not. -/
theorem secret_optimize_leading :
    let xs : List Instruction := [.write 1 .env "API_KEY=1", .write 2 .env "B=2", .write 3 .run "c",
      .write 4 .env "D=4", .write 5 .env "PASSWORD=5"]
    ∃ findings kept, Rule.secretInEnv.check (fun _ => none) xs = .ok findings ∧
      findings.map Finding.line = [1, 5] ∧
      Rule.secretInEnv.check (fun _ => none) (optimize xs).instructions = .ok kept ∧
      kept.map Finding.line = [1] := by
  intro xs
  have before : Rule.secretInEnv.check (fun _ => none) xs = .ok ((envs xs).filterMap secret?) := by
    decide +kernel
  have leading : Rule.secretInEnv.check (fun _ => none) (leadingEnvs false xs)
      = .ok ((leadingEnvs false xs).filterMap secret?) := by
    decide +kernel
  obtain ⟨kept, after, hkept, -, -⟩ := secret_optimize (fun _ => none) before
  cases leading.symm.trans hkept
  exact ⟨_, _, before, by decide +kernel, after, by decide +kernel⟩

/-- A secret that is reported before optimizing and not afterwards. -/
theorem secret_optimize_hidden :
    let xs := parse "ENV APP_NAME=web\nENV DB_PASSWORD=hunter2"
    (Rule.secretInEnv.check (fun _ => none) xs).map (·.map Finding.line) = .ok [2] ∧
      Rule.secretInEnv.check (fun _ => none) (optimize xs).instructions = .ok [] := by
  decide +kernel

end Dockerfile
