import Mathlib.Data.List.Chain
import Mathlib.Data.List.Forall2
import Dockerfile.Outcome

/-!
Lists whose members are related one by one.

The pieces that a list is cut into are related to what is made of them, and the members of a list
that is gone through without a fault to their results (`mapM_eq_ok_iff`). Where a list is searched
from its end, nothing is found after what is found (`getLast?_filter_eq_some_iff`).
-/

namespace Dockerfile

section Related

variable {α β : Type} {R : α → β → Prop} {as : List α} {bs : List β}

/-! ### Members -/

theorem exists_of_mem_left (h : List.Forall₂ R as bs) {a : α} (ha : a ∈ as) : ∃ b ∈ bs, R a b := by
  induction h with
  | nil => simp at ha
  | @cons c b as bs here _ ih =>
    rcases List.mem_cons.mp ha with rfl | ha
    · exact ⟨b, List.mem_cons_self, here⟩
    · obtain ⟨b', hb', later⟩ := ih ha
      exact ⟨b', List.mem_cons_of_mem _ hb', later⟩

theorem exists_of_mem_right (h : List.Forall₂ R as bs) {b : β} (hb : b ∈ bs) : ∃ a ∈ as, R a b :=
  exists_of_mem_left h.flip hb

theorem isChain_of_forall₂ {S : α → α → Prop} {T : β → β → Prop} (h : List.Forall₂ R as bs)
    (step : ∀ a a' b b', R a b → R a' b' → S a a' → T b b') (chain : as.IsChain S) :
    bs.IsChain T := by
  induction h with
  | nil => exact List.isChain_nil
  | cons hab later ih =>
    cases later with
    | nil => exact List.isChain_singleton _
    | cons hab' later =>
      obtain ⟨here, rest⟩ := List.isChain_cons_cons.mp chain
      exact List.isChain_cons_cons.mpr ⟨step _ _ _ _ hab hab' here, ih rest⟩

/-! ### Pieces -/

theorem flatten_singletons (as : List α) : (as.map ([·])).flatten = as := by
  rw [← List.flatMap_def, List.flatMap_singleton']

theorem forall₂_singletons {S : List α → α → Prop} (keep : ∀ a, S [a] a) (as : List α) :
    List.Forall₂ S (as.map ([·])) as := by
  induction as with
  | nil => exact .nil
  | cons a as ih => exact .cons (keep a) ih

/-- What is related to a list of groups falls into groups itself. -/
theorem exists_groups {groups : List (List β)} (h : List.Forall₂ R as groups.flatten) :
    ∃ parts : List (List α), parts.flatten = as ∧ List.Forall₂ (List.Forall₂ R) parts groups := by
  induction groups generalizing as with
  | nil =>
    rw [List.flatten_nil, List.forall₂_nil_right_iff] at h
    exact ⟨[], h.symm, .nil⟩
  | cons group groups ih =>
    rw [List.flatten_cons] at h
    obtain ⟨parts, hparts, related⟩ := ih (List.forall₂_drop_append as group _ h)
    refine ⟨as.take group.length :: parts, ?_, ?_⟩
    · rw [List.flatten_cons, hparts, List.take_append_drop]
    · exact .cons (List.forall₂_take_append as group _ h) related

/-- A member of some pieces is a member of one of them, of which something is made. -/
theorem exists_of_mem_flatten {S : List α → β → Prop} {pieces : List (List α)}
    (h : List.Forall₂ S pieces bs) {x : α} (hx : x ∈ pieces.flatten) :
    ∃ piece ∈ pieces, ∃ b ∈ bs, S piece b ∧ x ∈ piece := by
  obtain ⟨piece, hpiece, hx⟩ := List.mem_flatten.mp hx
  obtain ⟨b, hb, here⟩ := exists_of_mem_left h hpiece
  exact ⟨piece, hpiece, b, hb, here, hx⟩

/-- A view that shows of each piece what it shows of the member made of it shows the same of both
lists. -/
theorem map_filter_flatten {γ : Type} {S : List α → α → Prop} {p : α → Bool} {view : α → γ}
    {pieces : List (List α)} {ys : List α} (made : List.Forall₂ S pieces ys)
    (step : ∀ piece y, S piece y → ([y].filter p).map view = (piece.filter p).map view) :
    (ys.filter p).map view = (pieces.flatten.filter p).map view := by
  induction made with
  | nil => rfl
  | @cons piece y pieces ys here _ ih =>
    calc ((y :: ys).filter p).map view
        = ([y].filter p).map view ++ (ys.filter p).map view := by
          rw [← List.map_append, ← List.filter_append, List.singleton_append]
      _ = ((piece :: pieces).flatten.filter p).map view := by
          rw [step piece y here, ih, ← List.map_append, ← List.filter_append, List.flatten_cons]

theorem exists_find?_iff {p : α → Bool} :
    (∃ a, as.find? p = some a) ↔ ∃ a ∈ as, p a = true := by
  rw [← Option.isSome_iff_exists, List.find?_isSome]

/-- The last chosen member of a list, with none after it. -/
theorem getLast?_filter_eq_some_iff {p : α → Bool} {a : α} :
    (as.filter p).getLast? = some a ↔
      p a = true ∧ ∃ before after, as = before ++ a :: after ∧ ∀ b ∈ after, p b = false := by
  rw [List.getLast?_eq_head?_reverse, ← List.filter_reverse, List.head?_filter,
    List.find?_eq_some_iff_append]
  refine and_congr_right fun _ => ⟨?_, ?_⟩
  · rintro ⟨after, before, heq, others⟩
    refine ⟨before.reverse, after.reverse, ?_, by simpa using others⟩
    rw [← List.reverse_inj, heq]
    simp
  · rintro ⟨before, after, rfl, others⟩
    exact ⟨after.reverse, before.reverse, by simp, by simpa using others⟩

/-! ### Results -/

theorem not_isOk_iff {result : Except Fault α} :
    (!result.isOk) = true ↔ ∃ fault, result = .error fault := by
  cases result <;> simp [Except.isOk, Except.toBool]

/-- A list is gone through without a fault exactly if each of its members is. -/
theorem mapM_eq_ok_iff {f : α → Except Fault β} :
    as.mapM f = .ok bs ↔ List.Forall₂ (fun a b => f a = .ok b) as bs := by
  induction as generalizing bs with
  | nil => cases bs <;> simp [pure, Except.pure]
  | cons a as ih =>
    rw [List.mapM_cons, List.forall₂_cons_left_iff]
    cases ha : f a with
    | error fault => simp [bind, Except.bind]
    | ok b =>
      simp only [bind, Except.bind, Except.ok.injEq, exists_and_left, exists_eq_left', ← ih]
      cases as.mapM f with
      | error fault => simp
      | ok more => simp [pure, Except.pure, eq_comm]

/-- Lists that look the same are gone through with the same result, if only what is seen counts. -/
theorem mapM_eq_of_map_eq {γ : Type} {view : α → γ} {f : α → Except Fault β} {cs : List α}
    (h : as.map view = cs.map view) (seen : ∀ a c, view a = view c → f a = f c) :
    as.mapM f = cs.mapM f := by
  rw [← List.forall₂_eq_eq_eq, List.forall₂_map_left_iff, List.forall₂_map_right_iff] at h
  induction h with
  | nil => rfl
  | @cons a c as cs here _ ih => rw [List.mapM_cons, List.mapM_cons, seen a c here, ih]

/-- Going through a list ends in the fault of the first member that has one. -/
theorem mapM_eq_error_iff {f : α → Except Fault β} {fault : Fault} :
    as.mapM f = .error fault ↔
      ∃ a, as.find? (fun a => !(f a).isOk) = some a ∧ f a = .error fault := by
  induction as with
  | nil => simp [pure, Except.pure]
  | cons a as ih =>
    rw [List.mapM_cons]
    cases ha : f a with
    | error other => simp [bind, Except.bind, Except.isOk, Except.toBool, ha]
    | ok b =>
      have skip : (a :: as).find? (fun a => !(f a).isOk) = as.find? (fun a => !(f a).isOk) :=
        List.find?_cons_of_neg (by simp [ha, Except.isOk, Except.toBool])
      rw [skip, ← ih]
      cases as.mapM f with
      | error other => simp [bind, Except.bind]
      | ok more => simp [bind, Except.bind, pure, Except.pure]

theorem exists_mapM_error_iff {f : α → Except Fault β} :
    (∃ fault, as.mapM f = .error fault) ↔ ∃ a ∈ as, ∃ fault, f a = .error fault := by
  simp only [mapM_eq_error_iff]
  constructor
  · rintro ⟨fault, a, found, failed⟩
    exact ⟨a, List.mem_of_find?_eq_some found, fault, failed⟩
  · rintro ⟨a, ha, failed⟩
    have fails : ∃ a ∈ as, (!(f a).isOk) = true := ⟨a, ha, not_isOk_iff.mpr failed⟩
    obtain ⟨first, found⟩ := exists_find?_iff.mpr fails
    have here := List.find?_some found
    obtain ⟨fault, failed⟩ := not_isOk_iff.mp here
    exact ⟨fault, first, found, failed⟩

/-- Where no member has a fault, the results are those that are left when faults are dropped. -/
theorem map_eq_map_ok {f : α → Except Fault β} (h : ∀ a ∈ as, ∃ b, f a = .ok b) :
    as.map f = (as.filterMap fun a => (f a).toOption).map Except.ok := by
  induction as with
  | nil => rfl
  | cons a as ih =>
    obtain ⟨b, hb⟩ := h a List.mem_cons_self
    have here : (f a).toOption = some b := by
      rw [hb]
      rfl
    rw [List.map_cons, List.filterMap_cons, here, hb, List.map_cons,
      ih fun c hc => h c (List.mem_cons_of_mem _ hc)]

theorem map_eq_ok_iff {g : α → β} {result : Except Fault α} {b : β} :
    result.map g = .ok b ↔ ∃ a, result = .ok a ∧ g a = b := by
  cases result <;> simp [Except.map]

theorem bind_eq_ok_iff {f : α → Except Fault β} {result : Except Fault α} {b : β} :
    result >>= f = .ok b ↔ ∃ a, result = .ok a ∧ f a = .ok b := by
  cases result <;> simp [bind, Except.bind]

theorem map_eq_error_iff {g : α → β} {result : Except Fault α} {fault : Fault} :
    result.map g = .error fault ↔ result = .error fault := by
  cases result <;> simp [Except.map]

end Related

end Dockerfile
