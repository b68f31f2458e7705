import Dockerfile.Outcome

/-!
How computations end.

The result of a computation depends on its steps through their results alone, so each way to put
computations together has one equation on results. With these, a statement on how a command ends is
proved step by step, without its events. To show something ends well exactly if the console does not
refuse it (`Console.Shows`, `Console.Prints`).
-/

namespace Dockerfile

/-! ### Consoles -/

namespace Console

/-- What is shown comes out. -/
def Shows (console : Console) (channel : Channel) (parts : List Display) : Prop :=
  ∃ text, console.render channel parts = .ok text

/-- The line comes out. -/
def Prints (console : Console) (line : String) : Prop :=
  console.refusal? line = none

/-- Nothing is refused. -/
structure ShowsAll (console : Console) : Prop where
  shows : ∀ channel parts, console.Shows channel parts
  prints : ∀ line, console.Prints line

end Console

namespace Outcome

variable {α β : Type} {x : Outcome α} {a : α} {last : Outcome Unit} {fault : Fault}
  {console : Console} {channel : Channel} {parts : List Display} {text line : String}

/-! ### Single steps -/

@[simp]
theorem result_pure (a : α) : (pure a : Outcome α).result = .ok a := rfl

theorem result_raiseIf_eq_ok_iff {raised : Option Fault} {a : Unit} :
    (raiseIf raised).result = .ok a ↔ raised = none := by
  cases raised <;> simp [raiseIf, raise, done]

@[simp]
theorem result_ask (request : Request) : (ask request).result = .ok () := rfl

@[simp]
theorem result_ofExcept (result : Except Fault α) : (ofExcept result).result = result := rfl

theorem present_of_shows (h : console.Shows channel parts) :
    present console channel parts = ⟨[.shown channel parts], .ok ()⟩ := by
  obtain ⟨text, rendered⟩ := h
  simp [present, rendered]

theorem result_present (h : console.Shows channel parts) :
    (present console channel parts).result = .ok () := by
  rw [present_of_shows h]

theorem result_say (h : console.Shows channel [.markup text]) :
    (say console channel text).result = .ok () :=
  result_present h

theorem result_print (h : console.Prints line) : (print console line).result = .ok () := by
  unfold print
  rw [h]

theorem result_say_eq_ok_iff {a : Unit} :
    (say console channel text).result = .ok a ↔ console.Shows channel [.markup text] := by
  refine ⟨fun h => ?_, result_say⟩
  unfold say present at h
  cases rendered : console.render channel [.markup text] with
  | ok output => exact ⟨output, rendered⟩
  | error refusal =>
    rw [rendered] at h
    cases h

/-! ### Steps in turn -/

theorem result_andThen_of_ok {f : α → Outcome β} (h : x.result = .ok a) :
    (x.andThen f).result = (f a).result := by
  unfold andThen
  rw [h]

theorem result_andThen_of_error {f : α → Outcome β} (h : x.result = .error fault) :
    (x.andThen f).result = .error fault := by
  unfold andThen
  rw [h]

theorem result_bind_of_ok {f : α → Outcome β} (h : x.result = .ok a) :
    (x >>= f).result = (f a).result :=
  result_andThen_of_ok h

theorem result_bind_of_error {f : α → Outcome β} (h : x.result = .error fault) :
    (x >>= f).result = .error fault :=
  result_andThen_of_error h

theorem result_bind_eq_ok_iff {f : α → Outcome β} {b : β} :
    (x >>= f).result = .ok b ↔ ∃ a, x.result = .ok a ∧ (f a).result = .ok b := by
  cases h : x.result with
  | ok a => simp [result_bind_of_ok h]
  | error fault => simp [result_bind_of_error h]

/-- Steps that end alike make computations that end alike. -/
theorem result_bind_congr {y : Outcome α} {f g : α → Outcome β} (hx : x.result = y.result)
    (hf : ∀ a, (f a).result = (g a).result) : (x >>= f).result = (y >>= g).result := by
  cases h : x.result with
  | ok a => rw [result_bind_of_ok h, result_bind_of_ok (hx.symm.trans h), hf]
  | error fault => rw [result_bind_of_error h, result_bind_of_error (hx.symm.trans h)]

theorem result_orElse_of_ok {f : Fault → Outcome α} (h : x.result = .ok a) :
    (x.orElse f).result = .ok a := by
  unfold orElse
  rw [h]

theorem result_orElse_of_error {f : Fault → Outcome α} (h : x.result = .error fault) :
    (x.orElse f).result = (f fault).result := by
  unfold orElse
  rw [h]

/-- Steps of one event each, none of which ends in a fault. -/
theorem forEach_of_forall {f : α → Outcome Unit} {event : α → Event} {as : List α}
    (h : ∀ a ∈ as, f a = ⟨[event a], .ok ()⟩) : forEach f as = ⟨as.map event, .ok ()⟩ := by
  induction as with
  | nil => rfl
  | cons a as ih =>
    obtain ⟨here, later⟩ := List.forall_mem_cons.mp h
    rw [forEach, here, ih later]
    rfl

/-! ### Steps in any case -/

theorem result_ensuring_of_ok (h : last.result = .ok ()) : (x.ensuring last).result = x.result := by
  unfold ensuring
  rw [h]

theorem result_ensuring_eq_ok_iff :
    (x.ensuring last).result = .ok a ↔ last.result = .ok () ∧ x.result = .ok a := by
  unfold ensuring
  split
  · next h => simp [h]
  · next h => simp [h]

theorem events_ensuring (x : Outcome α) (last : Outcome Unit) :
    (x.ensuring last).events = x.events ++ last.events := by
  unfold ensuring
  split <;> rfl

end Outcome

end Dockerfile
