import Dockerfile.Build
import Dockerfile.Proofs.Decimal
import Dockerfile.Proofs.Outcome
import Dockerfile.Proofs.Related

/-!
How measuring a build ends, and what the daemon is asked for.

The stream is followed to its end if every piece of it lets the build go on (`Completes`), and the
build fails at the first piece that reports a failure (`FailsWith`). Only in the first case is an
image looked up. Removing it is the last step whatever happens in between, so it is asked for once
if the image is found and never otherwise (`requests_measureImage`). A measurement is that of the
image (`Measurement.IsOf`), or it has the reason of the failure and nothing else
(`result_benchmark_eq_ok_iff`).

A console may refuse what it is to show, and then a build ends in a fault. So what ends well depends
on the console, too: each line of output is printed (`Console.Prints`), and each text on the build is
shown (`Tells`).
-/

namespace Dockerfile.Build

open Outcome

variable {α β : Type} {console : Console} {piece reason : Json} {pieces rest : List Json}
  {broken : Option Fault} {fault : Fault} {failure : Failure} {image : Image} {tag : String}

/-- What is said of a build comes out. -/
def Tells (console : Console) (text : String) : Prop :=
  console.Shows .build [.markup text]

/-! ### Pieces of a stream -/

/-- A piece after which a build goes on: it has output, which is printed, or it mentions neither
output nor an error. -/
inductive Harmless (console : Console) : Json → Prop where
  | output {fields : List (String × Json)} {line : String} :
      fields.lookup "stream" = some (.text line) → console.Prints (Text.strip line) →
        Harmless console (.record fields)
  | quiet {fields : List (String × Json)} :
      fields.lookup "stream" = none → fields.lookup "error" = none →
        Harmless console (.record fields)
  | text {s : String} :
      Text.mentions s "stream" = false → Text.mentions s "error" = false →
        Harmless console (.text s)
  | list {items : List Json} :
      .text "stream" ∉ items → .text "error" ∉ items → Harmless console (.list items)

/-- A piece that ends a build for a reason: it has an error and no output. -/
inductive Reports (reason : Json) : Json → Prop where
  | error {fields : List (String × Json)} :
      fields.lookup "stream" = none → fields.lookup "error" = some reason →
        Reports reason (.record fields)

theorem listed_iff {word : String} {items : List Json} :
    listed word items = true ↔ .text word ∈ items := by
  unfold listed
  rw [List.any_eq_true]
  constructor
  · rintro ⟨item, mem, same⟩
    cases item with
    | text s => exact beq_iff_eq.mp same ▸ mem
    | _ => cases same
  · intro mem
    exact ⟨_, mem, beq_self_eq_true word⟩

theorem readPiece_output {fields : List (String × Json)} {line : String}
    (found : fields.lookup "stream" = some (.text line)) :
    readPiece (.record fields) = .ok (.output (Text.strip line)) := by
  simp [readPiece, found]

/-! ### Following a stream -/

theorem result_follow_of_other (read : readPiece piece = .ok .other) :
    (follow console broken (piece :: rest)).result = (follow console broken rest).result := by
  rw [follow, result_andThen_of_ok read]

theorem result_follow_of_error (read : readPiece piece = .error fault) :
    (follow console broken (piece :: rest)).result = .error fault := by
  rw [follow, result_andThen_of_error read]

theorem result_follow_of_harmless (h : Harmless console piece) :
    (follow console broken (piece :: rest)).result = (follow console broken rest).result := by
  cases h with
  | output found prints =>
    rw [follow, result_andThen_of_ok (readPiece_output found),
      result_andThen_of_ok (result_print prints)]
  | quiet noOutput noError =>
    exact result_follow_of_other (by simp [readPiece, noOutput, noError])
  | text noOutput noError =>
    exact result_follow_of_other (by simp [readPiece, noOutput, noError])
  | list noOutput noError =>
    rw [← listed_iff, Bool.not_eq_true] at noOutput noError
    exact result_follow_of_other (by simp [readPiece, noOutput, noError])

theorem result_follow_of_reports (h : Reports reason piece) :
    (follow console broken (piece :: rest)).result = .ok (some ⟨reason, rest⟩) := by
  cases h with
  | @error fields noOutput found =>
    have read : readPiece (.record fields) = .ok (.failure reason) := by
      simp [readPiece, noOutput, found]
    rw [follow, result_andThen_of_ok read]
    rfl

/-- A piece lets the build go on, or it ends it, or following the stream ends in a fault: the piece
cannot be read, or its output is not printed. -/
theorem harmless_or_reports_or_error (console : Console) (broken : Option Fault) (piece : Json)
    (rest : List Json) :
    Harmless console piece ∨ (∃ reason, Reports reason piece) ∨
      ∃ fault, (follow console broken (piece :: rest)).result = .error fault := by
  cases piece with
  | record fields =>
    cases output : fields.lookup "stream" with
    | none =>
      cases error : fields.lookup "error" with
      | none => exact Or.inl (.quiet output error)
      | some reason => exact Or.inr (Or.inl ⟨reason, .error output error⟩)
    | some value =>
      cases value with
      | text line =>
        cases printed : console.refusal? (Text.strip line) with
        | none => exact Or.inl (.output output printed)
        | some refusal =>
          have refused : (print console (Text.strip line)).result
              = .error (.notShown refusal) := by
            rw [print, printed]
            rfl
          refine Or.inr (Or.inr ⟨.notShown refusal, ?_⟩)
          rw [follow, result_andThen_of_ok (readPiece_output output),
            result_andThen_of_error refused]
      | _ => exact Or.inr (Or.inr ⟨_, result_follow_of_error (by simp [readPiece, output]; rfl)⟩)
  | text s =>
    by_cases mentioned : (Text.mentions s "stream" || Text.mentions s "error") = true
    · exact Or.inr (Or.inr ⟨_, result_follow_of_error (if_pos mentioned)⟩)
    · rw [Bool.not_eq_true, Bool.or_eq_false_iff] at mentioned
      exact Or.inl (.text mentioned.1 mentioned.2)
  | list items =>
    by_cases mentioned : (listed "stream" items || listed "error" items) = true
    · exact Or.inr (Or.inr ⟨_, result_follow_of_error (if_pos mentioned)⟩)
    · rw [Bool.or_eq_true, not_or, listed_iff, listed_iff] at mentioned
      exact Or.inl (.list mentioned.1 mentioned.2)
  | _ => exact Or.inr (Or.inr ⟨_, result_follow_of_error rfl⟩)

/-- Pieces after which the build goes on do not change how a stream ends. -/
theorem result_follow_append {before after : List Json}
    (harmless : ∀ p ∈ before, Harmless console p) :
    (follow console broken (before ++ after)).result = (follow console broken after).result := by
  induction before with
  | nil => rfl
  | cons piece before ih =>
    obtain ⟨here, later⟩ := List.forall_mem_cons.mp harmless
    rw [List.cons_append, result_follow_of_harmless here, ih later]

/-- The stream is followed to its end: nothing breaks it off, and the build goes on after every
piece. -/
structure Stream.Completes (stream : Stream) (console : Console) : Prop where
  intact : stream.broken = none
  harmless : ∀ piece ∈ stream.pieces, Harmless console piece

/-- The build fails at the first piece that is not harmless, and nothing breaks off the stream. -/
structure Stream.FailsWith (stream : Stream) (console : Console) (failure : Failure) : Prop where
  intact : stream.broken = none
  reported : ∃ before piece, stream.pieces = before ++ piece :: failure.log ∧
    (∀ p ∈ before, Harmless console p) ∧ Reports failure.reason piece

theorem of_result_follow_eq_none (h : (follow console broken pieces).result = .ok none) :
    broken = none ∧ ∀ piece ∈ pieces, Harmless console piece := by
  induction pieces with
  | nil =>
    cases broken with
    | none => simp
    | some fault => cases h
  | cons piece rest ih =>
    rcases harmless_or_reports_or_error console broken piece rest with
      harmless | ⟨reason, reports⟩ | ⟨fault, unread⟩
    · rw [result_follow_of_harmless harmless] at h
      obtain ⟨intact, later⟩ := ih h
      exact ⟨intact, List.forall_mem_cons.mpr ⟨harmless, later⟩⟩
    · cases (result_follow_of_reports reports).symm.trans h
    · cases unread.symm.trans h

theorem exists_of_result_follow_eq_some
    (h : (follow console broken pieces).result = .ok (some failure)) :
    ∃ before piece, pieces = before ++ piece :: failure.log ∧
      (∀ p ∈ before, Harmless console p) ∧ Reports failure.reason piece := by
  induction pieces with
  | nil => cases broken <;> cases h
  | cons piece rest ih =>
    rcases harmless_or_reports_or_error console broken piece rest with
      harmless | ⟨reason, reports⟩ | ⟨fault, unread⟩
    · rw [result_follow_of_harmless harmless] at h
      obtain ⟨before, last, rfl, earlier, reports⟩ := ih h
      exact ⟨piece :: before, last, rfl, List.forall_mem_cons.mpr ⟨harmless, earlier⟩, reports⟩
    · rw [result_follow_of_reports reports] at h
      cases h
      exact ⟨[], piece, rfl, by simp, reports⟩
    · cases unread.symm.trans h

theorem result_follow_eq_none_iff {stream : Stream} :
    (follow console stream.broken stream.pieces).result = .ok none ↔ stream.Completes console := by
  constructor
  · intro h
    obtain ⟨intact, harmless⟩ := of_result_follow_eq_none h
    exact ⟨intact, harmless⟩
  · rintro ⟨intact, harmless⟩
    rw [← List.append_nil stream.pieces, result_follow_append harmless, intact]
    rfl

theorem result_follow_eq_some_iff {stream : Stream} (intact : stream.broken = none) :
    (follow console stream.broken stream.pieces).result = .ok (some failure) ↔
      stream.FailsWith console failure := by
  constructor
  · intro h
    exact ⟨intact, exists_of_result_follow_eq_some h⟩
  · rintro ⟨-, before, piece, split, harmless, reports⟩
    rw [split, result_follow_append harmless, result_follow_of_reports reports]

/-! ### Requests -/

def request? : Event → Option Request
  | .requested request => some request
  | _ => none

/-- What a computation asks the daemon for. -/
def requests (x : Outcome α) : List Request :=
  x.events.filterMap request?

theorem requests_bind_of_ok {x : Outcome α} {f : α → Outcome β} {a : α} (h : x.result = .ok a) :
    requests (x >>= f) = requests x ++ requests (f a) := by
  change requests (x.andThen f) = _
  rw [requests, andThen, h]
  exact List.filterMap_append

theorem requests_bind_of_error {x : Outcome α} {f : α → Outcome β}
    (h : x.result = .error fault) : requests (x >>= f) = requests x := by
  change requests (x.andThen f) = _
  rw [requests, andThen, h]
  rfl

theorem requests_ensuring (x : Outcome α) (last : Outcome Unit) :
    requests (x.ensuring last) = requests x ++ requests last := by
  rw [requests, events_ensuring]
  exact List.filterMap_append

/-- Steps that ask for nothing add no request. -/
theorem requests_bind_of_forall {x : Outcome α} {f : α → Outcome β}
    (nothing : ∀ a, requests (f a) = []) : requests (x >>= f) = requests x := by
  cases h : x.result with
  | ok a => rw [requests_bind_of_ok h, nothing, List.append_nil]
  | error fault => exact requests_bind_of_error h

theorem requests_say (channel : Channel) (text : String) :
    requests (say console channel text) = [] := by
  unfold say present
  cases console.render channel [.markup text] <;> rfl

theorem requests_print (line : String) : requests (print console line) = [] := by
  unfold print
  cases console.refusal? line <;> rfl

theorem requests_raiseIf (raised : Option Fault) : requests (raiseIf raised) = [] := by
  cases raised <;> rfl

theorem requests_follow (console : Console) (broken : Option Fault) (pieces : List Json) :
    requests (follow console broken pieces) = [] := by
  induction pieces with
  | nil => cases broken <;> rfl
  | cons piece rest ih =>
    refine requests_bind_of_forall fun read => ?_
    cases read with
    | output line => exact (requests_bind_of_forall fun _ => ih).trans (requests_print line)
    | failure reason => rfl
    | other => exact ih

theorem requests_measures (console : Console) (image : Image) (seconds : Float) (tag : String) :
    requests (measures console image seconds tag) = [] := by
  refine requests_bind_of_forall fun _ => requests_bind_of_forall fun _ => ?_
  exact (requests_bind_of_forall fun _ => rfl).trans (requests_say _ _)

theorem requests_reportFailure (console : Console) (broken : Option Fault) (failure : Failure)
    (tag : String) : requests (reportFailure console broken failure tag) = [] := by
  refine (requests_bind_of_forall fun _ => ?_).trans (requests_say _ _)
  refine (requests_bind_of_forall fun _ => ?_).trans (requests_raiseIf broken)
  exact (requests_bind_of_forall fun _ => rfl).trans (requests_say _ _)

/-- However its removal ends, an image is to be removed once. -/
theorem requests_cleanUp (console : Console) (removal : Removal) (image : Image) (tag : String) :
    requests (cleanUp console removal image tag) = [.remove image.id] := by
  refine (requests_bind_of_ok (result_ask _)).trans ?_
  cases removal with
  | done => exact congrArg _ (requests_say _ _)
  | refused reason => exact congrArg _ (requests_say _ _)
  | failed fault => rfl

/-- An image that is found is to be removed once, whatever else happens. -/
theorem requests_measureImage (console : Console) (script : Script) (clock : Clock)
    (start : Float) (tag : String) :
    requests (measureImage console script clock start tag)
      = .find tag :: script.image.toOption.toList.map fun image => .remove image.id := by
  rw [measureImage, requests_bind_of_ok (result_ask _)]
  cases found : script.image with
  | error fault =>
    rw [requests_bind_of_error rfl]
    rfl
  | ok image =>
    -- the measures may end in a fault, but `ensuring` keeps the events of both its parts
    rw [requests_bind_of_ok rfl, requests_bind_of_forall fun _ => rfl, requests_ensuring,
      requests_measures, requests_cleanUp]
    rfl

/-! ### Measurements -/

/-- The double `x` is a number of bytes in megabytes. The quotient by `2 ^ 20` is taken to the 53
binary digits of a mantissa and has to be below `2 ^ 1024`; `x` is that quotient in hundredths. -/
def InMegabytes (size : Int) (x : Float) : Prop :=
  ∃ surplus mantissa : Nat, surplus = size.natAbs.log2 - 52 ∧
    Decimal.Nearest size.natAbs (2 ^ surplus) mantissa ∧
    (mantissa * 2 ^ (surplus - 20)).log2 < 1024 ∧
    Decimal.Binary.ToHundredths ⟨size < 0, mantissa, surplus - 20⟩ x

theorem megabytes_eq_ok_iff {size : Int} {x : Float} :
    megabytes size = .ok x ↔ InMegabytes size x := by
  have exponent (surplus : Nat) : ((surplus : Int) - (20 : Nat)).toNat = surplus - 20 :=
    Int.toNat_sub surplus 20
  have finite_iff : (Decimal.Binary.ofQuotient size 20).isFinite = true ↔
      (Decimal.roundDiv size.natAbs (2 ^ (size.natAbs.log2 - 52)) *
        2 ^ (size.natAbs.log2 - 52 - 20)).log2 < 1024 := by
    rw [Decimal.Binary.isFinite, decide_eq_true_iff, ← exponent]
    rfl
  constructor
  · intro h
    simp only [megabytes] at h
    split_ifs at h with finite
    exact ⟨_, _, rfl, (Decimal.roundDiv_eq_iff (Nat.two_pow_pos _)).mp rfl, finite_iff.mp finite,
      Decimal.Binary.rounded_eq_iff.mp (Except.ok.inj h)⟩
  · rintro ⟨_, mantissa, rfl, nearest, small, hundredths⟩
    rw [← Decimal.roundDiv_eq_iff (Nat.two_pow_pos _)] at nearest
    subst nearest
    rw [megabytes, if_pos (finite_iff.mpr small)]
    exact congrArg _ (Decimal.Binary.rounded_eq_iff.mpr hundredths)

/-- The measurement is that of an image whose build took the time from `start` to `stop`. -/
structure Measurement.IsOf (m : Measurement) (image : Image) (tag : String) (start stop : Float) :
    Prop where
  tag : m.tag = tag
  size : ∃ size, image.size = .ok size ∧ InMegabytes size m.sizeMb
  layers : image.layers = .ok m.layers
  seconds : Decimal.RoundsTo (stop - start) m.seconds
  error : m.error = none

/-- The removal of an image ends, and what is said of it comes out. A refusal is no fault. -/
def Removal.EndsWell (removal : Removal) (console : Console) (tag : String) : Prop :=
  match removal with
  | .done => Tells console (cleanedText tag)
  | .refused reason => Tells console (refusedText tag reason)
  | .failed _ => False

theorem result_cleanUp_eq_ok_iff {removal : Removal} :
    (cleanUp console removal image tag).result = .ok () ↔ removal.EndsWell console tag := by
  cases removal with
  | done => exact result_say_eq_ok_iff
  | refused reason => exact result_say_eq_ok_iff
  | failed fault => exact iff_of_false (by rintro ⟨⟩) id

theorem result_measures_eq_ok_iff {start stop : Float} {m : Measurement} :
    (measures console image (Decimal.roundTo 2 (stop - start)) tag).result = .ok m ↔
      m.IsOf image tag start stop ∧ Tells console (successText tag) := by
  simp only [measures, result_bind_eq_ok_iff, result_ofExcept, result_say_eq_ok_iff, result_pure]
  constructor
  · rintro ⟨sizeMb, sized, layers, counted, -, tells, same⟩
    cases same
    obtain ⟨size, found, converted⟩ := bind_eq_ok_iff.mp sized
    exact ⟨⟨rfl, ⟨size, found, megabytes_eq_ok_iff.mp converted⟩, counted,
      Decimal.roundTo_eq_iff.mp rfl, rfl⟩, tells⟩
  · obtain ⟨tag, sizeMb, layers, seconds, error⟩ := m
    rintro ⟨⟨rfl, ⟨size, found, inMegabytes⟩, counted, rounds, rfl⟩, tells⟩
    have sized : image.size.bind megabytes = .ok sizeMb :=
      bind_eq_ok_iff.mpr ⟨size, found, megabytes_eq_ok_iff.mpr inMegabytes⟩
    obtain rfl := Decimal.roundTo_eq_iff.mpr rounds
    exact ⟨sizeMb, sized, layers, counted, (), tells, rfl⟩

theorem result_reportFailure_eq_ok_iff {m : Measurement} :
    (reportFailure console broken failure tag).result = .ok m ↔
      (broken = none ∧ Tells console (failureText tag) ∧ Tells console (detailsText failure)) ∧
      m = { tag, sizeMb := 0, layers := 0, seconds := 0, error := some failure.message } := by
  simp only [reportFailure, result_bind_eq_ok_iff, result_raiseIf_eq_ok_iff, result_say_eq_ok_iff,
    result_pure]
  constructor
  · rintro ⟨-, announced, -, intact, -, detailed, same⟩
    exact ⟨⟨intact, announced, detailed⟩, (Except.ok.inj same).symm⟩
  · rintro ⟨⟨intact, announced, detailed⟩, rfl⟩
    exact ⟨(), announced, (), intact, (), detailed, rfl⟩

theorem result_measureImage_eq_ok_iff {script : Script} {clock later : Clock} {start : Float}
    {m : Measurement} :
    (measureImage console script clock start tag).result = .ok (m, later) ↔
      ∃ image, script.image = .ok image ∧ Tells console (successText tag) ∧
        script.removal.EndsWell console tag ∧ m.IsOf image tag start clock.now.1 ∧
        later = clock.now.2 := by
  simp only [measureImage, result_bind_eq_ok_iff, result_ofExcept, result_ensuring_eq_ok_iff,
    result_cleanUp_eq_ok_iff, result_measures_eq_ok_iff, result_pure]
  constructor
  · rintro ⟨-, -, image, found, m, ⟨removable, isOf, tells⟩, same⟩
    cases same
    exact ⟨image, found, tells, removable, isOf, rfl⟩
  · rintro ⟨image, found, tells, removable, isOf, rfl⟩
    exact ⟨(), rfl, image, found, m, ⟨removable, isOf, tells⟩, rfl⟩

/-! ### Benchmarks -/

/-- The daemon, with another end to the removal of an image. -/
def Daemon.withRemoval (daemon : Daemon) (removal : Removal) : Daemon :=
  fun tag => { daemon tag with removal }

section Benchmark

variable {daemon : Daemon} {clock later : Clock} {content : String} {m : Measurement}

theorem result_benchmark_eq_ok_iff :
    (benchmark console daemon clock content tag).result = .ok (m, later) ↔
      Tells console (startText tag) ∧
      (((daemon tag).stream.Completes console ∧ ∃ image, (daemon tag).image = .ok image ∧
          Tells console (successText tag) ∧ (daemon tag).removal.EndsWell console tag ∧
          m.IsOf image tag clock.now.1 clock.now.2.now.1 ∧ later = clock.now.2.now.2) ∨
        ∃ failure, (daemon tag).stream.FailsWith console failure ∧
          Tells console (failureText tag) ∧ Tells console (detailsText failure) ∧
          m = { tag, sizeMb := 0, layers := 0, seconds := 0, error := some failure.message } ∧
          later = clock.now.2) := by
  simp only [benchmark, result_bind_eq_ok_iff, result_say_eq_ok_iff]
  constructor
  · rintro ⟨-, told, -, -, ended, followed, finished⟩
    refine ⟨told, ?_⟩
    cases ended with
    | none =>
      exact Or.inl ⟨result_follow_eq_none_iff.mp followed,
        result_measureImage_eq_ok_iff.mp finished⟩
    | some failure =>
      obtain ⟨m, reported, same⟩ := result_bind_eq_ok_iff.mp finished
      obtain ⟨⟨intact, announced, detailed⟩, rfl⟩ := result_reportFailure_eq_ok_iff.mp reported
      cases same
      exact Or.inr ⟨failure, (result_follow_eq_some_iff intact).mp followed, announced, detailed,
        rfl, rfl⟩
  · rintro ⟨told, ⟨completes, measured⟩ | ⟨failure, fails, announced, detailed, rfl, rfl⟩⟩
    · exact ⟨(), told, (), rfl, none, result_follow_eq_none_iff.mpr completes,
        result_measureImage_eq_ok_iff.mpr measured⟩
    · refine ⟨(), told, (), rfl, some failure,
        (result_follow_eq_some_iff fails.intact).mpr fails,
        result_bind_eq_ok_iff.mpr ⟨_, ?_, rfl⟩⟩
      exact result_reportFailure_eq_ok_iff.mpr ⟨⟨fails.intact, announced, detailed⟩, rfl⟩

theorem requests_benchmark_of_completes (told : Tells console (startText tag))
    (h : (daemon tag).stream.Completes console) :
    requests (benchmark console daemon clock content tag) = .build tag content :: .find tag ::
      (daemon tag).image.toOption.toList.map fun image => .remove image.id := by
  have followed := result_follow_eq_none_iff.mpr h
  rw [benchmark, requests_bind_of_ok (result_say told), requests_say,
    requests_bind_of_ok (result_ask _), requests_bind_of_ok followed, requests_follow]
  exact congrArg (.build tag content :: ·) (requests_measureImage ..)

theorem requests_benchmark_of_not_completes (told : Tells console (startText tag))
    (h : ¬ (daemon tag).stream.Completes console) :
    requests (benchmark console daemon clock content tag) = [.build tag content] := by
  rw [benchmark, requests_bind_of_ok (result_say told), requests_say,
    requests_bind_of_ok (result_ask _)]
  cases followed : (follow console (daemon tag).stream.broken (daemon tag).stream.pieces).result with
  | error fault =>
    rw [requests_bind_of_error followed, requests_follow]
    rfl
  | ok ended =>
    rw [requests_bind_of_ok followed, requests_follow]
    cases ended with
    | none => exact absurd (result_follow_eq_none_iff.mp followed) h
    | some failure =>
      exact congrArg (Request.build tag content :: ·)
        ((requests_bind_of_forall fun _ => rfl).trans (requests_reportFailure ..))

theorem requests_benchmark_of_not_tells (h : ¬ Tells console (startText tag)) :
    requests (benchmark console daemon clock content tag) = [] := by
  cases said : (say console .build (startText tag)).result with
  | ok => exact absurd (result_say_eq_ok_iff.mp said) h
  | error fault =>
    rw [benchmark, requests_bind_of_error said]
    exact requests_say _ _

/-- An image is looked up exactly if the build is followed to its end. -/
theorem find_mem_requests_iff :
    .find tag ∈ requests (benchmark console daemon clock content tag) ↔
      Tells console (startText tag) ∧ (daemon tag).stream.Completes console := by
  by_cases told : Tells console (startText tag)
  · by_cases completes : (daemon tag).stream.Completes console
    · simp [requests_benchmark_of_completes told completes, told, completes]
    · simp [requests_benchmark_of_not_completes told completes, completes]
  · simp [requests_benchmark_of_not_tells told, told]

/-- An image that is found is to be removed once, however the rest ends. -/
theorem requests_benchmark_of_found
    (looked : .find tag ∈ requests (benchmark console daemon clock content tag))
    (found : (daemon tag).image = .ok image) :
    requests (benchmark console daemon clock content tag)
      = [.build tag content, .find tag, .remove image.id] := by
  obtain ⟨told, completes⟩ := find_mem_requests_iff.mp looked
  rw [requests_benchmark_of_completes told completes, found]
  rfl

theorem remove_notMem_requests {id : String}
    (h : ¬ ∃ image, .find tag ∈ requests (benchmark console daemon clock content tag) ∧
      (daemon tag).image = .ok image) :
    .remove id ∉ requests (benchmark console daemon clock content tag) := by
  by_cases told : Tells console (startText tag)
  · by_cases completes : (daemon tag).stream.Completes console
    · cases found : (daemon tag).image with
      | ok image => exact absurd ⟨image, find_mem_requests_iff.mpr ⟨told, completes⟩, found⟩ h
      | error fault =>
        rw [requests_benchmark_of_completes told completes, found]
        simp [Except.toOption]
    · simp [requests_benchmark_of_not_completes told completes]
  · simp [requests_benchmark_of_not_tells told]

/-- A refused removal that is told changes nothing else. -/
theorem result_benchmark_refused {reason : String} (cleaned : Tells console (cleanedText tag))
    (refused : Tells console (refusedText tag reason)) :
    (benchmark console (daemon.withRemoval (.refused reason)) clock content tag).result
      = (benchmark console (daemon.withRemoval .done) clock content tag).result := by
  refine result_bind_congr rfl fun _ => result_bind_congr rfl fun _ => ?_
  refine result_bind_congr rfl fun ended => ?_
  cases ended with
  | some failure => rfl
  | none =>
    -- with the removal done or refused, the measures alone decide
    refine result_bind_congr rfl fun _ => result_bind_congr rfl fun image => ?_
    refine result_bind_congr ?_ fun _ => rfl
    have afterRefusal : (cleanUp console (.refused reason) image tag).result = .ok () :=
      result_cleanUp_eq_ok_iff.mpr refused
    have afterRemoval : (cleanUp console .done image tag).result = .ok () :=
      result_cleanUp_eq_ok_iff.mpr cleaned
    exact (result_ensuring_of_ok afterRefusal).trans (result_ensuring_of_ok afterRemoval).symm

end Benchmark

end Dockerfile.Build
