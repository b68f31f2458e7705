/-!
Doubles as exact numbers, and as decimals: rounded to a number of places, or the shortest that read
back.
-/

namespace Dockerfile.Decimal

/-! ### Doubles as exact numbers

* `Binary` — a finite double as `± mantissa · 2 ^ exponent`.
* `roundDiv` — a quotient rounded to the nearest whole number, a half to the even neighbour.
* `Binary.ofQuotient` — a quotient by a power of two, to the 53 binary digits of a mantissa.
* `Binary.scaled` — the value with a number of decimal places, rounded from its exact value.
-/

/-- A finite double, taken apart. -/
structure Binary where
  negative : Bool
  mantissa : Nat
  exponent : Int
  deriving DecidableEq, Repr

/-- The parts of a double; an infinity and a NaN have none. -/
def Binary.ofFloat? (x : Float) : Option Binary :=
  let bits := x.toBits.toNat
  let negative := Nat.pow 2 63 ≤ bits
  let biased : Nat := bits / Nat.pow 2 52 % 2048
  let fraction : Nat := bits % Nat.pow 2 52
  if biased = 2047 then none
  else if biased = 0 then some ⟨negative, fraction, -1074⟩
  else some ⟨negative, fraction + Nat.pow 2 52, (biased : Int) - 1075⟩

/-- The whole number nearest to `num / den`; of two equally near ones, the even. -/
def roundDiv (num den : Nat) : Nat :=
  let q := num / den
  let twice := 2 * (num % den)
  if twice < den then q
  else if den < twice then q + 1
  else if q % 2 = 0 then q else q + 1

/-- The double nearest to `n / 2 ^ k`, however large it is; of two equally near ones, the one with
an even mantissa. -/
def Binary.ofQuotient (n : Int) (k : Nat) : Binary :=
  let surplus := n.natAbs.log2 - 52
  ⟨n < 0, roundDiv n.natAbs (Nat.pow 2 surplus), surplus - k⟩

/-- The magnitude is below `2 ^ 1024`, the least that is too large for a double. -/
def Binary.isFinite (b : Binary) : Bool :=
  (b.mantissa * Nat.pow 2 b.exponent.toNat).log2 < 1024

/-- The magnitude as a fraction of two whole numbers. -/
def Binary.fraction (b : Binary) : Nat × Nat :=
  (b.mantissa * Nat.pow 2 b.exponent.toNat, Nat.pow 2 (-b.exponent).toNat)

/-- The magnitude times `10 ^ places`, rounded. -/
def Binary.scaled (b : Binary) (places : Nat) : Nat :=
  let (num, den) := b.fraction
  roundDiv (num * Nat.pow 10 places) den

/-! ### A fixed number of decimals

A double written with a fixed number of decimal places, and the double nearest to such a decimal.
Both round the exact value of the double, a half to the even neighbour, and keep the sign of a
negative value that rounds to zero.
-/

/-- `n` in decimal, with zeros in front up to `width` digits. -/
def padded (width n : Nat) : String :=
  let digits := toString n
  String.ofList (List.replicate (width - digits.length) '0') ++ digits

def signText (negative : Bool) : String :=
  if negative then "-" else ""

/-- What is written for a double that is not finite. -/
def nonFinite (x : Float) : String :=
  if x.isNaN then "nan" else if x < 0 then "-inf" else "inf"

/-- The double with exactly `places` decimals. -/
def fixed (places : Nat) (x : Float) : String :=
  match Binary.ofFloat? x with
  | none => nonFinite x
  | some b =>
    let n := b.scaled places
    let whole := signText b.negative ++ toString (n / Nat.pow 10 places)
    if places = 0 then whole else whole ++ "." ++ padded places (n % Nat.pow 10 places)

/-- The double nearest to the value rounded to `places` decimals. -/
def Binary.rounded (b : Binary) (places : Nat) : Float :=
  let y := Float.ofScientific (b.scaled places) true places
  if b.negative then -y else y

/-- A double rounded to `places` decimals; an infinity and a NaN stay. -/
def roundTo (places : Nat) (x : Float) : Float :=
  match Binary.ofFloat? x with
  | none => x
  | some b => b.rounded places

/-! ### The shortest decimal

A double stands for every real nearer to it than to its neighbours (the ends belong to it when its
mantissa is even). `shortest` looks for a decimal of one digit in that interval, then of two, and
so on; on each grid the two decimals around the value are the only ones to test. `shortestText`
writes it: positionally from `10 ^ -4` up to `10 ^ 16`, with an exponent of at least two digits
otherwise, and with `.0` after a whole number.
-/

/-- A set of reals around a value: `low`, `value` and `high` over a common denominator. -/
structure Interval where
  low : Nat
  value : Nat
  high : Nat
  den : Nat
  closed : Bool

/-- The reals that round to a positive double. Below a power of two the neighbour is only half as
far away. -/
def Binary.interval (b : Binary) : Interval :=
  let m := b.mantissa
  let below := if m = Nat.pow 2 52 ∧ -1074 < b.exponent then 1 else 2
  let unit := Nat.pow 2 (b.exponent - 2).toNat
  ⟨(4 * m - below) * unit, 4 * m * unit, (4 * m + 2) * unit, Nat.pow 2 (2 - b.exponent).toNat,
    m % 2 = 0⟩

/-- `d · 10 ^ k` lies in the interval. -/
def Interval.holds (i : Interval) (d : Nat) (k : Int) : Bool :=
  let point := d * Nat.pow 10 k.toNat * i.den
  let scale := Nat.pow 10 (-k).toNat
  if i.closed then i.low * scale ≤ point && point ≤ i.high * scale
  else i.low * scale < point && point < i.high * scale

/-- The number of places before the point in scientific terms: the `e` with
`10 ^ (e - 1) ≤ value < 10 ^ e`. -/
def Interval.magnitude (i : Interval) : Int :=
  let whole := i.value / i.den
  if whole ≠ 0 then (toString whole).length
  else
    let z := ((List.range 400).find? fun z => i.den ≤ i.value * Nat.pow 10 z).getD 0
    1 - (z : Int)

/-- Of the two decimals `d · 10 ^ k` and `(d + 1) · 10 ^ k` around the value, the one in the
interval; of two in it the nearer, and of two equally near the even. -/
def Interval.onGrid? (i : Interval) (k : Int) : Option Nat :=
  let num := i.value * Nat.pow 10 (-k).toNat
  let den := i.den * Nat.pow 10 k.toNat
  let d := num / den
  match i.holds d k, i.holds (d + 1) k with
  | true, true => some (roundDiv num den)
  | true, false => some d
  | false, true => some (d + 1)
  | false, false => none

/-- The digits and the exponent of the shortest decimal in the interval. Seventeen digits always
suffice. -/
def Interval.shortest (i : Interval) : Nat × Int :=
  let e := i.magnitude
  ((List.range 17).findSome? fun n =>
    let k := e - (n + 1 : Nat)
    (i.onGrid? k).map fun d => (d, k)).getD (0, 0)

/-- The digits `ds` with the point after the first `point` of them. -/
def layout (ds : List Char) (point : Int) : List Char :=
  if -4 < point ∧ point ≤ 16 then
    if point ≤ 0 then ['0', '.'] ++ List.replicate (-point).toNat '0' ++ ds
    else
      let p := point.toNat
      if ds.length ≤ p then ds ++ List.replicate (p - ds.length) '0' ++ ['.', '0']
      else ds.take p ++ '.' :: ds.drop p
  else
    let e := point - 1
    let tail := if ds.length ≤ 1 then [] else '.' :: ds.drop 1
    let sign := if e < 0 then '-' else '+'
    ds.take 1 ++ tail ++ 'e' :: sign :: (padded 2 e.natAbs).toList

/-- The shortest text that reads back as the double. -/
def shortestText (x : Float) : String :=
  match Binary.ofFloat? x with
  | none => nonFinite x
  | some b =>
    if b.mantissa = 0 then signText b.negative ++ "0.0"
    else
      let (d, k) := b.interval.shortest
      let all := (toString d).toList
      let ds := (all.reverse.dropWhile (· == '0')).reverse
      signText b.negative ++ String.ofList (layout ds (k + all.length))

end Dockerfile.Decimal
