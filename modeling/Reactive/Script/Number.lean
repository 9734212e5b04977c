/-
  Numbers of a script and their shortest text.

  A numeric literal denotes the binary floating-point value with 53 bits of precision
  that is nearest to what is written, ties to the even neighbour. Its text is made
  from the fewest decimal digits that still read back as the same value, laid out in
  the shortest of several notations.

  All arithmetic is exact, on natural numbers.
-/
import Reactive.Script.Tree

namespace Reactive.Script.Number

/-! ## Rounding to 53 bits -/

/-- The exponent of the smallest positive value. -/
def minExponent : Int := -1074

/-- The largest exponent of a 53-bit mantissa. -/
def maxExponent : Int := 971

/-- `num / den * 2 ^ (-e)` as a quotient of naturals. -/
def scaled (num den : Nat) (e : Int) : Nat × Nat :=
  if e ≤ 0 then (num * Nat.pow 2 (-e).toNat, den) else (num, den * Nat.pow 2 e.toNat)

/-- `num / den` rounded to a natural number, a half to the even neighbour. -/
def roundEven (num den : Nat) : Nat :=
  let q := num / den
  let r := num % den
  if 2 * r < den then q
  else if 2 * r > den then q + 1
  else if q % 2 = 0 then q else q + 1

/-- The value nearest to `num / den`. -/
def ofRatio (num den : Nat) : Number :=
  if num = 0 then .finite 0 0
  else
    -- The quotient has 53 or 54 bits before the adjustment.
    let guess : Int := (num.log2 : Int) - (den.log2 : Int) - 53
    let (n₀, d₀) := scaled num den guess
    let e := if n₀ / d₀ < Nat.pow 2 53 then guess else guess + 1
    let e := max e minExponent
    let (n, d) := scaled num den e
    let m := roundEven n d
    let (m, e) := if m = Nat.pow 2 53 then (Nat.pow 2 52, e + 1) else (m, e)
    if e > maxExponent then .infinite else .finite m e

/-- The value of `digits * 10 ^ exponent`. Powers far outside the range are not computed. -/
def ofDecimal (digits : Nat) (exponent : Int) : Number :=
  if digits = 0 then .finite 0 0
  else
    let magnitude : Int := (digits.log2 : Int) * 3 / 10 + exponent
    if magnitude > 400 then .infinite
    else if magnitude < -500 then .finite 0 0
    else if exponent ≥ 0 then ofRatio (digits * Nat.pow 10 exponent.toNat) 1
    else ofRatio digits (Nat.pow 10 (-exponent).toNat)

/-- The value of a natural number. -/
def ofNat (n : Nat) : Number := ofRatio n 1

/-- Digits in base `2 ^ bits`, most significant first. Up to `exact` digits the whole number is
rounded once; beyond that each step of the positional sum is rounded. -/
def ofBits (bits exact : Nat) (digits : List Nat) : Number :=
  let base := Nat.pow 2 bits
  if digits.length ≤ exact then ofNat (digits.foldl (fun acc d => acc * base + d) 0)
  else digits.foldl (fun acc d =>
    match acc with
    | .infinite => .infinite
    | .finite m e =>
      if e ≥ 0 then ofNat (m * Nat.pow 2 e.toNat * base + d)
      else ofRatio (m * base + d * Nat.pow 2 (-e).toNat) (Nat.pow 2 (-e).toNat))
    (.finite 0 0)

/-! ## The fewest digits -/

/-- A fraction of naturals. -/
structure Fraction where
  num : Nat
  den : Nat

/-- `m * 2 ^ e` as a fraction. -/
def Fraction.ofPower (m : Nat) (e : Int) : Fraction :=
  if e ≥ 0 then ⟨m * Nat.pow 2 e.toNat, 1⟩ else ⟨m, Nat.pow 2 (-e).toNat⟩

/-- `n * 10 ^ p` as a fraction. -/
def Fraction.ofDecimal (n : Nat) (p : Int) : Fraction :=
  if p ≥ 0 then ⟨n * Nat.pow 10 p.toNat, 1⟩ else ⟨n, Nat.pow 10 (-p).toNat⟩

/-- `a < b`. -/
def Fraction.lt (a b : Fraction) : Bool := a.num * b.den < b.num * a.den

/-- `a ≤ b`. -/
def Fraction.le (a b : Fraction) : Bool := a.num * b.den ≤ b.num * a.den

/-- The largest `n` with `n * 10 ^ p ≤ a`. -/
def Fraction.floorAt (a : Fraction) (p : Int) : Nat :=
  if p ≥ 0 then a.num / (a.den * Nat.pow 10 p.toNat) else a.num * Nat.pow 10 (-p).toNat / a.den

/-- `|a - b|`. -/
def Fraction.distance (a b : Fraction) : Fraction :=
  let x := a.num * b.den
  let y := b.num * a.den
  ⟨if x ≤ y then y - x else x - y, a.den * b.den⟩

/-- The reals that read back as `m * 2 ^ e`, as lower end, upper end and whether the ends count. -/
def interval (m : Nat) (e : Int) : Fraction × Fraction × Bool :=
  let high := Fraction.ofPower (2 * m + 1) (e - 1)
  let low :=
    if m = Nat.pow 2 52 ∧ e > minExponent then Fraction.ofPower (4 * m - 1) (e - 2)
    else Fraction.ofPower (2 * m - 1) (e - 1)
  (low, high, m % 2 = 0)

/-- The position of the leading decimal digit: the largest `p` with `10 ^ p ≤ a`, found near an
estimate. -/
def leadingPower (a : Fraction) : Int :=
  let guess : Int := ((a.num.log2 : Int) - (a.den.log2 : Int)) * 30103 / 100000
  let fits (p : Int) : Bool := (Fraction.ofDecimal 1 p).le a
  if fits (guess + 1) then guess + 1
  else if fits guess then guess
  else if fits (guess - 1) then guess - 1
  else guess - 2

/-- Digits and power of ten with the fewest digits, tried from `count` digits on. -/
def shortestFrom (value low high : Fraction) (closed : Bool) (top : Int) : Nat → Nat → Nat × Int
  | 0, _ => (value.floorAt top, top)
  | tries + 1, count =>
    let p := top - (count : Int) + 1
    let lo := value.floorAt p
    let hi := lo + 1
    let inside (n : Nat) : Bool :=
      let x := Fraction.ofDecimal n p
      if closed then low.le x && x.le high else low.lt x && x.lt high
    let far (n : Nat) := (Fraction.ofDecimal n p).distance value
    match decide (lo ≠ 0) && inside lo, inside hi with
    | true, true => (if (far hi).lt (far lo) then hi else lo, p)
    | true, false => (lo, p)
    | false, true => (hi, p)
    | false, false => shortestFrom value low high closed top tries (count + 1)

/-- A last digit zero moved into the power, at most `tries` times. -/
def dropZeros : Nat → Nat × Int → Nat × Int
  | 0, d => d
  | tries + 1, (n, p) => if n ≠ 0 ∧ n % 10 = 0 then dropZeros tries (n / 10, p + 1) else (n, p)

/-- The decimal `digits * 10 ^ power` with the fewest digits that reads back as `m * 2 ^ e`. -/
def shortest (m : Nat) (e : Int) : Nat × Int :=
  let value := Fraction.ofPower m e
  let (low, high, closed) := interval m e
  dropZeros 18 (shortestFrom value low high closed (leadingPower value) 18 1)

/-! ## Notation -/

/-- Digits of a natural number in base ten. -/
def decimalDigits (n : Nat) : List Char := Nat.toDigits 10 n

/-- Digits of an integer in base ten. -/
def integerText (i : Int) : List Char :=
  if i < 0 then '-' :: decimalDigits i.natAbs else decimalDigits i.natAbs

/-- The usual notation of `digits * 10 ^ power`: positional up to 21 places before the point
and six zeros behind it, else with an exponent. -/
def standardText (digits : Nat) (power : Int) : List Char :=
  let ds := decimalDigits digits
  let k : Int := ds.length
  let n := k + power
  if k ≤ n ∧ n ≤ 21 then ds ++ List.replicate (n - k).toNat '0'
  else if 0 < n ∧ n ≤ 21 then ds.take n.toNat ++ '.' :: ds.drop n.toNat
  else if -6 < n ∧ n ≤ 0 then '0' :: '.' :: (List.replicate (-n).toNat '0' ++ ds)
  else
    let e := n - 1
    let tail := 'e' :: (if e < 0 then integerText e else '+' :: integerText e)
    match ds with
    | [d] => d :: tail
    | d :: rest => d :: '.' :: (rest ++ tail)
    | [] => tail

/-- The value is a whole number; then that number. -/
def whole? (m : Nat) (e : Int) : Option Nat :=
  if e ≥ 0 then some (m * Nat.pow 2 e.toNat)
  else if m % Nat.pow 2 (-e).toNat = 0 then some (m / Nat.pow 2 (-e).toNat) else none

/-- The shorter of two texts, the first on a tie. -/
def shorter (kept other : List Char) : List Char :=
  if other.length < kept.length then other else kept

/-- Trailing zeros written as an exponent: `12000` is `12e3`. -/
def zerosToExponent (t : List Char) : List Char :=
  let zeros := (t.reverse.takeWhile (· == '0')).length
  if zeros = 0 then t else t.take (t.length - zeros) ++ 'e' :: decimalDigits zeros

/-- A fraction that starts with `.0` written as an exponent: `.0012` is `12e-4`. -/
def fractionToExponent (t : List Char) : List Char :=
  match t with
  | '.' :: '0' :: _ =>
    let places := t.tail
    let digits := places.dropWhile (· == '0')
    digits ++ 'e' :: '-' :: decimalDigits places.length
  | _ => t

/-- The digits after the point moved into the exponent: `1.2e101` is `12e100`. -/
def pointToExponent (t : List Char) : List Char :=
  let before := t.takeWhile (· != '.')
  match t.dropWhile (· != '.') with
  | '.' :: rest =>
    let places := rest.takeWhile (· != 'e')
    match rest.dropWhile (· != 'e') with
    | 'e' :: exponent =>
      let (negative, digits) := match exponent with
        | '-' :: ds => (true, ds)
        | ds => (false, ds)
      let size : Int := (digits.foldl (fun acc c => acc * 10 + (c.toNat - '0'.toNat)) 0 : Nat)
      let e := (if negative then -size else size) - (places.length : Int)
      before ++ places ++ 'e' :: integerText e
    | _ => t
  | _ => t

/-- The largest number written in hexadecimal; larger ones count as it. -/
def hexLimit : Nat := Nat.pow 2 128 - 1

/-- The text of a finite value. -/
def finiteText (m : Nat) (e : Int) : List Char :=
  match whole? m e with
  | some n =>
    if n < 1000 then decimalDigits n
    else
      let (digits, power) := shortest m e
      -- A positive exponent loses its sign.
      let usual := (standardText digits power).filter (· != '+')
      let hex := '0' :: 'x' :: Nat.toDigits 16 (min n hexLimit)
      if hex.length < usual.length then hex
      else
        let t := if usual.getLast? = some '0' then shorter usual (zerosToExponent usual) else usual
        shorter t (pointToExponent t)
  | none =>
    let (digits, power) := shortest m e
    let usual := (standardText digits power).filter (· != '+')
    let usual := match usual with
      | '0' :: '.' :: rest => '.' :: rest
      | t => t
    let t := shorter usual (fractionToExponent usual)
    -- An exponent may end in a zero too; only a longer text would come of it.
    let t := if t.getLast? = some '0' then shorter t (zerosToExponent t) else t
    shorter t (pointToExponent t)

/-- The text of a number. -/
def text : Number → List Char
  | .finite m e => finiteText m e
  | .infinite => "Infinity".toList

/-- Whether the text is digits only, so that a point after it would belong to it. -/
def plainDigits (t : List Char) : Bool := t.all (·.isDigit)

end Reactive.Script.Number
