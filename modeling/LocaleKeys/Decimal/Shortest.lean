/-
The shortest decimal text of a binary number.

Of all decimals that read back as the number, the one with the fewest digits is
written, and of several such the nearest to the number. For one digit, two
digits and so on, the two decimals around the number are tried; the first count
of digits for which one of them reads back is the right one.
-/
import LocaleKeys.Decimal.Binary

set_option autoImplicit false

namespace LocaleKeys.Decimal

/-- The decimal `digits · 10 ^ exponent`. -/
structure Digits where
  digits : Nat
  exponent : Int
deriving Repr, DecidableEq, Inhabited

namespace Binary

/-- The quotient `a / b` is compared with `c / d`. -/
def quotientLt (a b c d : Nat) : Bool := a * d < c * b

/-- `digits · 10 ^ k` as a quotient. -/
def decimalQuotient (digits : Nat) (k : Int) : Nat × Nat :=
  if 0 ≤ k then (digits * Nat.pow 10 k.toNat, 1) else (digits, Nat.pow 10 (-k).toNat)

/-- The decimal `digits · 10 ^ k` reads back as `b`: it lies between the
middles to both neighbours, and on a middle only if that is rounded to `b`. -/
def readsBackFrom (b : Binary) (digits : Nat) (k : Int) : Bool :=
  let (n, d) := decimalQuotient digits k
  -- In units of a quarter of the last place, the number is four times its
  -- mantissa.
  let unit : Nat × Nat := (⟨1, b.exponent - 2⟩ : Binary).quotient
  let below := if b.mantissa == Nat.pow 2 52 && -1074 < b.exponent then 1 else 2
  let low := (4 * b.mantissa - below) * unit.1
  let high := (4 * b.mantissa + 2) * unit.1
  let even := b.mantissa % 2 == 0
  (quotientLt low unit.2 n d || (even && low * d == n * unit.2))
    && (quotientLt n d high unit.2 || (even && n * unit.2 == high * d))

/-- The exponent of the first decimal digit of `num / den`, searched for from
`guess` on. -/
def leadingExponent (num den : Nat) : (steps : Nat) → Int → Int
  | 0, guess => guess
  | steps + 1, guess =>
    let (n, d) := decimalQuotient 1 guess
    if num * d < n * den then leadingExponent num den steps (guess - 1) else guess

/-- Of the decimals with `count` digits, the nearest that reads back as `b`. -/
def nearestWith? (b : Binary) (lead : Int) (count : Nat) : Option Digits :=
  let k : Int := lead - count + 1
  let (num, den) := b.quotient
  let (n, d) := decimalQuotient 1 k
  let below := (num * d) / (den * n)
  let rest := (num * d) % (den * n)
  let candidates :=
    if 2 * rest < den * n || (2 * rest == den * n && below % 2 == 0) then [below, below + 1]
    else [below + 1, below]
  (candidates.find? (b.readsBackFrom · k)).map (⟨·, k⟩)

/-- The shortest decimal that reads back as `b`. Seventeen digits always
suffice. -/
def shortest (b : Binary) : Digits :=
  let (num, den) := b.quotient
  let guess : Int := (((num.log2 : Int) - (den.log2 : Int) + 1) * 30103) / 100000 + 1
  let lead := leadingExponent num den 4 guess
  ((List.range 17).findSome? fun i => b.nearestWith? lead (i + 1)).getD ⟨0, 0⟩

end Binary

/-! ## Writing decimals

The digits and the exponent are known by now, and what is left is where the
point goes. -/

/-- How decimals are laid out. -/
structure Layout where
  /-- Numbers whose first digit has an exponent from here on are written out. -/
  leastWrittenOut : Int
  /-- Numbers whose first digit has an exponent below this one are written out. -/
  firstScientific : Int

/-- Small numbers are written out down to five places behind the point, and
great ones up to sixteen in front of it. -/
def Layout.standard : Layout := ⟨-5, 16⟩

/-- The digits of a number without zeros at its end, and how many of those
there were. -/
def withoutTrailingZeros : (steps : Nat) → Nat → Nat × Nat
  | 0, n => (n, 0)
  | steps + 1, n =>
    if n != 0 && n % 10 == 0 then
      let (m, k) := withoutTrailingZeros steps (n / 10)
      (m, k + 1)
    else (n, 0)

/-- The text of a decimal. A number that is written out always has a point. -/
def Digits.render (d : Digits) (layout : Layout) : String :=
  let (n, zeros) := withoutTrailingZeros 20 d.digits
  let exponent := d.exponent + zeros
  let digits := (Nat.toDigits 10 n)
  let lead : Int := exponent + digits.length - 1
  if n == 0 then "0.0"
  else if lead < layout.leastWrittenOut || layout.firstScientific ≤ lead then
    let fraction := if digits.length ≤ 1 then [] else '.' :: digits.drop 1
    let sign := if lead < 0 then "-" else "+"
    String.ofList (digits.take 1 ++ fraction) ++ "e" ++ sign ++ toString lead.natAbs
  else if 0 ≤ exponent then
    String.ofList (digits ++ List.replicate exponent.toNat '0') ++ ".0"
  else if 0 ≤ lead then
    let whole := (lead + 1).toNat
    String.ofList (digits.take whole ++ '.' :: digits.drop whole)
  else
    "0." ++ String.ofList (List.replicate (-lead - 1).toNat '0' ++ digits)

/-- The text of a binary number: its shortest decimal in the standard layout. -/
def Binary.render (b : Binary) : String :=
  if b.mantissa == 0 then "0.0" else b.shortest.render Layout.standard

end LocaleKeys.Decimal
