/-
Numbers with a binary fraction of fixed length.

A number is `mantissa · 2 ^ exponent` with a mantissa below `2 ^ 53` and an
exponent of at least `-1074`; these are the finite values of the 64-bit format.
Every operation here computes the exact quotient and then rounds it once, to
the nearest such number, and from the middle between two of them to the one
with the even mantissa.
-/

set_option autoImplicit false

namespace LocaleKeys.Decimal

/-- A number `mantissa · 2 ^ exponent`, which is zero if the mantissa is. -/
structure Binary where
  mantissa : Nat
  exponent : Int
deriving Repr, DecidableEq, Inhabited

namespace Binary

/-- Zero. -/
def zero : Binary := ⟨0, 0⟩

/-- The quotient of two natural numbers, rounded to the nearest, and from the
middle to the even. -/
def roundedQuotient (num den : Nat) : Nat :=
  let q := num / den
  let r := num % den
  if 2 * r < den then q
  else if den < 2 * r then q + 1
  else if q % 2 == 0 then q else q + 1

/-- The quotient of `num` and `den · 2 ^ exponent`, rounded. -/
def scaledQuotient (num den : Nat) (exponent : Int) : Nat :=
  if 0 ≤ exponent then roundedQuotient num (den * Nat.pow 2 exponent.toNat)
  else roundedQuotient (num * Nat.pow 2 (-exponent).toNat) den

/-- The number nearest to `num / den`, or none if that is beyond all of them.
The exponent is the one that leaves 53 bits to the mantissa, and not below the
least. -/
def ofQuotient? (num den : Nat) : Option Binary :=
  if num == 0 then some zero
  else
    let estimate : Int := (num.log2 : Int) - (den.log2 : Int) - 52
    let tooSmall := scaledQuotient num den estimate < Nat.pow 2 52
    let exponent := max (if tooSmall then estimate - 1 else estimate) (-1074)
    let mantissa := scaledQuotient num den exponent
    let rounded : Binary :=
      if mantissa == Nat.pow 2 53 then ⟨Nat.pow 2 52, exponent + 1⟩ else ⟨mantissa, exponent⟩
    if rounded.mantissa == 0 then some zero
    else if 971 < rounded.exponent then none
    else some rounded

/-- The number as a quotient of natural numbers. -/
def quotient (b : Binary) : Nat × Nat :=
  if 0 ≤ b.exponent then (b.mantissa * Nat.pow 2 b.exponent.toNat, 1)
  else (b.mantissa, Nat.pow 2 (-b.exponent).toNat)

/-- A power of ten, rounded. -/
def powerOfTen (k : Nat) : Binary := (ofQuotient? (Nat.pow 10 k) 1).getD zero

/-- The product, rounded, or none if it is too great. -/
def mul? (a b : Binary) : Option Binary :=
  let (an, ad) := a.quotient
  let (bn, bd) := b.quotient
  ofQuotient? (an * bn) (ad * bd)

/-- The quotient, rounded. -/
def div (a b : Binary) : Binary :=
  let (an, ad) := a.quotient
  let (bn, bd) := b.quotient
  (ofQuotient? (an * bd) (ad * bn)).getD zero

/-- How far a power of ten may go in one step of scaling. -/
def greatestStep : Nat := 308

/-- Divides by ten to the power of `k`, in steps that each round. -/
def scaledDown (b : Binary) : (steps : Nat) → (k : Nat) → Binary
  | 0, _ => zero
  | steps + 1, k =>
    if b.mantissa == 0 then zero
    else if k ≤ greatestStep then b.div (powerOfTen k)
    else (b.div (powerOfTen greatestStep)).scaledDown steps (k - greatestStep)

/-- The number that the digits `digits` denote with the decimal exponent `k`:
the digits are rounded first and scaled then. There is none if it is too
great. -/
def ofDecimal? (digits : Nat) (k : Int) : Option Binary :=
  let first := (ofQuotient? digits 1).getD zero
  if 0 ≤ k then
    if k.toNat ≤ greatestStep then first.mul? (powerOfTen k.toNat)
    else if first.mantissa == 0 then some zero
    else none
  else some (first.scaledDown ((-k).toNat / greatestStep + 2) (-k).toNat)

end Binary

end LocaleKeys.Decimal
