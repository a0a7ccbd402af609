import RobotSoccer.Number.Decimal

/-!
# Number texts

Two ways to write a double: `numberText`, the fewest digits that read back, positional or with
an exponent, as the wire format has it; and `fixedText`, a fixed count of decimal places of the
exact value, as the texts for people have it. Both give characters.
-/

namespace RobotSoccer.Number

/-- The decimal digits of a natural number. -/
def naturalText (n : Nat) : List Char := Nat.toDigits 10 n

/-- The digits of a number give it back. -/
theorem ofDigitChars_naturalText (n : Nat) : Nat.ofDigitChars 10 (naturalText n) 0 = n :=
  Nat.ofDigitChars_toDigits (by decide) (by decide)

/-- Different numbers have different digits. -/
theorem naturalText_injective {m n : Nat} (h : naturalText m = naturalText n) : m = n := by
  rw [← ofDigitChars_naturalText m, h, ofDigitChars_naturalText]

/-- The decimal digits of an integer, with a minus sign before a negative one. -/
def integerText (n : Int) : List Char :=
  if n < 0 then '-' :: naturalText n.natAbs else naturalText n.natAbs

/-- Where positional notation ends, counted by the place of the decimal point in the digits:
`0.00001` has the point four places before its digit and `1000000000000000.0` sixteen after
its start. -/
structure PositionalRange where
  /-- The lowest place of the point that is still written positionally. -/
  lowest : Int
  /-- The highest place of the point that is still written positionally. -/
  highest : Int

/-- The wire format writes magnitudes from `1e-5` to just under `1e16` positionally. -/
def wireRange : PositionalRange := ⟨-4, 16⟩

/-- Digits with the point after the first `point` of them, zeros filling both sides; at least
one digit stands on each side of the point. -/
def positional (digits : List Char) (point : Int) : List Char :=
  if point ≤ 0 then '0' :: '.' :: (List.replicate (-point).toNat '0' ++ digits)
  else
    let n := point.toNat
    if digits.length ≤ n then digits ++ List.replicate (n - digits.length) '0' ++ ['.', '0']
    else digits.take n ++ '.' :: digits.drop n

/-- Digits with the point after the first one, unless it stands alone, and an exponent whose
sign is always written. -/
def scientific (digits : List Char) (point : Int) : List Char :=
  let power := point - 1
  let mantissa := match digits with
    | [] => []
    | [d] => [d]
    | d :: rest => d :: '.' :: rest
  mantissa ++ 'e' :: (if power < 0 then '-' else '+') :: naturalText power.natAbs

/-- A decimal in the positional or the scientific form, as the place of its point asks. -/
def decimalText (d : Decimal) : List Char :=
  let digits := naturalText d.digits
  let point := digits.length + d.exponent
  if d.digits = 0 then positional digits 1
  else if wireRange.lowest ≤ point ∧ point ≤ wireRange.highest then positional digits point
  else scientific digits point

/-- The text of a double: the fewest digits that read back as it, zero with its sign. -/
def numberText (x : Float) : List Char :=
  match Binary64.shape x with
  | .nan => ['N', 'a', 'N']
  | .infinite negative => (if negative then ['-'] else []) ++ ['i', 'n', 'f']
  | .finite negative m q =>
    (if negative then ['-'] else []) ++ decimalText (Decimal.shortest m q)

/-- A natural number with its last `places` digits behind the point. -/
def pointBefore (places : Nat) (n : Nat) : List Char :=
  let fraction := naturalText (n % Decimal.tenTo places)
  naturalText (n / Decimal.tenTo places) ++
    '.' :: (List.replicate (places - fraction.length) '0' ++ fraction)

/-- A double rounded from its exact value to a count of decimal places, ties to even, never
with an exponent. A negative sign stays even when every digit is zero. -/
def fixedText (places : Nat) (x : Float) : List Char :=
  match Binary64.shape x with
  | .nan => ['N', 'a', 'N']
  | .infinite negative => (if negative then ['-'] else []) ++ ['i', 'n', 'f']
  | .finite negative m q =>
    let ratio := Decimal.ratioOfScaled m q
    (if negative then ['-'] else []) ++
      pointBefore places (Rounding.quotient (ratio.1 * Decimal.tenTo places) ratio.2)

/-- Lengths and angles are shown to people with three decimal places. -/
def shownText (x : Float) : List Char := fixedText 3 x

end RobotSoccer.Number
