import PicoSentry.Foundation.Number

namespace PicoSentry.Foundation.Double

def powerOfTwo : Int → ℚ
  | .ofNat n => (2 ^ n : Nat)
  | .negSucc n => mkRat 1 (2 ^ (n + 1))

-- The exponent of the leading bit: the two logarithms may be off by one.
def exponent (x : ℚ) : Int :=
  let e := (x.num.natAbs.log2 : Int) - x.den.log2
  if |x| < powerOfTwo e then e - 1 else e

def ulp (x : ℚ) : ℚ := powerOfTwo (max (exponent x - 52) (-1074))

-- The double nearest to x, of two the even one, where x is below the overflow.
def round (x : ℚ) : ℚ := Number.roundHalfEven (x / ulp x) * ulp x

example : round (1 / 10 + 2 / 10) ≠ round (round (1 / 10) + round (2 / 10)) := by decide +kernel

end PicoSentry.Foundation.Double
