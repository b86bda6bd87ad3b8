import Mathlib.Data.Rat.Floor
import Mathlib.Algebra.Order.Round
import ProxyFleet.IntegerCasts

/-!
# The floating-point operations of the evidence model

Scores are computed by a fixed repertoire of `f64` operations. Definitions take
the repertoire as a parameter: a law proved for every instance does not depend on
rounding, and the rational instance makes concrete runs computable.
-/
namespace ProxyFleet

/-- The `f64` operations that the source applies to evidence and scores. -/
class F64 (F : Type) where
  ofRat : ℚ → F
  add : F → F → F
  mul : F → F → F
  div : F → F → F
  lt : F → F → Bool
  le : F → F → Bool
  powf : F → F → F
  /-- `f64::round` followed by `as i64`, which saturates. -/
  round : F → ℤ

namespace F64

variable {F : Type} [F64 F]

def ofInt (n : ℤ) : F := ofRat n

def max (a b : F) : F := if lt a b then b else a

def min (a b : F) : F := if lt b a then b else a

def clamp (x low high : F) : F := if lt x low then low else if lt high x then high else x

end F64

/-- Exact rational arithmetic. A power is exact at every whole exponent. -/
instance : F64 ℚ where
  ofRat q := q
  add a b := a + b
  mul a b := a * b
  div a b := a / b
  lt a b := a < b
  le a b := a ≤ b
  powf a b := a ^ ⌊b⌋
  round a := saturateI64 (if 0 ≤ a then ⌊a + 1 / 2⌋ else ⌈a - 1 / 2⌉)

end ProxyFleet
