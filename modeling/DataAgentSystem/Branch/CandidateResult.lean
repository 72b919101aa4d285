import DataAgentSystem.Text.Bytes
import Mathlib.Data.Rat.Floor

/-! Branch scores. A score is a `double`; comparing two of them, converting one
from a 64-bit integer and truncating one back are all the program does with it. -/

namespace DataAgentSystem.Branch

open Text

/-- A `double`, up to the sign of zero and the payload of a NaN. -/
inductive Double where
  | nan | negativeInfinity
  | finite (value : ℚ)
  | infinity
  deriving DecidableEq

namespace Double

/-- The comparison `<`, false whenever a NaN takes part. -/
def lt : Double → Double → Bool
  | .nan, _ => false
  | _, .nan => false
  | .negativeInfinity, y => y ≠ .negativeInfinity
  | .finite x, .finite y => x < y
  | .finite _, y => y = .infinity
  | .infinity, _ => false

/-- A natural number rounded to 53 significant bits, ties to even. -/
def roundMantissa (n : ℕ) : ℕ :=
  let unit := 2 ^ (n.log2 - 52)
  let quotient := n / unit
  let rest := n % unit
  if 2 * rest < unit ∨ (2 * rest = unit ∧ quotient % 2 = 0) then quotient * unit
    else (quotient + 1) * unit

def ofInt64 (i : Int64) : Double := .finite (i.toInt.sign * roundMantissa i.toInt.natAbs : ℤ)

/-- Truncation; what has no 64-bit value becomes the least one, as on x86. -/
def toInt64 : Double → Int64
  | .finite q =>
    let i := q.num.tdiv q.den
    if -2 ^ 63 ≤ i ∧ i < 2 ^ 63 then Int64.ofInt i else Int64.minValue
  | _ => Int64.minValue

/-- The number a finite score is. -/
def value : Double → ℚ
  | .finite q => q
  | _ => 0

theorem roundMantissa_of_lt {n : ℕ} (hn : n < 2 ^ 53) : roundMantissa n = n := by
  have hlog : n.log2 - 52 = 0 := by
    rcases Nat.eq_zero_or_pos n with rfl | hpos
    · decide
    · have h := (Nat.log2_lt (Nat.ne_of_gt hpos)).2 hn
      omega
  simp [roundMantissa, hlog, Nat.mod_one]

/-- Integers of at most 53 bits are scores of their own. -/
theorem ofInt64_of_natAbs_lt {i : Int64} (hi : i.toInt.natAbs < 2 ^ 53) :
    ofInt64 i = .finite (i.toInt : ℚ) := by
  rw [ofInt64, roundMantissa_of_lt hi]
  congr 1
  rw [Int.sign_mul_natAbs]

end Double

structure CandidateResult where
  score : Double := .finite 0
  summary : Bytes := []
  deriving DecidableEq

end DataAgentSystem.Branch
