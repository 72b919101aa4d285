import DataAgentSystem.Branch.CandidateResult
import DataAgentSystem.Text.Decimal

/-! Scores as the C library reads them. `strtod` takes as much of a text as spells a number,
decimal or hexadecimal, with a point and an exponent or without, and rounds it once to the
nearest `double`. An integer of at most 53 bits is read as it is. -/

namespace DataAgentSystem.Branch

open Text

namespace Double

/-! ### Rounding -/

/-- A quotient rounded to the nearest integer, ties to even. -/
def roundToEven (numerator denominator : ℕ) : ℕ :=
  let quotient := numerator / denominator
  let rest := numerator % denominator
  if 2 * rest < denominator ∨ (2 * rest = denominator ∧ quotient % 2 = 0) then quotient
  else quotient + 1

/-- The exponent of the last of the 53 bits of a quotient; a subnormal number has fewer. -/
def lastBit (numerator denominator : ℕ) : ℤ :=
  let estimate : ℤ := numerator.log2 - denominator.log2 - 52
  let short := numerator * 2 ^ (-estimate).toNat < 2 ^ 52 * (denominator * 2 ^ estimate.toNat)
  max (-1074) (if short then estimate - 1 else estimate)

/-- The `double` nearest to a number. -/
def ofRat (q : ℚ) : Double :=
  let exponent := lastBit q.num.natAbs q.den
  let mantissa := roundToEven (q.num.natAbs * 2 ^ (-exponent).toNat) (q.den * 2 ^ exponent.toNat)
  let magnitude : ℚ := mantissa * 2 ^ exponent.toNat / 2 ^ (-exponent).toNat
  if 2 ^ 1024 ≤ magnitude then if q < 0 then .negativeInfinity else .infinity
  else .finite (if q < 0 then -magnitude else magnitude)

def neg : Double → Double
  | .nan => .nan
  | .negativeInfinity => .infinity
  | .finite value => .finite (-value)
  | .infinity => .negativeInfinity

end Double

/-! ### Reading -/

def lower (c : Byte) : Byte := if 65 ≤ c ∧ c ≤ 90 then c + 32 else c

def isHexDigit (c : Byte) : Bool := isDigit c || (97 ≤ lower c && lower c ≤ 102)

def hexDigitsValue (s : Bytes) : ℕ :=
  s.foldl (fun n c => 16 * n + (if isDigit c then c.toNat - 48 else (lower c).toNat - 87)) 0

/-- The digits before and after the point, and the text after them. -/
def readMantissa (digit : Byte → Bool) (s : Bytes) : Bytes × Bytes × Bytes :=
  let whole := s.takeWhile digit
  match s.dropWhile digit with
  | [] => (whole, [], [])
  | c :: cs =>
    if c = 46 then (whole, cs.takeWhile digit, cs.dropWhile digit) else (whole, [], c :: cs)

/-- The exponent after its mark, if there is one. -/
def readExponent (mark : Byte) : Bytes → ℤ
  | [] => 0
  | c :: cs =>
    if lower c = mark then
      let (negative, digits) := readSign cs
      let n := digitsValue (digits.takeWhile isDigit)
      if negative then -n else n
    else 0

/-- The number that a text begins with, or zero. -/
def decimalValue (s : Bytes) : ℚ :=
  let (whole, fraction, rest) := readMantissa isDigit s
  if whole ++ fraction = [] then 0
  else digitsValue (whole ++ fraction) * 10 ^ (readExponent 101 rest - fraction.length)

/-- The number that a text begins with after `0x`, if it does with one. -/
def hexValue (s : Bytes) : Option ℚ :=
  let (whole, fraction, rest) := readMantissa isHexDigit s
  if whole ++ fraction = [] then none
  else some (hexDigitsValue (whole ++ fraction) * 2 ^ (readExponent 112 rest - 4 * fraction.length))

/-- What `strtod` makes of a text without a sign. -/
def strtodMagnitude (s : Bytes) : Double :=
  let lowered := s.map lower
  if ascii "inf" <+: lowered then .infinity
  else if ascii "nan" <+: lowered then .nan
  else
    let hex := if ascii "0x" <+: lowered then hexValue (s.drop 2) else none
    Double.ofRat (hex.getD (decimalValue s))

def strtod (s : Bytes) : Double :=
  let (negative, s) := readSign (s.dropWhile isSpace)
  if negative then (strtodMagnitude s).neg else strtodMagnitude s

/-! ### Integers -/

namespace Double

theorem lastBit_one_nonpos {n : ℕ} (hn : n < 2 ^ 53) : lastBit n 1 ≤ 0 := by
  have hlog : n.log2 ≤ 52 := by
    rcases Nat.eq_zero_or_pos n with rfl | hpos
    · decide
    · have := (Nat.log2_lt (Nat.ne_of_gt hpos)).2 hn
      omega
  simp only [lastBit, show Nat.log2 1 = 0 by decide]
  split <;> omega

/-- Integers of at most 53 bits need no rounding. -/
theorem ofRat_natCast {n : ℕ} (hn : n < 2 ^ 53) : ofRat n = .finite n := by
  obtain ⟨e, he⟩ := Int.exists_eq_neg_ofNat (lastBit_one_nonpos hn)
  have hmantissa : roundToEven (n * 2 ^ e) 1 = n * 2 ^ e := by simp [roundToEven, Nat.mod_one]
  have hmagnitude : ((n * 2 ^ e : ℕ) : ℚ) * 2 ^ 0 / 2 ^ e = n := by
    push_cast
    field_simp
  have hsign : ¬(n : ℚ) < 0 := not_lt.2 n.cast_nonneg
  have hfits : ¬(2 ^ 1024 : ℚ) ≤ n := by
    rw [not_le]
    exact_mod_cast hn.trans (Nat.pow_lt_pow_right (by decide) (by decide))
  simp only [ofRat, Rat.num_natCast, Rat.den_natCast, Int.natAbs_natCast, he,
    neg_neg, Int.toNat_natCast, Int.toNat_neg_natCast, pow_zero, one_mul, hmantissa]
  rw [pow_zero] at hmagnitude
  simp only [hmagnitude, if_neg hfits, if_neg hsign]

end Double

theorem lower_of_isDigit {c : Byte} (hc : isDigit c = true) : lower c = c := by
  simp only [isDigit, Bool.and_eq_true, decide_eq_true_eq] at hc
  rw [lower, if_neg]
  rintro ⟨hlow, -⟩
  exact absurd (UInt8.le_trans hlow hc.2) (by decide)

/-- The text of a number without a fraction has no letter in it. -/
theorem not_ascii_isPrefix {word : Bytes} {c : Byte} (hc : c ∈ word) (hletter : isDigit c = false)
    (hpoint : c ≠ 46) (n k : ℕ) : ¬word <+: (decimal n ++ 46 :: List.replicate k 48).map lower := by
  intro hstart
  obtain ⟨b, hb, rfl⟩ := List.mem_map.1 (hstart.subset hc)
  rcases List.mem_append.1 hb with hb | hb
  · have hdigit := isDigit_of_mem_decimal hb
    rw [lower_of_isDigit hdigit, hdigit] at hletter
    exact Bool.noConfusion hletter
  · rcases List.mem_cons.1 hb with rfl | hb
    · exact hpoint rfl
    · rw [(List.mem_replicate.1 hb).2] at hletter
      exact Bool.noConfusion hletter

theorem digitsValue_append_zeros (s : Bytes) (k : ℕ) :
    digitsValue (s ++ List.replicate k 48) = digitsValue s * 10 ^ k := by
  induction k with
  | zero => simp
  | succ k ih =>
    simp only [digitsValue] at ih
    rw [List.replicate_succ', ← List.append_assoc, digitsValue, List.foldl_append, ih,
      List.foldl_cons, List.foldl_nil, pow_succ]
    simp only [digitsValue, show (48 : Byte).toNat - 48 = 0 by decide]
    ring

theorem decimalValue_zeros (n k : ℕ) :
    decimalValue (decimal n ++ 46 :: List.replicate k 48) = n := by
  have htake : (decimal n ++ 46 :: List.replicate k 48).takeWhile isDigit = decimal n := by
    rw [List.takeWhile_append_of_pos fun c hc => isDigit_of_mem_decimal hc]
    simp [isDigit]
  have hdrop : (decimal n ++ 46 :: List.replicate k 48).dropWhile isDigit =
      46 :: List.replicate k 48 := by
    rw [List.dropWhile_append_of_pos fun c hc => isDigit_of_mem_decimal hc]
    simp [isDigit]
  have hzero : isDigit 48 = true := rfl
  have hmantissa : readMantissa isDigit (decimal n ++ 46 :: List.replicate k 48) =
      (decimal n, List.replicate k 48, []) := by
    simp only [readMantissa, htake, hdrop, ↓reduceIte, List.takeWhile_replicate,
      List.dropWhile_replicate, hzero]
  simp only [decimalValue, hmantissa, List.append_eq_nil_iff, decimal_ne_nil, false_and,
    ↓reduceIte, readExponent, digitsValue_append_zeros, digitsValue_decimal, List.length_replicate,
    zero_sub, zpow_neg, zpow_natCast]
  push_cast
  field_simp

/-- An integer of at most 53 bits, printed with as many zeros after its point as there may
be, is read as it is. -/
theorem strtodMagnitude_zeros {n : ℕ} (hn : n < 2 ^ 53) (k : ℕ) :
    strtodMagnitude (decimal n ++ 46 :: List.replicate k 48) = .finite n := by
  have hinf := @not_ascii_isPrefix (ascii "inf") 105 (by decide) (by decide) (by decide) n k
  have hnan := @not_ascii_isPrefix (ascii "nan") 110 (by decide) (by decide) (by decide) n k
  have hhex := @not_ascii_isPrefix (ascii "0x") 120 (by decide) (by decide) (by decide) n k
  simp only [strtodMagnitude, if_neg hinf, if_neg hnan, if_neg hhex,
    Option.getD_none, decimalValue_zeros, Double.ofRat_natCast hn]

example : strtod (ascii " -0x1.8p1") = .finite (-3) := by decide +kernel
example : strtod (ascii "0.1") = .finite (3602879701896397 / 2 ^ 55) := by decide +kernel

end DataAgentSystem.Branch
