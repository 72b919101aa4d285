import DataAgentSystem.Text.Bytes
import Mathlib.Tactic.IntervalCases

/-! Decimal numbers as the C++ library prints and reads them: `operator<<` and
`to_string` print without padding, `strtoull` and `strtoll` skip white space, take
an optional sign and as many digits as follow, and clamp, while `from_chars` takes
the whole text or nothing. -/

namespace DataAgentSystem.Text

/-- A number as it is printed. -/
def decimal (n : ℕ) : Bytes := (Nat.toDigits 10 n).map Char.toUInt8

/-- A signed number as it is printed. -/
def signedDecimal (i : Int) : Bytes := if i < 0 then 45 :: decimal i.natAbs else decimal i.natAbs

def isDigit (c : Byte) : Bool := 48 ≤ c && c ≤ 57

/-- `isspace` in the C locale. -/
def isSpace (c : Byte) : Bool := c == 32 || (9 ≤ c && c ≤ 13)

def digitsValue (s : Bytes) : ℕ := s.foldl (fun n c => 10 * n + (c.toNat - 48)) 0

/-- The optional sign of a number and the text after it. -/
def readSign : Bytes → Bool × Bytes
  | [] => (false, [])
  | c :: cs => if c = 45 then (true, cs) else if c = 43 then (false, cs) else (false, c :: cs)

def strtoull (s : Bytes) : UInt64 :=
  let (negative, s) := readSign (s.dropWhile isSpace)
  let n := digitsValue (s.takeWhile isDigit)
  if 2 ^ 64 ≤ n then UInt64.ofNat (2 ^ 64 - 1)
  else if negative then -UInt64.ofNat n else UInt64.ofNat n

def strtoll (s : Bytes) : Int64 :=
  let (negative, s) := readSign (s.dropWhile isSpace)
  let n := digitsValue (s.takeWhile isDigit)
  if negative then (if 2 ^ 63 < n then Int64.minValue else Int64.ofInt (-n))
  else if 2 ^ 63 ≤ n then Int64.maxValue else Int64.ofInt n

/-- The signed 64-bit number a text spells, with no sign but a minus. -/
def fromChars (s : Bytes) : Option Int64 :=
  let (negative, digits) := match s with
    | [] => (false, [])
    | c :: cs => if c = 45 then (true, cs) else (false, c :: cs)
  if digits = [] ∨ !digits.all isDigit then none
  else
    let n := digitsValue digits
    if negative then (if 2 ^ 63 < n then none else some (Int64.ofInt (-n)))
    else if 2 ^ 63 ≤ n then none else some (Int64.ofInt n)

theorem toUInt8_digitChar {n : ℕ} (hn : n < 10) :
    (Nat.digitChar n).toUInt8 = UInt8.ofNat (48 + n) := by
  interval_cases n <;> rfl

theorem decimal_of_lt {n : ℕ} (hn : n < 10) : decimal n = [UInt8.ofNat (48 + n)] := by
  rw [decimal, Nat.toDigits_of_lt_base hn, List.map_singleton, toUInt8_digitChar hn]

theorem decimal_of_le {n : ℕ} (hn : 10 ≤ n) :
    decimal n = decimal (n / 10) ++ [UInt8.ofNat (48 + n % 10)] := by
  rw [decimal, Nat.toDigits_of_base_le (by omega) hn, List.map_append, List.map_singleton,
    toUInt8_digitChar (Nat.mod_lt n (by omega))]
  rfl

theorem isDigit_ofNat {n : ℕ} (hn : n < 10) : isDigit (UInt8.ofNat (48 + n)) = true := by
  interval_cases n <;> rfl

theorem isDigit_of_mem_decimal {n : ℕ} {c : Byte} (hc : c ∈ decimal n) : isDigit c = true := by
  induction n using Nat.strong_induction_on with
  | h n ih =>
    by_cases hn : n < 10
    · rw [decimal_of_lt hn, List.mem_singleton] at hc
      exact hc ▸ isDigit_ofNat hn
    · rw [decimal_of_le (by omega), List.mem_append, List.mem_singleton] at hc
      rcases hc with hc | rfl
      · exact ih (n / 10) (by omega) hc
      · exact isDigit_ofNat (Nat.mod_lt n (by omega))

theorem decimal_ne_nil (n : ℕ) : decimal n ≠ [] := by simp [decimal]

/-- A byte that is no digit does not occur in a printed number. -/
theorem notMem_decimal {c : Byte} (hc : isDigit c = false) (n : ℕ) : c ∉ decimal n := by
  intro hm
  rw [isDigit_of_mem_decimal hm] at hc
  exact Bool.noConfusion hc

theorem digitsValue_decimal (n : ℕ) : digitsValue (decimal n) = n := by
  induction n using Nat.strong_induction_on with
  | h n ih =>
    have hdigit : ∀ {m}, m < 10 → (UInt8.ofNat (48 + m)).toNat - 48 = m := by
      intro m hm
      rw [UInt8.toNat_ofNat_of_lt' (show 48 + m < 2 ^ 8 by omega)]
      omega
    by_cases hn : n < 10
    · rw [decimal_of_lt hn, digitsValue, List.foldl_cons, List.foldl_nil, hdigit hn]
      omega
    · have hlast := ih (n / 10) (by omega)
      simp only [digitsValue] at hlast
      rw [decimal_of_le (by omega), digitsValue, List.foldl_append, hlast, List.foldl_cons,
        List.foldl_nil, hdigit (Nat.mod_lt n (by omega))]
      omega

/-- No white space or sign is taken off a text that starts with a digit. -/
theorem readSign_of_isDigit {c : Byte} (hc : isDigit c = true) (cs : Bytes) :
    readSign ((c :: cs).dropWhile isSpace) = (false, c :: cs) := by
  have hspace : isSpace c = false := by
    simp only [isDigit, isSpace, Bool.and_eq_true, decide_eq_true_eq, UInt8.le_iff_toNat_le] at hc ⊢
    have h32 : c ≠ 32 := by
      rintro rfl
      simp at hc
    simp only [beq_eq_false_iff_ne.2 h32, Bool.false_or, Bool.and_eq_false_iff,
      decide_eq_false_iff_not]
    right
    have := hc.1
    simp at this ⊢
    omega
  have hminus : c ≠ 45 := by
    rintro rfl
    simp [isDigit] at hc
  have hplus : c ≠ 43 := by
    rintro rfl
    simp [isDigit] at hc
  simp [hspace, readSign, hminus, hplus]

/-- A printed number starts with a digit. -/
theorem readSign_decimal_append (n : ℕ) (s : Bytes) :
    readSign ((decimal n ++ s).dropWhile isSpace) = (false, decimal n ++ s) := by
  rcases hd : decimal n with _ | ⟨c, cs⟩
  · exact absurd hd (decimal_ne_nil n)
  · exact readSign_of_isDigit (isDigit_of_mem_decimal (n := n) (by simp [hd])) (cs ++ s)

theorem readSign_decimal (n : ℕ) :
    readSign ((decimal n).dropWhile isSpace) = (false, decimal n) := by
  simpa using readSign_decimal_append n []

theorem takeWhile_isDigit_decimal (n : ℕ) : (decimal n).takeWhile isDigit = decimal n := by
  have := @List.takeWhile_append_of_pos _ isDigit (decimal n) [] fun c hc =>
    isDigit_of_mem_decimal hc
  simpa using this

/-- Every 64-bit number is read back as it was printed. -/
theorem strtoull_decimal (v : UInt64) : strtoull (decimal v.toNat) = v := by
  have hv : ¬2 ^ 64 ≤ v.toNat := by
    have := v.toNat_lt
    omega
  simp only [strtoull, readSign_decimal, takeWhile_isDigit_decimal, digitsValue_decimal, if_neg hv]
  simp

/-- No printed number is read back as a larger one. -/
theorem toNat_strtoull_decimal_le (n : ℕ) : (strtoull (decimal n)).toNat ≤ n := by
  simp only [strtoull, readSign_decimal, takeWhile_isDigit_decimal, digitsValue_decimal]
  split
  next hclamped =>
    rw [UInt64.toNat_ofNat_of_lt' (by decide)]
    omega
  next =>
    show n % 2 ^ 64 ≤ n
    exact Nat.mod_le n _

theorem all_isDigit_decimal (n : ℕ) : (decimal n).all isDigit = true :=
  List.all_eq_true.2 fun _ hc => isDigit_of_mem_decimal hc

/-- A printed number starts with no minus. -/
theorem decimal_cons (n : ℕ) : ∃ c cs, decimal n = c :: cs ∧ c ≠ 45 := by
  cases hd : decimal n with
  | nil => exact absurd hd (decimal_ne_nil n)
  | cons c cs =>
    refine ⟨c, cs, rfl, ?_⟩
    rintro rfl
    exact notMem_decimal (c := 45) rfl n (hd ▸ List.mem_cons_self)

/-- Every signed 64-bit number is read back as it was printed. -/
theorem fromChars_signedDecimal (i : Int64) : fromChars (signedDecimal i.toInt) = some i := by
  have hlow := i.le_toInt
  have hhigh := i.toInt_lt
  obtain ⟨c, cs, hdecimal, hc⟩ := decimal_cons i.toInt.natAbs
  have hdigits : ¬(decimal i.toInt.natAbs = [] ∨ !(decimal i.toInt.natAbs).all isDigit) := by
    simp [decimal_ne_nil, all_isDigit_decimal]
  by_cases hneg : i.toInt < 0
  · have habs : (-(i.toInt.natAbs : ℤ)) = i.toInt := by omega
    simp only [signedDecimal, hneg, ↓reduceIte, fromChars, hdigits, digitsValue_decimal]
    rw [if_neg (by omega), habs, Int64.ofInt_toInt]
  · have habs : (i.toInt.natAbs : ℤ) = i.toInt := by omega
    simp only [signedDecimal, hneg, ↓reduceIte]
    rw [hdecimal] at hdigits ⊢
    simp only [fromChars, hc, hdigits, ↓reduceIte, Bool.false_eq_true]
    rw [← hdecimal, digitsValue_decimal, if_neg (by omega), habs, Int64.ofInt_toInt]

/-- `strtoll` takes back what a signed number is printed as. -/
theorem strtoll_signedDecimal (i : Int64) : strtoll (signedDecimal i.toInt) = i := by
  have hlow := i.le_toInt
  have hhigh := i.toInt_lt
  by_cases hneg : i.toInt < 0
  · have habs : (-(i.toInt.natAbs : ℤ)) = i.toInt := by omega
    have hsign : readSign ((signedDecimal i.toInt).dropWhile isSpace) =
        (true, decimal i.toInt.natAbs) := by
      rw [signedDecimal, if_pos hneg]
      rfl
    simp only [strtoll, hsign, takeWhile_isDigit_decimal, digitsValue_decimal, ↓reduceIte]
    rw [if_neg (by omega), habs, Int64.ofInt_toInt]
  · have habs : (i.toInt.natAbs : ℤ) = i.toInt := by omega
    have hsign : readSign ((signedDecimal i.toInt).dropWhile isSpace) =
        (false, decimal i.toInt.natAbs) := by
      rw [signedDecimal, if_neg hneg, readSign_decimal]
    simp only [strtoll, hsign, takeWhile_isDigit_decimal, digitsValue_decimal,
      Bool.false_eq_true, ↓reduceIte]
    rw [if_neg (by omega), habs, Int64.ofInt_toInt]

/-- A byte that is neither a digit nor a minus does not occur in a printed signed number. -/
theorem notMem_signedDecimal {c : Byte} (hc : isDigit c = false) (hminus : c ≠ 45) (i : ℤ) :
    c ∉ signedDecimal i := by
  unfold signedDecimal
  split
  · exact List.not_mem_cons_of_ne_of_not_mem hminus (notMem_decimal hc _)
  · exact notMem_decimal hc _

theorem decimal_injective :
    Function.Injective decimal := Function.LeftInverse.injective digitsValue_decimal

example : strtoull (ascii " 18446744073709551616x") = 18446744073709551615 := by decide
example : fromChars (ascii "-12") = some (-12) := by decide

end DataAgentSystem.Text
