import DataAgentSystem.Text.Lines
import DataAgentSystem.Text.Decimal
import Mathlib.Data.List.TakeWhile

/-! ASCII text as Python reads it: text mode turns each carriage return, with a newline
after it or not, into a newline; `str.splitlines` ends a line at more characters than
the newline; `int` takes a whole text, with white space around it and underscores
between its digits. -/

namespace DataAgentSystem.Text

def carriageReturn : Byte := 13

/-- Universal newlines; `returned` says that a carriage return has just been read. -/
def universalNewlinesFrom : Bool → Bytes → Bytes
  | _, [] => []
  | returned, c :: cs =>
    if c = carriageReturn then newline :: universalNewlinesFrom true cs
    else if returned ∧ c = newline then universalNewlinesFrom false cs
    else c :: universalNewlinesFrom false cs

/-- `read_text`, of contents that are ASCII; what others are decoded to is not modelled. -/
def readText (contents : Bytes) : Option Bytes :=
  if contents.all (· < 128) then some (universalNewlinesFrom false contents) else none

/-- The ASCII characters at which `str.splitlines` ends a line. -/
def endsLine (c : Byte) : Bool := (10 ≤ c && c ≤ 13) || (28 ≤ c && c ≤ 30)

/-- The loop of `str.splitlines`; a newline after a carriage return ends no line of its own. -/
def splitlinesFrom : Bool → Bytes → List Bytes
  | _, [] => []
  | returned, c :: cs =>
    if returned ∧ c = newline then splitlinesFrom false cs
    else if endsLine c then [] :: splitlinesFrom (c = carriageReturn) cs
    else match splitlinesFrom false cs with
      | [] => [[c]]
      | l :: ls => (c :: l) :: ls

def splitlines (s : Bytes) : List Bytes := splitlinesFrom false s

/-- `str.isspace`. -/
def isPythonSpace (c : Byte) : Bool := isSpace c || (28 ≤ c && c ≤ 31)

/-- The number that groups of digits with an underscore between them spell. -/
def pythonDigits (s : Bytes) : Option ℕ :=
  if (s.splitOn 95).all fun group => group ≠ [] ∧
    group.all isDigit then some (digitsValue (s.splitOn 95).flatten)
  else none

/-- `int` of a string. -/
def pythonInt (s : Bytes) : Option ℤ :=
  let (negative, digits) :=
    readSign ((s.dropWhile isPythonSpace).reverse.dropWhile isPythonSpace).reverse
  (pythonDigits digits).map fun n => if negative then -n else n

/-! ### Lines -/

theorem universalNewlines_of_notMem {s : Bytes} (hs : carriageReturn ∉ s) :
    universalNewlinesFrom false s = s := by
  induction s with
  | nil => rfl
  | cons c cs ih =>
    rw [List.mem_cons, not_or] at hs
    rw [universalNewlinesFrom, if_neg (Ne.symm hs.1), if_neg (by simp), ih hs.2]

/-- A text whose lines end at newlines only has the lines that `getline` finds. -/
theorem splitlines_eq_lines {s : Bytes} (hs : ∀ c ∈ s, endsLine c = true → c = newline) :
    splitlines s = lines newline s := by
  unfold splitlines
  induction s with
  | nil => rfl
  | cons c cs ih =>
    rw [List.forall_mem_cons] at hs
    rw [splitlinesFrom, if_neg (by simp), lines]
    by_cases hc : c = newline
    · subst hc
      rw [if_pos (by decide), if_pos rfl, ← ih hs.2]
      rfl
    · have hends : ¬endsLine c = true := fun h => hc (hs.1 h)
      have hrest :=
        congrArg (fun rest : List Bytes =>
          match rest with | [] => [[c]] | l :: ls => (c :: l) :: ls) (ih hs.2)
      rw [if_neg hends, if_neg hc]
      exact hrest

theorem endsLine_of_mem_splitlinesFrom {s l : Bytes} {returned : Bool}
    (hl : l ∈ splitlinesFrom returned s) :
    ∀ c ∈ l, endsLine c = false := by
  induction s generalizing l returned with
  | nil => exact absurd hl List.not_mem_nil
  | cons c cs ih =>
    rw [splitlinesFrom] at hl
    split at hl
    next => exact ih hl
    next =>
      split at hl
      next =>
        rcases List.mem_cons.1 hl with rfl | hl
        · exact fun c hc => absurd hc List.not_mem_nil
        · exact ih hl
      next hends =>
        rw [Bool.not_eq_true] at hends
        cases hrest : splitlinesFrom false cs with
        | nil =>
          rw [hrest, List.mem_singleton] at hl
          rw [hl, List.forall_mem_singleton]
          exact hends
        | cons first rest =>
          rw [hrest, List.mem_cons] at hl
          rcases hl with rfl | hl
          · rw [List.forall_mem_cons]
            exact ⟨hends, ih (by rw [hrest]; exact List.mem_cons_self)⟩
          · exact ih (by rw [hrest]; exact List.mem_cons_of_mem first hl)

/-! ### Numbers -/

theorem pythonDigits_decimal (n : ℕ) : pythonDigits (decimal n) = some n := by
  have hsplit : (decimal n).splitOn 95 = [decimal n] :=
    List.splitOn_eq_singleton (notMem_decimal (by decide) n)
  rw [pythonDigits, hsplit]
  simp [decimal_ne_nil, all_isDigit_decimal, digitsValue_decimal, -List.all_eq_true]

theorem isPythonSpace_of_isDigit {c : Byte} (h : isDigit c = true) : isPythonSpace c = false := by
  simp only [isDigit, isPythonSpace, isSpace, Bool.and_eq_true,
    decide_eq_true_eq, UInt8.le_iff_toNat_le, ← UInt8.toNat_inj, Bool.or_eq_false_iff,
    Bool.and_eq_false_iff, decide_eq_false_iff_not, beq_eq_false_iff_ne, ne_eq] at h ⊢
  simp at h ⊢
  omega

theorem dropWhile_of_all {p : Byte → Bool} {s : Bytes} (hs : ∀ c ∈ s, p c = false) :
    s.dropWhile p = s := by
  rw [List.dropWhile_eq_self_iff]
  intro hlength hhead
  rw [hs _ (List.getElem_mem hlength)] at hhead
  cases hhead

/-- No white space is taken off a text without any. -/
theorem strip_of_all {s : Bytes} (hs : ∀ c ∈ s, isPythonSpace c = false) :
    ((s.dropWhile isPythonSpace).reverse.dropWhile isPythonSpace).reverse = s := by
  rw [dropWhile_of_all hs, dropWhile_of_all fun c hc => hs c (List.mem_reverse.1 hc),
    List.reverse_reverse]

theorem pythonInt_decimal (n : ℕ) : pythonInt (decimal n) = some (n : ℤ) := by
  have hspace : ∀ c ∈ decimal n, isPythonSpace c = false := fun c hc =>
    isPythonSpace_of_isDigit (isDigit_of_mem_decimal hc)
  have hspace' : ∀ c ∈ decimal n, isSpace c = false := fun c hc =>
    (Bool.or_eq_false_iff.1 (hspace c hc)).1
  have hsign := readSign_decimal n
  rw [dropWhile_of_all hspace'] at hsign
  simp [pythonInt, strip_of_all hspace, hsign, pythonDigits_decimal]

theorem pythonInt_signedDecimal (i : ℤ) : pythonInt (signedDecimal i) = some i := by
  by_cases hneg : i < 0
  · have hspace : ∀ c ∈ signedDecimal i, isPythonSpace c = false := by
      rw [signedDecimal, if_pos hneg, List.forall_mem_cons]
      exact ⟨by decide, fun c hc => isPythonSpace_of_isDigit (isDigit_of_mem_decimal hc)⟩
    have hsign : readSign (signedDecimal i) = (true, decimal i.natAbs) := by
      rw [signedDecimal, if_pos hneg]; rfl
    have habs : -|i| = i := by rw [abs_of_neg hneg, neg_neg]
    simp [pythonInt, strip_of_all hspace, hsign, pythonDigits_decimal, habs]
  · have habs : (i.natAbs : ℤ) = i := by omega
    rw [signedDecimal, if_neg hneg, pythonInt_decimal, habs]

example : splitlines (ascii "a\r\nb\x0bc") = [ascii "a", ascii "b", ascii "c"] := by decide

end DataAgentSystem.Text
