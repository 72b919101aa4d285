import DataAgentSystem.Text.Bytes

/-! Escaping a set of bytes by a mark and a letter. Each escaped byte, the mark
among them, is written as the mark followed by its letter; every other byte is
written as it is. The reader drops a mark and decodes the byte after it, and it
keeps a mark that ends the text. The inverse law and the bytes an escaped text
can hold depend only on the table being consistent. -/

namespace DataAgentSystem.Text

/-- A table of escaped bytes whose letters decode back to them. -/
structure Escaping where
  mark : Byte
  /-- The letter that stands for an escaped byte after the mark. -/
  letter : Byte → Option Byte
  decode : Byte → Byte
  letter_mark : (letter mark).isSome
  decode_letter : ∀ {c l}, letter c = some l → decode l = c

namespace Escaping

variable (E : Escaping)

def escape : Bytes → Bytes
  | [] => []
  | c :: cs => match E.letter c with
    | some l => E.mark :: l :: escape cs
    | none => c :: escape cs

/-- The reader; `escaped` says that the byte before was an unread mark. -/
def unescapeFrom : Bool → Bytes → Bytes
  | false, [] => []
  | true, [] => [E.mark]
  | true, c :: cs => E.decode c :: unescapeFrom false cs
  | false, c :: cs => if c = E.mark then unescapeFrom true cs else c :: unescapeFrom false cs

def unescape (s : Bytes) : Bytes := E.unescapeFrom false s

theorem letter_ne_none_of_eq_mark {c : Byte} (hc : E.letter c = none) : c ≠ E.mark := by
  rintro rfl
  simpa [hc] using E.letter_mark

theorem escape_append (s t : Bytes) : E.escape (s ++ t) = E.escape s ++ E.escape t := by
  induction s with
  | nil => rfl
  | cons c cs ih =>
    rw [List.cons_append, escape, escape, ih]
    split <;> rfl

theorem unescape_escape_append (s t : Bytes) :
    E.unescape (E.escape s ++ t) = s ++ E.unescape t := by
  unfold unescape
  induction s with
  | nil => rfl
  | cons c cs ih =>
    simp only [escape]
    split
    next l hl => simp [unescapeFrom, ih, E.decode_letter hl]
    next hc => simp [unescapeFrom, ih, E.letter_ne_none_of_eq_mark hc]

theorem unescape_escape (s : Bytes) : E.unescape (E.escape s) = s := by
  have happend := E.unescape_escape_append s []
  rw [List.append_nil] at happend
  exact happend.trans (List.append_nil s)

theorem escape_injective : Function.Injective E.escape :=
  Function.LeftInverse.injective E.unescape_escape

@[simp] theorem escape_nil : E.escape [] = [] := rfl

theorem escape_eq_nil {s : Bytes} : E.escape s = [] ↔ s = [] := by
  constructor
  · intro h
    exact E.escape_injective h
  · rintro rfl
    rfl

/-- An escaped byte that is no letter does not occur in an escaped text. -/
theorem notMem_escape {d : Byte} (hd : (E.letter d).isSome) (hm : d ≠ E.mark)
    (hl : ∀ c, E.letter c ≠ some d) (s : Bytes) : d ∉ E.escape s := by
  induction s with
  | nil => simp
  | cons c cs ih =>
    simp only [escape]
    split
    next l h =>
      have hne : d ≠ l := by
        rintro rfl
        exact hl c h
      simp [hm, hne, ih]
    next h =>
      have hne : d ≠ c := by
        rintro rfl
        simp [h] at hd
      simp [hne, ih]

/-- A text without the mark is read as it is. -/
theorem unescape_of_notMem {s : Bytes} (hs : E.mark ∉ s) : E.unescape s = s := by
  unfold unescape
  induction s with
  | nil => rfl
  | cons c cs ih =>
    rw [List.mem_cons, not_or] at hs
    rw [unescapeFrom, if_neg (Ne.symm hs.1), ih hs.2]

/-- Reading never loses a nonempty text. -/
theorem unescape_ne_nil {s : Bytes} (hs : s ≠ []) : E.unescape s ≠ [] := by
  unfold unescape
  match s with
  | [c] => by_cases hc : c = E.mark <;> simp [unescapeFrom, hc]
  | c :: d :: cs => by_cases hc : c = E.mark <;> simp [unescapeFrom, hc]

/-- A cut text is read as the whole one if nothing is cut off, or only the letter of a
mark at its end: then the reader keeps the mark that is left. -/
theorem unescape_take_escape_iff {s : Bytes} {n : ℕ} : E.unescape ((E.escape s).take n) = s ↔
    (E.escape s).length ≤ n ∨ (E.escape s).length = n + 1 ∧ s.getLast? = some E.mark := by
  constructor
  · intro h
    induction s generalizing n with
    | nil => exact .inl (Nat.zero_le n)
    | cons c cs ih =>
      have hlast : cs ≠ [] → (c :: cs).getLast? = cs.getLast? := fun hcs => by
        rw [List.getLast?_cons, List.getLast?_eq_some_getLast hcs]
        rfl
      -- what is read of the rest, and whether the cut falls on it
      have hrest : ∀ m, E.unescape ((E.escape cs).take m) = cs → (E.escape cs).length ≤ m ∨
          (E.escape cs).length = m + 1 ∧ (c :: cs).getLast? = some E.mark := by
        intro m hm
        refine (ih hm).imp_right fun ⟨hlen, hmark⟩ => ⟨hlen, ?_⟩
        rw [hlast (by rintro rfl; cases hmark)]
        exact hmark
      cases hc : E.letter c with
      | none =>
        have hne := E.letter_ne_none_of_eq_mark hc
        simp only [escape, hc, List.length_cons] at h ⊢
        cases n with
        | zero => cases h
        | succ n =>
          rw [List.take_succ_cons, unescape, unescapeFrom, if_neg hne] at h
          rcases hrest n (List.cons.inj h).2 with hlen | ⟨hlen, hmark⟩
          · exact .inl (by omega)
          · exact .inr ⟨by omega, hmark⟩
      | some l =>
        simp only [escape, hc, List.length_cons] at h ⊢
        match n with
        | 0 => cases h
        | 1 =>
          obtain ⟨rfl, rfl⟩ : E.mark = c ∧ [] = cs := by
            simpa [unescape, unescapeFrom] using h
          exact .inr ⟨rfl, rfl⟩
        | n + 2 =>
          rw [List.take_succ_cons, List.take_succ_cons, unescape, unescapeFrom,
            if_pos rfl, unescapeFrom] at h
          rcases hrest n (List.cons.inj h).2 with hlen | ⟨hlen, hmark⟩
          · exact .inl (by omega)
          · exact .inr ⟨by omega, hmark⟩
  · rintro (hall | ⟨hlen, hmark⟩)
    · rw [List.take_of_length_le hall, unescape_escape]
    · obtain ⟨front, rfl⟩ := List.getLast?_eq_some_iff.1 hmark
      obtain ⟨l, hl⟩ := Option.isSome_iff_exists.1 E.letter_mark
      have hescape : E.escape (front ++ [E.mark]) = (E.escape front ++ [E.mark]) ++ [l] := by
        rw [escape_append, List.append_assoc]
        simp only [escape, hl, List.singleton_append]
      have hn : n = (E.escape front ++ [E.mark]).length := by
        rw [hescape, List.length_append, List.length_singleton] at hlen
        omega
      rw [hescape, hn, List.take_left, unescape_escape_append]
      simp only [unescape, unescapeFrom, ↓reduceIte]

end Escaping

/-- Backslash, tab and newline, written as a backslash with a backslash, a `t` or an `n`. -/
def backslashEscaping : Escaping where
  mark := backslash
  letter c := if c = backslash then some backslash else if c = tab then some 116
    else if c = newline then some 110 else none
  decode c := if c = 116 then tab else if c = 110 then newline else c
  letter_mark := by decide
  decode_letter {c l} h := by
    split_ifs at h with h₁ h₂ h₃ <;> simp_all <;> subst h <;> decide

theorem tab_notMem_escape (s : Bytes) : tab ∉ backslashEscaping.escape s := by
  refine backslashEscaping.notMem_escape (by decide) (by decide) (fun c h => ?_) s
  simp only [backslashEscaping] at h
  split_ifs at h <;> simp_all [tab, backslash]

theorem newline_notMem_escape (s : Bytes) : newline ∉ backslashEscaping.escape s := by
  refine backslashEscaping.notMem_escape (by decide) (by decide) (fun c h => ?_) s
  simp only [backslashEscaping] at h
  split_ifs at h <;> simp_all [newline, backslash]

example : backslashEscaping.escape (ascii "a\tb\n") = ascii "a\\tb\\n" := by decide

end DataAgentSystem.Text
