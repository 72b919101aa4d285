import DataAgentSystem.Text.Decimal
import Mathlib.Data.List.Nodup

/-! Keys that are numbered: a start, the number, and one of some endings. Where no ending
begins with a digit the number can be told from what follows it, so all keys differ. -/

namespace DataAgentSystem.Text

def numberedKeys (start : Bytes) (endings : List Bytes) (n : ℕ) : List Bytes :=
  (List.range n).flatMap fun i => endings.map fun ending => start ++ decimal i ++ ending

variable {start ending : Bytes} {endings : List Bytes} {n : ℕ}

theorem takeWhile_isDigit_numbered (i : ℕ) (h : ending.takeWhile isDigit = []) :
    (decimal i ++ ending).takeWhile isDigit = decimal i := by
  rw [List.takeWhile_append_of_pos fun c hc => isDigit_of_mem_decimal hc, h, List.append_nil]

theorem mem_numberedKeys {key : Bytes} :
    key ∈ numberedKeys start endings n ↔ ∃ i < n, ∃ ending ∈ endings,
      start ++ decimal i ++ ending = key := by
  simp only [numberedKeys, List.mem_flatMap, List.mem_range, List.mem_map]

theorem start_prefix_of_mem {key : Bytes} (h : key ∈ numberedKeys start endings n) :
    start <+: key := by
  obtain ⟨i, -, ending, -, rfl⟩ := mem_numberedKeys.1 h
  exact ⟨decimal i ++ ending, (List.append_assoc _ _ _).symm⟩

/-- A key of another form than the numbered ones: a digit does not follow the start. -/
theorem append_notMem_numberedKeys {rest : Bytes} (hrest : rest.takeWhile isDigit = [])
    (hendings : ∀ ending ∈ endings, ending.takeWhile isDigit = []) :
    start ++ rest ∉ numberedKeys start endings n := by
  intro hmem
  obtain ⟨i, -, ending, hending, heq⟩ := mem_numberedKeys.1 hmem
  rw [List.append_assoc, List.append_cancel_left_eq] at heq
  have hnumber := takeWhile_isDigit_numbered i (hendings ending hending)
  rw [heq, hrest] at hnumber
  exact decimal_ne_nil i hnumber.symm

theorem nodup_numberedKeys (start : Bytes) (n : ℕ) (hnodup : endings.Nodup)
    (hendings : ∀ ending ∈ endings, ending.takeWhile isDigit = []) :
    (numberedKeys start endings n).Nodup := by
  rw [numberedKeys, List.nodup_flatMap]
  constructor
  · intro i _
    exact hnodup.map (List.append_right_injective _)
  · apply List.nodup_range.imp
    intro i j hne key hkey hkey'
    obtain ⟨ending, hending, rfl⟩ := List.mem_map.1 hkey
    obtain ⟨ending', hending', heq⟩ := List.mem_map.1 hkey'
    rw [List.append_assoc, List.append_assoc, List.append_cancel_left_eq] at heq
    have hnumber := takeWhile_isDigit_numbered j (hendings ending' hending')
    rw [heq, takeWhile_isDigit_numbered i (hendings ending hending)] at hnumber
    exact hne (decimal_injective hnumber)

end DataAgentSystem.Text
