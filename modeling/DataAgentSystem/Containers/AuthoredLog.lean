import Mathlib.Algebra.BigOperators.Group.Finset.Basic
import Mathlib.Algebra.BigOperators.Group.Finset.Piecewise
import Mathlib.Algebra.Group.Int.Defs

/-! A log of values and their authors. Each entry replaces the value before it, so
the last one stands. Where values are measured, what stands is measured by what was
there first and what each author has contributed: the differences that its entries
have made, wherever they are in the log. -/

namespace DataAgentSystem.Containers

namespace AuthoredLog

variable {ι α : Type}

/-- The value that stands after the entries. -/
def standing (start : α) : List (ι × α) → α
  | [] => start
  | entry :: log => standing entry.2 log

@[simp] theorem standing_nil (start : α) : standing start ([] : List (ι × α)) = start := rfl

theorem standing_append (start : α) (log later : List (ι × α)) :
    standing start (log ++ later) = standing (standing start log) later := by
  induction log generalizing start with
  | nil => rfl
  | cons entry log ih => exact ih entry.2

@[simp] theorem standing_snoc (start : α) (log : List (ι × α)) (entry : ι × α) :
    standing start (log ++ [entry]) = entry.2 := by
  rw [standing_append]
  rfl

/-- What is true of the first value and of all entries is true of what stands. -/
theorem standing_of_forall {P : α → Prop} {start : α} {log : List (ι × α)} (hstart : P start)
    (hlog : ∀ entry ∈ log, P entry.2) : P (standing start log) := by
  induction log generalizing start with
  | nil => exact hstart
  | cons entry log ih =>
    rw [List.forall_mem_cons] at hlog
    exact ih hlog.1 hlog.2

variable [DecidableEq ι] (measure : α → ℤ) (i : ι)

/-- The differences that the entries of an author make. -/
def contribution (start : α) : List (ι × α) → ℤ
  | [] => 0
  | entry :: log =>
    (if entry.1 = i then measure entry.2 - measure start else 0) + contribution entry.2 log

theorem contribution_append (start : α) (log later : List (ι × α)) :
    contribution measure i start (log ++ later) =
      contribution measure i start log + contribution measure i (standing start log) later := by
  induction log generalizing start with
  | nil => exact (zero_add _).symm
  | cons entry log ih =>
    rw [List.cons_append, contribution, ih, contribution, standing, add_assoc]

variable {i}

/-- Who has no entries contributes nothing. -/
theorem contribution_of_forall_ne {start : α} {log : List (ι × α)}
    (hlog : ∀ entry ∈ log, entry.1 ≠ i) : contribution measure i start log = 0 := by
  induction log generalizing start with
  | nil => rfl
  | cons entry log ih =>
    rw [List.forall_mem_cons] at hlog
    rw [contribution, if_neg hlog.1, ih hlog.2, add_zero]

/-- Entries of others around it do not change what an author contributes. -/
theorem contribution_between {start : α} {front own rest : List (ι × α)}
    (hothers : ∀ entry ∈ front ++ rest, entry.1 ≠ i) :
    contribution measure i start (front ++ own ++ rest) =
      contribution measure i (standing start front) own := by
  rw [List.forall_mem_append] at hothers
  rw [contribution_append, contribution_append, contribution_of_forall_ne measure hothers.1,
    contribution_of_forall_ne measure hothers.2, zero_add, add_zero]

/-- What stands is what was there first and all contributions. -/
theorem measure_standing [Fintype ι] (start : α) (log : List (ι × α)) :
    measure (standing start log) = measure start + ∑ i, contribution measure i start log := by
  induction log generalizing start with
  | nil => simp [contribution]
  | cons entry log ih =>
    rw [standing, ih]
    simp only [contribution, Finset.sum_add_distrib, Finset.sum_ite_eq, Finset.mem_univ,
      ↓reduceIte]
    rw [← add_assoc, add_sub_cancel]

end AuthoredLog

end DataAgentSystem.Containers
