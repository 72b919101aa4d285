import Mathlib.Data.List.Induction
import Mathlib.Order.Basic

/-! A log with marks in it. Entries are appended, and a mark is set where the log ends at
that moment; going back to a mark cuts the log there and drops the marks that were set
after it. A move that does not drop a mark keeps the log before it and the marks before
it, so going back to a mark restores the moment when it was set. -/

namespace DataAgentSystem.Containers

structure MarkedLog (α μ : Type) where
  log : List α
  marks : List μ

namespace MarkedLog

variable {α μ : Type} (position : μ → ℕ) {m m' : MarkedLog α μ} {n : ℕ}
  {x y : μ} {front rest : List μ}

inductive Moves : MarkedLog α μ → MarkedLog α μ → Prop
  | stay (m : MarkedLog α μ) : Moves m m
  | append (m : MarkedLog α μ) (a : α) : Moves m { m with log := m.log ++ [a] }
  | mark (m : MarkedLog α μ) {x : μ} : position x = m.log.length →
      Moves m { m with marks := m.marks ++ [x] }
  | goBack (m : MarkedLog α μ) {front rest : List μ} {x : μ} : m.marks = front ++ x :: rest →
      Moves m { log := m.log.take (position x), marks := front ++ [x] }

/-- Later marks are further on, and none is beyond the end. -/
structure Sound (m : MarkedLog α μ) : Prop where
  sorted : m.marks.Pairwise fun x y => position x ≤ position y
  bounded : ∀ x ∈ m.marks, position x ≤ m.log.length

/-- What the mark at a place stands for is the same: the marks up to it, and the log before it. -/
structure Keeps (n : ℕ) (m m' : MarkedLog α μ) : Prop where
  marks : m'.marks.take (n + 1) = m.marks.take (n + 1)
  log : ∀ x, m.marks[n]? = some x → m'.log.take (position x) = m.log.take (position x)

variable {position}

/-- The marks up to one of them are not beyond it. -/
theorem Sound.le_of_split (hs : Sound position m) (hsplit : m.marks = front ++ y :: rest)
    (hx : x ∈ front) :
    position x ≤ position y := by
  have hsorted := hs.sorted
  rw [hsplit, List.pairwise_append] at hsorted
  exact hsorted.2.2 x hx y List.mem_cons_self

theorem Moves.sound (h : Moves position m m') (hs : Sound position m) : Sound position m' := by
  cases h with
  | stay => exact hs
  | append a =>
    refine ⟨hs.sorted, fun x hx => Nat.le_trans (hs.bounded x hx) ?_⟩
    simp
  | mark hx =>
    constructor
    · refine List.pairwise_append.2 ⟨hs.sorted, List.pairwise_singleton _ _, fun y hy z hz => ?_⟩
      rw [List.mem_singleton.1 hz, hx]
      exact hs.bounded y hy
    · intro y hy
      rcases List.mem_append.1 hy with hold | hnew
      · exact hs.bounded y hold
      · obtain rfl := List.mem_singleton.1 hnew
        exact Nat.le_of_eq hx
  | @goBack front rest x hsplit =>
    have hbound : position x ≤ m.log.length := hs.bounded x (by simp [hsplit])
    have hsorted : (front ++ [x]).Pairwise fun x y => position x ≤ position y := by
      have hall := hs.sorted
      rw [hsplit, ← List.singleton_append, ← List.append_assoc] at hall
      exact (List.pairwise_append.1 hall).1
    refine ⟨hsorted, fun y hy => ?_⟩
    have hle : position y ≤ position x := by
      rcases List.mem_append.1 hy with hin | hself
      · exact hs.le_of_split hsplit hin
      · obtain rfl := List.mem_singleton.1 hself
        exact Nat.le_refl _
    rw [List.length_take, Nat.min_eq_left hbound]
    exact hle

/-! ### What is kept -/

theorem Keeps.refl (position : μ → ℕ) (n : ℕ) (m : MarkedLog α μ) :
    Keeps position n m m := ⟨rfl, fun _ _ => rfl⟩

/-- One move that does not drop the mark at a place keeps what it stands for. -/
theorem Moves.keeps (h : Moves position m m') (hs : Sound position m) (hn : n < m.marks.length)
    (hn' : n < m'.marks.length) : Keeps position n m m' := by
  cases h with
  | stay => exact .refl position n m
  | append a =>
    refine ⟨rfl, fun x hx => ?_⟩
    exact List.take_append_of_le_length (hs.bounded x (List.mem_of_getElem? hx))
  | mark hx => exact ⟨List.take_append_of_le_length hn, fun _ _ => rfl⟩
  | @goBack front rest y hsplit =>
    rw [List.length_append, List.length_singleton] at hn'
    have hassoc : m.marks = front ++ [y] ++ rest := by simp [hsplit]
    constructor
    · have hle : n + 1 ≤ (front ++ [y]).length := by
        rw [List.length_append, List.length_singleton]
        exact hn'
      rw [hassoc, List.take_append_of_le_length hle]
    · intro x hx
      -- the mark is the one gone back to, or before it
      have hle : position x ≤ position y := by
        rw [hassoc, List.getElem?_append_left (by simpa using hn')] at hx
        rcases List.mem_append.1 (List.mem_of_getElem? hx) with hin | hself
        · exact hs.le_of_split hsplit hin
        · obtain rfl := List.mem_singleton.1 hself
          exact Nat.le_refl _
      rw [List.take_take, Nat.min_eq_left hle]

end MarkedLog

end DataAgentSystem.Containers
