import Mathlib.Data.List.Induction
import Mathlib.Data.List.TakeWhile

/-! Lists with some entries left out, of which only the first entry of a key counts.
An entry may be left out if its key is one of the forgotten ones, or if an earlier
entry of that key is there. Of the other keys the same entries are found, and the
lists may be cut before such an entry. -/

namespace DataAgentSystem.Containers

variable {α κ : Type} {key : α → κ} {D : κ → Prop} {l l' : List α}

/-- The first list is the second one with entries left out. -/
inductive Thinned (key : α → κ) (D : κ → Prop) : List α → List α → Prop
  | nil : Thinned key D [] []
  | keep {l l' : List α} (a : α) : Thinned key D l l' → Thinned key D (l ++ [a]) (l' ++ [a])
  | leaveOut {l l' : List α} {a : α} : D (key a) ∨ (∃ b ∈ l, key b = key a) → Thinned key D l l' →
      Thinned key D l (l' ++ [a])

theorem Thinned.refl (key : α → κ) (D : κ → Prop) (l : List α) : Thinned key D l l := by
  induction l using List.reverseRecOn with
  | nil => exact .nil
  | append_singleton l a ih => exact .keep a ih

/-- More entries may be left out at the end. -/
theorem Thinned.append (h : Thinned key D l l') {rest : List α}
    (hrest : ∀ a ∈ rest, D (key a) ∨ ∃ b ∈ l, key b = key a) : Thinned key D l (l' ++ rest) := by
  induction rest using List.reverseRecOn with
  | nil =>
    rw [List.append_nil]
    exact h
  | append_singleton rest a ih =>
    rw [← List.append_assoc]
    exact .leaveOut (hrest a (by simp)) (ih fun b hb => hrest b (List.mem_append_left _ hb))

variable [DecidableEq κ] {k : κ}

theorem Thinned.find? (h : Thinned key D l l') (hk : ¬D k) :
    l.find? (fun a => key a = k) = l'.find? (fun a => key a = k) := by
  induction h with
  | nil => rfl
  | keep a _ ih => rw [List.find?_append, List.find?_append, ih]
  | @leaveOut l l' a hout _ ih =>
    rw [List.find?_append, ← ih]
    by_cases ha : key a = k
    · obtain ⟨b, hb, hkey⟩ := hout.resolve_left fun hD => hk (ha ▸ hD)
      have hfound : (l.find? fun a => key a = k).isSome = true := by
        rw [List.find?_isSome]
        exact ⟨b, hb, by simpa using hkey.trans ha⟩
      obtain ⟨found, hfound⟩ := Option.isSome_iff_exists.1 hfound
      rw [hfound, Option.some_or]
    · rw [List.find?_cons_of_neg (by simpa using ha), List.find?_nil, Option.or_none]

/-- The part before the first entry of a key, when one entry more is there. -/
theorem takeWhile_key_snoc (l : List α) (a : α) : (l ++ [a]).takeWhile (fun b => key b ≠ k) =
    if l.find? (fun b => key b = k) = none ∧ key a ≠ k then l ++ [a]
    else l.takeWhile fun b => key b ≠ k := by
  induction l with
  | nil =>
    by_cases ha : key a = k
    · simp [ha]
    · simp [ha]
  | cons b l ih =>
    by_cases hb : key b = k
    · simp [hb]
    · rw [List.cons_append, List.takeWhile_cons_of_pos (by simpa using hb), ih,
        List.takeWhile_cons_of_pos (by simpa using hb), List.find?_cons_of_neg (by simpa using hb)]
      split <;> rfl

theorem takeWhile_key_of_none (h : l.find? (fun a => key a = k) = none) :
    l.takeWhile (fun a => key a ≠ k) = l := by
  rw [List.takeWhile_eq_self_iff]
  intro a ha
  simpa using List.find?_eq_none.1 h a ha

theorem Thinned.takeWhile (h : Thinned key D l l') (hk : ¬D k) :
    Thinned key D (l.takeWhile fun a => key a ≠ k) (l'.takeWhile fun a => key a ≠ k) := by
  induction h with
  | nil => exact .nil
  | @keep l l' a hrest ih =>
    rw [takeWhile_key_snoc, takeWhile_key_snoc, hrest.find? hk]
    split
    · exact .keep a hrest
    · exact ih
  | @leaveOut l l' a hout hrest ih =>
    rw [takeWhile_key_snoc, ← hrest.find? hk]
    split
    next hnone =>
      rw [takeWhile_key_of_none hnone.1]
      exact .leaveOut hout hrest
    · exact ih

end DataAgentSystem.Containers
