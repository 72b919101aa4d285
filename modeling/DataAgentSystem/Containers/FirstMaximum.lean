import Mathlib.Data.List.Forall2
import Mathlib.Data.List.MinMax

/-! The first of the greatest elements of a list. What a scan from the front keeps is
the element that is above all before it and at least all after it; related lists
with the same values have it at the same place. -/

namespace DataAgentSystem.Containers

variable {α α' β : Type} [LinearOrder β] {f : α → β} {g : α' → β}
  {l : List α} {l' : List α'} {a m : α}

/-- The element is above those in front of it and at least those behind it. -/
def Leads (f : α → β) (l : List α) (a : α) : Prop :=
  ∃ front rest, l = front ++ a :: rest ∧ (∀ b ∈ front, f b < f a) ∧ ∀ b ∈ rest, f b ≤ f a

theorem leads_cons : Leads f (a :: l) m ↔ m = a ∧ (∀ b ∈ l, f b ≤ f a) ∨
    f a < f m ∧ Leads f l m := by
  constructor
  · rintro ⟨front, rest, hl, hfront, hrest⟩
    cases front with
    | nil =>
      obtain ⟨rfl, rfl⟩ := List.cons.inj hl
      exact .inl ⟨rfl, hrest⟩
    | cons b front =>
      obtain ⟨rfl, rfl⟩ := List.cons.inj hl
      rw [List.forall_mem_cons] at hfront
      exact .inr ⟨hfront.1, front, rest, rfl, hfront.2, hrest⟩
  · rintro (⟨rfl, hall⟩ | ⟨hbelow, front, rest, rfl, hfront, hrest⟩)
    · exact ⟨[], l, rfl, nofun, hall⟩
    · exact ⟨a :: front, rest, rfl, List.forall_mem_cons.2 ⟨hbelow, hfront⟩, hrest⟩

/-- So it is the one that the search for a greatest element returns. -/
theorem leads_iff_mem_argmax : Leads f l m ↔ m ∈ l.argmax f := by
  induction l generalizing m with
  | nil => exact iff_of_false (fun ⟨front, rest, hl, _⟩ => by simp at hl) nofun
  | cons a l ih =>
    rw [leads_cons, List.argmax_cons]
    cases hmax : l.argmax f with
    | none =>
      obtain rfl := List.argmax_eq_none.1 hmax
      have hnone : ¬Leads f [] m := fun h => by rw [ih, hmax] at h; cases h
      simp [hnone, eq_comm]
    | some c =>
      have hleads : Leads f l m ↔ m = c := by rw [ih, hmax, Option.mem_some, eq_comm]
      have hc : c ∈ l.argmax f := hmax
      rw [hleads]
      show _ ↔ m ∈ if f a < f c then some c else some a
      split
      next hlt =>
        have hno : ¬∀ b ∈ l, f b ≤ f a := fun h => absurd hlt (not_lt.2 (h c (List.argmax_mem hc)))
        rw [Option.mem_some, eq_comm (a := c)]
        constructor
        · rintro (⟨-, hall⟩ | ⟨-, rfl⟩)
          · exact absurd hall hno
          · rfl
        · rintro rfl
          exact .inr ⟨hlt, rfl⟩
      next hle =>
        have hall : ∀ b ∈ l, f b ≤ f a := fun b hb =>
          (List.le_of_mem_argmax hb hc).trans (not_lt.1 hle)
        rw [Option.mem_some, eq_comm (a := a)]
        constructor
        · rintro (⟨rfl, -⟩ | ⟨hlt, rfl⟩)
          · rfl
          · exact absurd hlt hle
        · rintro rfl
          exact .inl ⟨rfl, hall⟩

theorem Leads.mem (h : Leads f l m) : m ∈ l := List.argmax_mem (leads_iff_mem_argmax.1 h)

theorem Leads.unique (h : Leads f l m) (h' : Leads f l a) : m = a :=
  Option.mem_unique (leads_iff_mem_argmax.1 h) (leads_iff_mem_argmax.1 h')

theorem Leads.le {b : α} (h : Leads f l m) (hb : b ∈ l) : f b ≤ f m :=
  List.le_of_mem_argmax hb (leads_iff_mem_argmax.1 h)

/-- The leader has a property exactly if whoever lacks it has a better one with it beside
itself: in front no worse, behind strictly above. -/
theorem Leads.satisfies_iff (h : Leads f l m) (p : α → Prop) :
    p m ↔ ∀ front a rest, l = front ++ a :: rest → ¬p a → (∃ b ∈ front, p b ∧ f a ≤ f b) ∨
      ∃ b ∈ rest, p b ∧ f a < f b := by
  obtain ⟨before, behind, hl, hbefore, hbehind⟩ := h
  constructor
  · rintro hp front a rest rfl hlacks
    rcases List.append_eq_append_iff.1 hl with ⟨between, rfl, hrest⟩ | ⟨between, rfl, hrest⟩
    · cases between with
      | nil =>
        obtain ⟨rfl, -⟩ := List.cons.inj hrest
        exact absurd hp hlacks
      | cons b between =>
        -- the leader is behind
        obtain ⟨rfl, rfl⟩ := List.cons.inj hrest
        exact .inr ⟨m, by simp, hp, hbefore a (by simp)⟩
    · cases between with
      | nil =>
        obtain ⟨rfl, -⟩ := List.cons.inj hrest
        exact absurd hp hlacks
      | cons b between =>
        -- the leader is in front
        obtain ⟨rfl, rfl⟩ := List.cons.inj hrest
        exact .inl ⟨m, by simp, hp, hbehind a (by simp)⟩
  · intro hbetter
    by_contra hlacks
    rcases hbetter before m behind hl hlacks with ⟨b, hb, -, hle⟩ | ⟨b, hb, -, hlt⟩
    · exact absurd (hbefore b hb) (not_lt.2 hle)
    · exact absurd hlt (not_lt.2 (hbehind b hb))

theorem Leads.congr {g : α → β} (h : Leads f l m) (hfg : ∀ b ∈ l, f b = g b) : Leads g l m := by
  obtain ⟨front, rest, rfl, hfront, hrest⟩ := h
  have hm : f m = g m := hfg m (by simp)
  refine ⟨front, rest, rfl, fun b hb => ?_, fun b hb => ?_⟩
  · rw [← hm, ← hfg b (by simp [hb])]
    exact hfront b hb
  · rw [← hm, ← hfg b (by simp [hb])]
    exact hrest b hb

/-- Values decide the place, whatever else the elements are. -/
theorem rel_argmax {R : α → α' → Prop} (h : List.Forall₂ R l l') (hfg : ∀ a b, R a b → f a = g b) :
    Option.Rel R (l.argmax f) (l'.argmax g) := by
  induction h with
  | nil => exact .none
  | @cons a b l l' hab _ ih =>
    rw [List.argmax_cons, List.argmax_cons]
    generalize l.argmax f = found at ih
    generalize l'.argmax g = found' at ih
    cases ih with
    | none => exact .some hab
    | @some c d hcd =>
      show Option.Rel R (if f a < f c then some c else some a)
        (if g b < g d then some d else some b)
      rw [hfg a b hab, hfg c d hcd]
      split
      · exact .some hcd
      · exact .some hab

end DataAgentSystem.Containers
