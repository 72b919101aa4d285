import Mathlib.Data.List.Forall2
import Mathlib.Data.Option.Basic

/-! Lists of the same length whose elements are related place by place, and what can be
found in them: a search that the relation does not distinguish finds related elements. -/

namespace DataAgentSystem.Containers

variable {α β : Type} {R : α → β → Prop} {l : List α} {l' : List β} {p : α → Bool} {q : β → Bool}

theorem rel_find? (h : List.Forall₂ R l l') (hp : ∀ a b, R a b → p a = q b) :
    Option.Rel R (l.find? p) (l'.find? q) := by
  induction h with
  | nil => exact .none
  | @cons a b _ _ hab _ ih =>
    rw [List.find?_cons, List.find?_cons, hp a b hab]
    cases q b with
    | true => exact .some hab
    | false => exact ih

/-- The same from the back. -/
theorem rel_find?_reverse (h : List.Forall₂ R l l') (hp : ∀ a b, R a b → p a = q b) :
    Option.Rel R (l.reverse.find? p) (l'.reverse.find? q) :=
  rel_find? (List.forall₂_reverse_iff.2 h) hp

theorem exists_mem_of_forall₂ (h : List.Forall₂ R l l') {a : α} (ha : a ∈ l) : ∃ b ∈ l', R a b := by
  induction h with
  | nil => exact absurd ha List.not_mem_nil
  | @cons a' b l l' hab _ ih =>
    rcases List.mem_cons.1 ha with rfl | hrest
    · exact ⟨b, List.mem_cons_self, hab⟩
    · obtain ⟨b', hb', hab'⟩ := ih hrest
      exact ⟨b', List.mem_cons_of_mem _ hb', hab'⟩

theorem exists_forall₂_iff : (∃ l', List.Forall₂ R l l') ↔ ∀ a ∈ l, ∃ b, R a b := by
  constructor
  · rintro ⟨l', h⟩ a ha
    obtain ⟨b, -, hab⟩ := exists_mem_of_forall₂ h ha
    exact ⟨b, hab⟩
  · intro h
    induction l with
    | nil => exact ⟨[], .nil⟩
    | cons a l ih =>
      obtain ⟨⟨b, hab⟩, hrest⟩ := List.forall_mem_cons.1 h
      obtain ⟨l', hl'⟩ := ih hrest
      exact ⟨b :: l', .cons hab hl'⟩

theorem forall₂_snoc (h : List.Forall₂ R l l') {a : α} {b : β} (hab : R a b) :
    List.Forall₂ R (l ++ [a]) (l' ++ [b]) :=
  List.rel_append h (.cons hab .nil)

/-- A function of both elements that agrees on related ones gives one list. -/
theorem map_eq_of_forall₂ {γ : Type} {f : α → γ} {g : β → γ} (h : List.Forall₂ R l l')
    (hf : ∀ a b, R a b → f a = g b) : l.map f = l'.map g := by
  induction h with
  | nil => rfl
  | cons hab _ ih => rw [List.map_cons, List.map_cons, hf _ _ hab, ih]

theorem forall₂_map_right (h : List.Forall₂ R l l') {f : β → β} (hf : ∀ a b, R a b → R a (f b)) :
    List.Forall₂ R l (l'.map f) := List.forall₂_map_right_iff.2 (h.imp hf)

theorem forall₂_filterMap {γ : Type} {f : γ → Option α} {g : γ → Option β}
    (h : ∀ c, Option.Rel R (f c) (g c)) (l : List γ) :
    List.Forall₂ R (l.filterMap f) (l.filterMap g) :=
  List.rel_filterMap (fun c _ hc => hc ▸ h c) (List.forall₂_same.2 fun c _ => (rfl : c = c))

end DataAgentSystem.Containers
