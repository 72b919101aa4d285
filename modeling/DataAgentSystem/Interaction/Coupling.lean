import DataAgentSystem.Interaction.Interference

/-! Two programs side by side. They are coupled if they make the same calls, whatever the
answers, and their results are related. Coupled programs meet the same worlds, so what is
known of the run of one is known of the other, up to the relation of the results. -/

namespace DataAgentSystem.Interaction.Program

variable {Op : Type} {Resp : Op → Type} {W : Type} {α β γ δ : Type}

/-- The programs make the same calls and end in related results. -/
inductive Coupled (R : α → β → Prop) : Program Op Resp α → Program Op Resp β → Prop
  | ret {a : α} {b : β} : R a b → Coupled R (.ret a) (.ret b)
  | call (op : Op) {next : Resp op → Program Op Resp α} {next' : Resp op → Program Op Resp β} :
      (∀ r, Coupled R (next r) (next' r)) → Coupled R (.call op next) (.call op next')

variable {R : α → β → Prop} {S : γ → δ → Prop} {p : Program Op Resp α} {q : Program Op Resp β}

theorem coupled_refl (p : Program Op Resp α) : Coupled Eq p p := by
  induction p with
  | ret a => exact .ret rfl
  | call op next ih => exact .call op ih

theorem Coupled.bind {f : α → Program Op Resp γ} {g : β → Program Op Resp δ} (h : Coupled R p q)
    (hf : ∀ a b, R a b → Coupled S (f a) (g b)) : Coupled S (p >>= f) (q >>= g) := by
  induction h with
  | ret hR => exact hf _ _ hR
  | call op _ ih => exact .call op ih

/-- The same program, continued in two ways. -/
theorem coupled_bind {p : Program Op Resp α} {f : α → Program Op Resp γ} {g : α → Program Op Resp δ}
    (hf : ∀ a, Coupled S (f a) (g a)) : Coupled S (p >>= f) (p >>= g) := by
  refine (coupled_refl p).bind ?_
  rintro a _ rfl
  exact hf a

/-- Whoever else acts, what one program does the other one can do, with a related result. -/
theorem Coupled.interfered {h : Handler Op Resp W} {es : List (Event Op W)}
    {a : α} (hpq : Coupled R p q) (hp : p.Interfered h es a) :
    ∃ b, q.Interfered h es b ∧ R a b := by
  induction hpq generalizing es with
  | ret hR =>
    obtain ⟨rfl, rfl⟩ := interfered_ret.1 hp
    exact ⟨_, .ret _, hR⟩
  | call op _ ih =>
    obtain ⟨w, rest, rfl, hrest⟩ := interfered_call.1 hp
    obtain ⟨b, hq, hR⟩ := ih _ hrest
    exact ⟨b, .call op _ w hq, hR⟩

end DataAgentSystem.Interaction.Program
