import DataAgentSystem.Interaction.Interference

/-! Contracts between a program and its surroundings. A contract says what a program may
assume of the answers it gets, and what it guarantees of the calls it makes. A program
that meets a contract keeps every invariant of the world that the contract sustains, and
among other actors it does so as long as these keep the invariant too. -/

namespace DataAgentSystem.Interaction

variable {Op : Type} {Resp : Op → Type} {W : Type} {α β : Type}

structure Contract (Op : Type) (Resp : Op → Type) where
  Guarantees : Op → Prop
  Assumes : (op : Op) → Resp op → Prop

/-- In a world where the invariant holds the answers are as assumed, and calls as guaranteed
keep it. -/
structure Contract.Sustains (c : Contract Op Resp) (h : Handler Op Resp W)
    (I : W → Prop) : Prop where
  assumes : ∀ op w, I w → c.Assumes op (h op w).1
  kept : ∀ op w, c.Guarantees op → I w → I (h op w).2

namespace Program

variable {c : Contract Op Resp} {h : Handler Op Resp W} {I : W → Prop} {Q : α → Prop}

/-- As long as the answers are as assumed, the calls are as guaranteed, and the result satisfies
`Q`. -/
def Meets (c : Contract Op Resp) (Q : α → Prop) : Program Op Resp α → Prop
  | .ret a => Q a
  | .call op next => c.Guarantees op ∧ ∀ r, c.Assumes op r → (next r).Meets c Q

@[simp] theorem meets_ret {a : α} : (ret a : Program Op Resp α).Meets c Q ↔ Q a := Iff.rfl

@[simp] theorem meets_call {op : Op} {next : Resp op → Program Op Resp α} :
    (call op next).Meets c Q ↔ c.Guarantees op ∧ ∀ r, c.Assumes op r → (next r).Meets c Q := Iff.rfl

theorem Meets.mono {R : α → Prop} {p : Program Op Resp α} (hp : p.Meets c Q)
    (hQR : ∀ a, Q a → R a) : p.Meets c R := by
  induction p with
  | ret a => exact hQR a hp
  | call op next ih => exact ⟨hp.1, fun r hr => ih r (hp.2 r hr)⟩

theorem Meets.bind {R : β → Prop} {p : Program Op Resp α} {f : α → Program Op Resp β}
    (hp : p.Meets c Q) (hf : ∀ a, Q a → (f a).Meets c R) : (p >>= f).Meets c R := by
  induction p with
  | ret a => exact hf a hp
  | call op next ih => exact ⟨hp.1, fun r hr => ih r (hp.2 r hr)⟩

/-- What a program returns in any case, it returns here. -/
theorem Meets.returns {R : α → Prop} {p : Program Op Resp α} (hp : p.Meets c Q) (hR : p.Returns R) :
    p.Meets c fun a => Q a ∧ R a := by
  induction p with
  | ret a => exact ⟨hp, hR⟩
  | call op next ih => exact ⟨hp.1, fun r hr => ih r (hp.2 r hr) (hR r)⟩

/-- Calls that are always allowed need no assumption. -/
theorem Only.meets {p : Program Op Resp α} (hp : p.Only c.Guarantees) :
    p.Meets c fun _ => True := by
  induction p with
  | ret a => trivial
  | call op next ih => exact ⟨hp.1, fun r _ => ih r (hp.2 r)⟩

/-- A run among other actors keeps the invariant if they do. -/
theorem Meets.interfered {p : Program Op Resp α} {es : List (Event Op W)} {a : α}
    (hp : p.Meets c Q) (hc : c.Sustains h I) (hi : p.Interfered h es a)
    (hothers : ∀ e ∈ es, I e.before) : Q a ∧ ∀ e ∈ es, I (e.after h) := by
  induction hi with
  | ret a => exact ⟨hp, fun e he => absurd he List.not_mem_nil⟩
  | call op next w _ ih =>
    rw [List.forall_mem_cons] at hothers
    obtain ⟨hQ, hafter⟩ := ih (hp.2 _ (hc.assumes op w hothers.1)) hothers.2
    exact ⟨hQ, List.forall_mem_cons.2 ⟨hc.kept op w hp.1 hothers.1, hafter⟩⟩

end Program

end DataAgentSystem.Interaction
