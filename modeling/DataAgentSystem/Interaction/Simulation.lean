import DataAgentSystem.Interaction.Interference

/-! Two worlds that answer alike. A relation between the worlds of two handlers that every
call keeps, and under which both give the same answer, cannot be told by any program: the
program makes the same calls, returns the same, and is at the same point after the same
number of calls, also among the calls of others. -/

namespace DataAgentSystem.Interaction

variable {Op : Type} {Resp : Op → Type} {W W' : Type} {α : Type}

/-- Related worlds answer the calls alike and are related afterwards. -/
def Simulates (h : Handler Op Resp W) (h' : Handler Op Resp W') (P : Op → Prop)
    (R : W → W' → Prop) : Prop :=
  ∀ op w w', P op → R w w' → (h op w).1 = (h' op w').1 ∧ R (h op w).2 (h' op w').2

/-- The world after the calls of others. -/
def callAll (h : Handler Op Resp W) (ops : List Op) (w : W) : W :=
  ops.foldl (fun w op => (h op w).2) w

variable {h : Handler Op Resp W} {h' : Handler Op Resp W'} {P : Op → Prop} {R : W → W' → Prop}

theorem Simulates.callAll (hs : Simulates h h' P R) {ops : List Op} (hops : ∀ op ∈ ops, P op)
    {w : W} {w' : W'} (hR : R w w') : R (callAll h ops w) (callAll h' ops w') := by
  induction ops generalizing w w' with
  | nil => exact hR
  | cons op ops ih =>
    rw [List.forall_mem_cons] at hops
    exact ih hops.2 (hs op w w' hops.1 hR).2

/-- Runs among others, who make the same calls in both worlds, return the same and end in
related worlds. -/
theorem Simulates.advanceWith (hs : Simulates h h' P R) (schedule : List (List Op))
    (hschedule : ∀ calls ∈ schedule, ∀ op ∈ calls, P op) {p : Program Op Resp α}
    (hp : p.Only P) {w : W} {w' : W'} (hR : R w w') :
    (p.advanceWith h (schedule.map (Interaction.callAll h)) w).1 =
        (p.advanceWith h' (schedule.map (Interaction.callAll h')) w').1 ∧
      R (p.advanceWith h (schedule.map (Interaction.callAll h)) w).2
        (p.advanceWith h' (schedule.map (Interaction.callAll h')) w').2 := by
  induction schedule generalizing p w w' with
  | nil => exact ⟨rfl, hR⟩
  | cons calls schedule ih =>
    rw [List.forall_mem_cons] at hschedule
    cases p with
    | ret a => exact ⟨rfl, hR⟩
    | call op next =>
      obtain ⟨hanswer, hrelated⟩ := hs op _ _ hp.1 (hs.callAll hschedule.1 hR)
      rw [List.map_cons, List.map_cons, Program.advanceWith_call,
        Program.advanceWith_call, ← hanswer]
      exact ih hschedule.2 (hp.2 _) hrelated

/-- What every call keeps, a run among others keeps. -/
theorem keeps_advanceWith {I : W → Prop} (hkeep : ∀ op w, P op → I w → I (h op w).2)
    (schedule : List (List Op)) (hschedule : ∀ calls ∈ schedule, ∀ op ∈ calls, P op)
    {p : Program Op Resp α} (hp : p.Only P) {w : W} (hw : I w) :
    I (p.advanceWith h (schedule.map (Interaction.callAll h)) w).2 := by
  have hs : Simulates h h P fun w w' => w = w' ∧ I w := by
    rintro op w _ hop ⟨rfl, hw⟩
    exact ⟨rfl, rfl, hkeep op w hop hw⟩
  exact (hs.advanceWith schedule hschedule hp ⟨rfl, hw⟩).2.2

end DataAgentSystem.Interaction
