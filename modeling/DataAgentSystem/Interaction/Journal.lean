import Mathlib.Logic.Relation

/-! Journals. A system keeps a list of events, and a second system is built by playing
such a list. If each step records events whose playing keeps the two related, then
after any number of steps the second system, played from its beginning, is related
to the first. Which steps are taken and how they come about is left open. -/

namespace DataAgentSystem.Interaction

/-- Where a system keeps its events, and how they are played. -/
structure Journal (S E T : Type) where
  events : S → List E
  play : T → E → T

namespace Journal

variable {S E T : Type} (J : Journal S E T) {R : S → T → Prop} {step : S → S → Prop} {s s' s'' : S}

/-- What playing all events of the system makes of a beginning. -/
def replay (t : T) (s : S) : T := (J.events s).foldl J.play t

/-- The events recorded from one state to another do what was done. -/
def KeepsUp (R : S → T → Prop) (s s' : S) : Prop :=
  ∃ recorded, J.events s' = J.events s ++ recorded ∧ ∀ t, R s t → R s' (recorded.foldl J.play t)

variable {J}

theorem keepsUp_refl (R : S → T → Prop) (s : S) : J.KeepsUp R s s :=
  ⟨[], (List.append_nil _).symm, fun _ h => h⟩

theorem KeepsUp.trans (h : J.KeepsUp R s s') (h' : J.KeepsUp R s' s'') : J.KeepsUp R s s'' := by
  obtain ⟨recorded, hevents, hplay⟩ := h
  obtain ⟨recorded', hevents', hplay'⟩ := h'
  refine ⟨recorded ++ recorded', by rw [hevents', hevents, List.append_assoc], fun t ht => ?_⟩
  rw [List.foldl_append]
  exact hplay' _ (hplay t ht)

theorem keepsUp_of_event {e : E} (hevents : J.events s' = J.events s ++ [e])
    (h : ∀ t, R s t → R s' (J.play t e)) :
    J.KeepsUp R s s' := ⟨[e], hevents, h⟩

theorem KeepsUp.of_run (hrun : Relation.ReflTransGen step s s')
    (hstep : ∀ a b, step a b → J.KeepsUp R a b) :
    J.KeepsUp R s s' := by
  induction hrun with
  | refl => exact keepsUp_refl R s
  | tail _ hlast ih => exact ih.trans (hstep _ _ hlast)

/-- What was related to its replay still is. -/
theorem KeepsUp.replay (h : J.KeepsUp R s s') {t : T} (hs : R s (J.replay t s)) :
    R s' (J.replay t s') := by
  obtain ⟨recorded, hevents, hplay⟩ := h
  rw [Journal.replay, hevents, List.foldl_append]
  exact hplay _ hs

end Journal

end DataAgentSystem.Interaction
