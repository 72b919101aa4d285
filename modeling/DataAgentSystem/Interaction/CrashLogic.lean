import DataAgentSystem.Interaction.Interference

/-! A logic for programs that may crash between any two calls. A triple says that
an assertion holds at every such point and how the run ends; it is established
along the program, one rule for each construct. A run that is restarted any number
of times keeps every assertion that a single run keeps. -/

namespace DataAgentSystem.Interaction.Program

variable {Op : Type} {Resp : Op → Type} {W : Type} {α β : Type}

/-- From `w` the run of `p` keeps `I` at every point and ends as `Q` says. -/
structure Safely (h : Handler Op Resp W) (I : W → Prop) (p : Program Op Resp α)
    (w : W) (Q : α → W → Prop) :
    Prop where
  always : p.Always h I w
  ends : Q (p.run h w).1 (p.run h w).2

section Rules

variable {h : Handler Op Resp W} {I : W → Prop} {w : W}

theorem safely_ret {a : α} {Q : α → W → Prop} :
    (ret a : Program Op Resp α).Safely h I w Q ↔ I w ∧ Q a w :=
  ⟨fun hs => ⟨hs.always, hs.ends⟩, fun hs => ⟨hs.1, hs.2⟩⟩

theorem safely_call {op : Op} {next : Resp op → Program Op Resp α} {Q : α → W → Prop} :
    (call op next).Safely h I w Q ↔ I w ∧ (next (h op w).1).Safely h I (h op w).2 Q :=
  ⟨fun hs => ⟨hs.always.1, hs.always.2, hs.ends⟩, fun hs => ⟨⟨hs.1, hs.2.always⟩, hs.2.ends⟩⟩

theorem safely_bind {p : Program Op Resp α} {f : α → Program Op Resp β} {Q : β → W → Prop} :
    (p >>= f).Safely h I w Q ↔ p.Safely h I w fun a w => (f a).Safely h I w Q := by
  constructor
  · intro hs
    have halways := always_bind.1 hs.always
    have hends := hs.ends
    rw [run_bind] at hends
    exact ⟨halways.1, halways.2, hends⟩
  · intro hs
    refine ⟨always_bind.2 ⟨hs.always, hs.ends.always⟩, ?_⟩
    rw [run_bind]
    exact hs.ends.ends

theorem Safely.mono {p : Program Op Resp α} {Q Q' : α → W → Prop} (hs : p.Safely h I w Q)
    (hQ : ∀ a w, I w → Q a w → Q' a w) : p.Safely h I w Q' :=
  ⟨hs.always, hQ _ _ hs.always.finally hs.ends⟩

theorem Safely.weaken {J : W → Prop} {p : Program Op Resp α}
    {Q : α → W → Prop} (hs : p.Safely h I w Q) (hIJ : ∀ w, I w → J w) :
    p.Safely h J w Q := ⟨hs.always.mono hIJ, hs.ends⟩

/-- What holds of the world holds of it beside the list of calls. -/
theorem safely_logged_iff {p : Program Op Resp α} {Q : α → W → Prop} {calls : List Op} :
    p.Safely (logged h) (fun x => I x.1) (w, calls) (fun a x => Q a x.1) ↔ p.Safely h I w Q := by
  induction p generalizing w calls with
  | ret a => rw [safely_ret, safely_ret]
  | call op next ih =>
    rw [safely_call, safely_call]
    exact and_congr_right fun _ => ih _

/-- A run that nothing can take out of `I` any more. -/
theorem safely_of_stable {p : Program Op Resp α} (hstep : ∀ op w, I w → I (h op w).2) (hw : I w) :
    p.Safely h I w fun _ _ => True := ⟨always_of_stable hstep hw, trivial⟩

/-! ### Calls that only look -/

/-- No call of the undisturbed run changes the world. -/
def Looks (h : Handler Op Resp W) (p : Program Op Resp α) (w : W) : Prop :=
  ∀ e ∈ p.trace h w, e.after h = e.before

theorem looks_call {op : Op} {next : Resp op → Program Op Resp α} (hop : (h op w).2 = w)
    (hnext : (next (h op w).1).Looks h w) : (call op next).Looks h w := by
  intro e he
  rw [trace_call, hop] at he
  rcases List.mem_cons.1 he with rfl | he
  · exact hop
  · exact hnext e he

/-- A program whose calls never change anything. -/
theorem Only.looks {P : Op → Prop} {p : Program Op Resp α} (hp : p.Only P)
    (hP : ∀ op, P op → ∀ w, (h op w).2 = w) : p.Looks h w :=
  fun e he => hP e.op (hp.interfered (interfered_run p w) e he) e.before

theorem Looks.run_eq {p : Program Op Resp α} (hp : p.Looks h w) : (p.run h w).2 = w :=
  run_eq_of_trace id p w hp

theorem Looks.crash_eq {p : Program Op Resp α} (hp : p.Looks h w) (n : ℕ) : p.crash h n w = w := by
  induction p generalizing n with
  | ret a => simp [crash]
  | call op next ih =>
    have hop : (h op w).2 = w := hp ⟨op, w⟩ List.mem_cons_self
    cases n with
    | zero => rfl
    | succ n =>
      have hnext : (next (h op w).1).Looks h w := by
        intro e he
        refine hp e (List.mem_cons_of_mem _ ?_)
        rw [hop]
        exact he
      have hcrash := ih _ hnext n
      unfold crash at hcrash ⊢
      rw [advance_call, hop]
      exact hcrash

theorem Looks.safely {p : Program Op Resp α} {Q : α → W → Prop} (hp : p.Looks h w) (hI : I w)
    (hQ : Q (p.run h w).1 w) : p.Safely h I w Q := by
  constructor
  case always =>
    induction p with
    | ret a => exact hI
    | call op next ih =>
      have hop : (h op w).2 = w := hp ⟨op, w⟩ List.mem_cons_self
      refine ⟨hI, ?_⟩
      rw [run_call, hop] at hQ
      rw [hop]
      refine ih _ (fun e he => hp e (List.mem_cons_of_mem _ ?_)) hQ
      rw [hop]
      exact he
  case ends =>
    rw [hp.run_eq]
    exact hQ

/-- Looking, with the calls listed: the world stays, the list grows by looks. -/
theorem Only.safely_logged {P : Op → Prop} {p : Program Op Resp α} (hp : p.Only P) (calls : List Op)
    (hP : ∀ op, P op → (h op w).2 = w) :
    p.Safely (logged h) (fun x => x.1 = w ∧ ∃ looks, x.2 = calls ++ looks ∧
      ∀ op ∈ looks, P op) (w, calls)
      fun a _ => a = (p.run h w).1 := by
  constructor
  case always =>
    suffices hall : ∀ made, (∃ looks, made = calls ++ looks ∧ ∀ op ∈ looks, P op) →
        p.Always (logged h) (fun x => x.1 = w ∧ ∃ looks, x.2 = calls ++ looks ∧ ∀ op ∈ looks, P op)
          (w, made) from
      hall calls ⟨[], (List.append_nil _).symm, fun op hop => absurd hop List.not_mem_nil⟩
    induction p with
    | ret a => exact fun made hmade => ⟨rfl, hmade⟩
    | call op next ih =>
      intro made hmade
      refine ⟨⟨rfl, hmade⟩, ?_⟩
      obtain ⟨looks, rfl, hlooks⟩ := hmade
      simp only [logged_fst, logged_snd, hP op hp.1]
      refine ih _ (hp.2 _) _ ⟨looks ++ [op], List.append_assoc _ _ _, fun o ho => ?_⟩
      rcases List.mem_append.1 ho with hold | hnew
      · exact hlooks o hold
      · rw [List.mem_singleton.1 hnew]
        exact hp.1
  case ends => exact (run_logged p (w, calls)).1

end Rules

/-! ### Restarts -/

/-- The world after runs of `p`, each crashed after the given number of calls. -/
def crashes (h : Handler Op Resp W) (p : Program Op Resp α) : List ℕ → W → W
  | [], w => w
  | n :: ns, w => p.crashes h ns (p.crash h n w)

/-- What one run keeps, any number of crashed runs keep. -/
theorem crashes_keep {h : Handler Op Resp W} {p : Program Op Resp α} {I : W → Prop}
    (hp : ∀ w, I w → p.Always h I w) (ns : List ℕ) {w : W} (hw : I w) : I (p.crashes h ns w) := by
  induction ns generalizing w with
  | nil => exact hw
  | cons n ns ih => exact ih ((hp w hw).crash n)

end DataAgentSystem.Interaction.Program
