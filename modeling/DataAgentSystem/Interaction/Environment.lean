import DataAgentSystem.Interaction.Interference

/-! Programs in an environment that need not be deterministic. An environment says
which responses a call may get and which worlds it may leave, so it can contain
foreign actors and calls that fail. A run is any sequence of answers the environment
may give; it need not be complete. An assertion that holds at every point of every
run is established along the program, one rule for each construct. -/

namespace DataAgentSystem.Interaction

variable {Op : Type} {Resp : Op → Type} {W : Type} {α β : Type}

/-- The responses and the worlds that a call may lead to. -/
abbrev Environment (Op : Type) (Resp : Op → Type) (W : Type) := (op : Op) → W → Resp op → W → Prop

/-- One call and the response to it. -/
structure Answer (Op : Type) (Resp : Op → Type) where
  op : Op
  resp : Resp op

/-- The environment that remembers the answers it gave. -/
def Environment.remembering (env : Environment Op Resp W) :
    Environment Op Resp (W × List (Answer Op Resp)) :=
  fun op x r y => env op x.1 r y.1 ∧ y.2 = x.2 ++ [⟨op, r⟩]

/-- The answers that a handler gives are among those of the environment. -/
def Environment.Allows (env : Environment Op Resp W) (h : Handler Op Resp W) : Prop :=
  ∀ op w, env op w (h op w).1 (h op w).2

namespace Program

variable {env : Environment Op Resp W}

/-- `Reaches env p w answers q w'`: from `w` the program `p` got the answers and is
now at `q`, in the world `w'`. -/
inductive Reaches (env : Environment Op Resp W) :
    Program Op Resp α → W → List (Answer Op Resp) → Program Op Resp α → W → Prop
  | here (p : Program Op Resp α) (w : W) : Reaches env p w [] p w
  | call {op : Op} {next : Resp op → Program Op Resp α} {w w₁ w' : W} {r : Resp op}
      {answers : List (Answer Op Resp)}
      {q : Program Op Resp α} :
      env op w r w₁ → Reaches env (next r) w₁ answers q w' →
        Reaches env (.call op next) w (⟨op, r⟩ :: answers) q w'

theorem Reaches.trans {p q s : Program Op Resp α} {w w₁ w₂ : W}
    {answers answers' : List (Answer Op Resp)} (h : p.Reaches env w answers q w₁)
    (h' : q.Reaches env w₁ answers' s w₂) :
    p.Reaches env w (answers ++ answers') s w₂ := by
  induction h with
  | here p w => exact h'
  | call hcall _ ih => exact .call hcall (ih h')

theorem Reaches.bind {p q : Program Op Resp α} {w w' : W} {answers : List (Answer Op Resp)}
    (h : p.Reaches env w answers q w') (f : α → Program Op Resp β) :
    (p >>= f).Reaches env w answers (q >>= f) w' := by
  induction h with
  | here p w => exact .here _ _
  | call hcall _ ih => exact .call hcall ih

/-- A run goes on with what a program does with its result. -/
theorem Reaches.andThen {p : Program Op Resp α} {f : α → Program Op Resp β}
    {q : Program Op Resp β} {a : α} {w w₁ w' : W} {answers answers' : List (Answer Op Resp)}
    (h : p.Reaches env w answers (ret a) w₁) (h' : (f a).Reaches env w₁ answers' q w') :
    (p >>= f).Reaches env w (answers ++ answers') q w' :=
  (h.bind f).trans h'

theorem Only.reaches {P : Op → Prop} {p q : Program Op Resp α} {w w' : W}
    {answers : List (Answer Op Resp)} (hp : p.Only P) (h : p.Reaches env w answers q w') :
    ∀ answer ∈ answers, P answer.op := by
  induction h with
  | here p w => exact fun answer hanswer => absurd hanswer List.not_mem_nil
  | call _ _ ih => exact List.forall_mem_cons.2 ⟨hp.1, ih (hp.2 _)⟩

theorem Returns.reaches {P : α → Prop} {p : Program Op Resp α} {a : α} {w w' : W}
    {answers : List (Answer Op Resp)} (hp : p.Returns P)
    (h : p.Reaches env w answers (ret a) w') : P a := by
  generalize hq : (ret a : Program Op Resp α) = q at h
  induction h with
  | here p w =>
    subst hq
    exact hp
  | call _ _ ih => exact ih (hp _) hq

/-- In some run the program gets the answer. -/
def MayGet (env : Environment Op Resp W) (p : Program Op Resp α) (w : W)
    (answer : Answer Op Resp) : Prop :=
  ∃ answers q w', p.Reaches env w answers q w' ∧ answer ∈ answers

theorem mayGet_call {op : Op} {next : Resp op → Program Op Resp α} {w : W}
    {answer : Answer Op Resp} :
    (call op next).MayGet env w answer ↔
      ∃ r w', env op w r w' ∧ (answer = ⟨op, r⟩ ∨ (next r).MayGet env w' answer) := by
  constructor
  · rintro ⟨answers, q, w', hrun, hanswer⟩
    cases hrun with
    | here p w => exact absurd hanswer List.not_mem_nil
    | call hcall hrest =>
      refine ⟨_, _, hcall, ?_⟩
      rcases List.mem_cons.1 hanswer with rfl | hanswer
      · exact .inl rfl
      · exact .inr ⟨_, _, _, hrest, hanswer⟩
  · rintro ⟨r, w', hcall, rfl | ⟨answers, q, w'', hrest, hanswer⟩⟩
    · exact ⟨_, _, _, .call hcall (.here _ _), List.mem_cons_self⟩
    · exact ⟨_, _, _, .call hcall hrest, List.mem_cons_of_mem _ hanswer⟩

theorem MayGet.bind {p : Program Op Resp α} {w : W} {answer : Answer Op Resp}
    (h : p.MayGet env w answer) (f : α → Program Op Resp β) : (p >>= f).MayGet env w answer := by
  obtain ⟨answers, q, w', hrun, hanswer⟩ := h
  exact ⟨answers, _, w', hrun.bind f, hanswer⟩

theorem Reaches.mayGet {p : Program Op Resp α} {f : α → Program Op Resp β} {a : α} {w w₁ : W}
    {answers : List (Answer Op Resp)} {answer : Answer Op Resp}
    (h : p.Reaches env w answers (ret a) w₁) (h' : (f a).MayGet env w₁ answer) :
    (p >>= f).MayGet env w answer := by
  obtain ⟨answers', q, w', hrun, hanswer⟩ := h'
  exact ⟨_, q, w', h.andThen hrun, List.mem_append_right _ hanswer⟩

theorem Only.mayGet {P : Op → Prop} {p : Program Op Resp α} {w : W} {answer : Answer Op Resp}
    (hp : p.Only P) (h : p.MayGet env w answer) : P answer.op := by
  obtain ⟨answers, q, w', hrun, hanswer⟩ := h
  exact hp.reaches hrun answer hanswer

/-- What happens is not changed by remembering it. -/
theorem Reaches.remembering {p q : Program Op Resp α} {w w' : W} {answers : List (Answer Op Resp)}
    (h : p.Reaches env w answers q w') (earlier : List (Answer Op Resp)) :
    p.Reaches env.remembering (w, earlier) answers q (w', earlier ++ answers) := by
  induction h generalizing earlier with
  | here p w =>
    rw [List.append_nil]
    exact .here _ _
  | @call op next w w₁ w' r answers q hcall _ ih =>
    have hrest := ih (earlier ++ [⟨op, r⟩])
    rw [List.append_assoc, List.singleton_append] at hrest
    exact .call ⟨hcall, rfl⟩ hrest

/-! ### Runs that are given by handlers -/

/-- The undisturbed run is one of the runs of an environment that allows it. -/
theorem reaches_run {h : Handler Op Resp W} (henv : env.Allows h) (p : Program Op Resp α) (w : W) :
    ∃ answers, p.Reaches env w answers (ret (p.run h w).1) (p.run h w).2 := by
  induction p generalizing w with
  | ret a => exact ⟨[], .here _ _⟩
  | call op next ih =>
    obtain ⟨answers, hrest⟩ := ih (h op w).1 (h op w).2
    exact ⟨_, .call (henv op w) hrest⟩

/-- One call for each handler of the script, which answers it. -/
def follow : List (Handler Op Resp W) → Program Op Resp α → W →
    List (Answer Op Resp) × Program Op Resp α × W
  | [], p, w => ([], p, w)
  | _ :: _, .ret a, w => ([], .ret a, w)
  | h :: script, .call op next, w =>
    let rest := (next (h op w).1).follow script (h op w).2
    (⟨op, (h op w).1⟩ :: rest.1, rest.2)

theorem reaches_follow (script : List (Handler Op Resp W)) (hscript : ∀ h ∈ script, env.Allows h)
    (p : Program Op Resp α) (w : W) :
    p.Reaches env w (p.follow script w).1 (p.follow script w).2.1 (p.follow script w).2.2 := by
  induction script generalizing p w with
  | nil => exact .here _ _
  | cons h script ih =>
    rw [List.forall_mem_cons] at hscript
    cases p with
    | ret a => exact .here _ _
    | call op next => exact .call (hscript.1 op w) (ih hscript.2 _ _)

/-! ### Assertions at every point of every run -/

/-- From `w` every run of `p` keeps `I` at every point and ends as `Q` says. -/
def Withstands (env : Environment Op Resp W) (I : W → Prop) :
    Program Op Resp α → W → (α → W → Prop) → Prop
  | .ret a, w, Q => I w ∧ Q a w
  | .call op next, w, Q => I w ∧ ∀ r w', env op w r w' → (next r).Withstands env I w' Q

section Rules

variable {I J : W → Prop} {w : W}

@[simp] theorem withstands_ret {a : α} {Q : α → W → Prop} :
    (ret a : Program Op Resp α).Withstands env I w Q ↔ I w ∧ Q a w := Iff.rfl

@[simp] theorem withstands_call {op : Op} {next : Resp op → Program Op Resp α} {Q : α → W → Prop} :
    (call op next).Withstands env I w Q ↔ I w ∧ ∀ r w', env op w r w' →
      (next r).Withstands env I w' Q := Iff.rfl

theorem Withstands.now {p : Program Op Resp α} {Q : α → W → Prop}
    (h : p.Withstands env I w Q) : I w := by
  cases p with
  | ret a => exact h.1
  | call op next => exact h.1

theorem withstands_bind {p : Program Op Resp α} {f : α → Program Op Resp β} {Q : β → W → Prop} :
    (p >>= f).Withstands env I w Q ↔ p.Withstands env I w fun a w' =>
      (f a).Withstands env I w' Q := by
  induction p generalizing w with
  | ret a => exact ⟨fun h => ⟨h.now, h⟩, And.right⟩
  | call op next ih => simp only [call_bind, withstands_call, ih]

theorem Withstands.mono {p : Program Op Resp α} {Q Q' : α → W → Prop} (h : p.Withstands env I w Q)
    (hQ : ∀ a w, I w → Q a w → Q' a w) : p.Withstands env I w Q' := by
  induction p generalizing w with
  | ret a => exact ⟨h.1, hQ a w h.1 h.2⟩
  | call op next ih => exact ⟨h.1, fun r w' hcall => ih r (h.2 r w' hcall)⟩

theorem Withstands.weaken {p : Program Op Resp α} {Q : α → W → Prop} (h : p.Withstands env I w Q)
    (hIJ : ∀ w, I w → J w) : p.Withstands env J w Q := by
  induction p generalizing w with
  | ret a => exact ⟨hIJ w h.1, h.2⟩
  | call op next ih => exact ⟨hIJ w h.1, fun r w' hcall => ih r (h.2 r w' hcall)⟩

/-- An assertion that none of the calls of a program can break. -/
theorem Only.withstands {P : Op → Prop} {p : Program Op Resp α} (hp : p.Only P)
    (hstep : ∀ op, P op → ∀ w r w', env op w r w' → I w → I w') (hw : I w) :
    p.Withstands env I w fun _ _ => True := by
  induction p generalizing w with
  | ret a => exact ⟨hw, trivial⟩
  | call op next ih => exact ⟨hw, fun r w' hcall => ih r (hp.2 r) (hstep op hp.1 w r w' hcall hw)⟩

theorem withstands_true (p : Program Op Resp α) (w : W) :
    p.Withstands env (fun _ => True) w fun _ _ => True := by
  induction p generalizing w with
  | ret a => exact ⟨trivial, trivial⟩
  | call op next ih => exact ⟨trivial, fun r w' _ => ih r w'⟩

/-- What a program can return, it returns here. -/
theorem Withstands.returns {P : α → Prop} {p : Program Op Resp α} {Q : α → W → Prop}
    (h : p.Withstands env I w Q) (hp : p.Returns P) :
    p.Withstands env I w fun a w => P a ∧ Q a w := by
  induction p generalizing w with
  | ret a => exact ⟨h.1, hp, h.2⟩
  | call op next ih => exact ⟨h.1, fun r w' hcall => ih r (h.2 r w' hcall) (hp r)⟩

/-- Where a run has got to, the rest of the program withstands as well. -/
theorem Withstands.reaches {p q : Program Op Resp α} {Q : α → W → Prop} {w' : W}
    {answers : List (Answer Op Resp)} (h : p.Withstands env I w Q)
    (hrun : p.Reaches env w answers q w') : q.Withstands env I w' Q := by
  induction hrun with
  | here p w => exact h
  | call hcall _ ih => exact ih (h.2 _ _ hcall)

/-- An assertion about the world does not depend on what is remembered. -/
theorem Withstands.remembering {p : Program Op Resp α} {Q : α → W → Prop}
    (h : p.Withstands env I w Q) (earlier : List (Answer Op Resp)) :
    p.Withstands env.remembering (fun x => I x.1) (w, earlier) fun a x => Q a x.1 := by
  suffices hall : ∀ x : W × List (Answer Op Resp), x.1 = w →
      p.Withstands env.remembering (fun x => I x.1) x fun a x => Q a x.1 from hall _ rfl
  induction p generalizing w with
  | ret a =>
    rintro x rfl
    exact h
  | call op next ih =>
    rintro x rfl
    exact ⟨h.1, fun r y hcall => ih r (h.2 r y.1 hcall.1) y rfl⟩

/-- How a complete run has ended. -/
theorem Withstands.ends {p : Program Op Resp α} {Q : α → W → Prop} {a : α} {w' : W}
    {answers : List (Answer Op Resp)} (h : p.Withstands env I w Q)
    (hrun : p.Reaches env w answers (ret a) w') : Q a w' := (h.reaches hrun).2

end Rules

end Program

end DataAgentSystem.Interaction
