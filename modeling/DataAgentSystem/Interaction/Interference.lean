import DataAgentSystem.Interaction.Program

/-! Programs among other actors. Between two calls of a program anybody else may
change the world. A trace lists the calls of one program together with the world
each call met; nothing relates the worlds of neighbouring calls, so a statement
about every interfered run covers every behaviour of the other actors. A schedule
of foreign moves, one before each call, gives the executable reading. -/

namespace DataAgentSystem.Interaction

variable {Op : Type} {Resp : Op → Type} {W : Type} {α β : Type}

/-- One call and the world it met. -/
structure Event (Op W : Type) where
  op : Op
  before : W

namespace Event

variable (h : Handler Op Resp W)

def resp (e : Event Op W) : Resp e.op := (h e.op e.before).1

def after (e : Event Op W) : W := (h e.op e.before).2

end Event

namespace Program

/-- `Interfered h p es a`: among other actors, `p` can make exactly the calls `es`
and return `a`. -/
inductive Interfered (h : Handler Op Resp W) : Program Op Resp α → List (Event Op W) → α → Prop
  | ret (a : α) : Interfered h (.ret a) [] a
  | call (op : Op) (next : Resp op → Program Op Resp α) (w : W) {es : List (Event Op W)} {a : α} :
      Interfered h (next (h op w).1) es a → Interfered h (.call op next) (⟨op, w⟩ :: es) a

variable {h : Handler Op Resp W}

@[simp] theorem interfered_ret {a b : α} {es : List (Event Op W)} :
    (ret a : Program Op Resp α).Interfered h es b ↔ es = [] ∧ a = b := by
  constructor
  · rintro ⟨⟩
    exact ⟨rfl, rfl⟩
  · rintro ⟨rfl, rfl⟩
    exact .ret a

theorem interfered_call {op : Op} {next : Resp op → Program Op Resp α}
    {es : List (Event Op W)} {a : α} :
    (call op next).Interfered h es a ↔
      ∃ w rest, es = ⟨op, w⟩ :: rest ∧ (next (h op w).1).Interfered h rest a := by
  constructor
  · intro hi
    cases hi with
    | call op next w hrest => exact ⟨w, _, rfl, hrest⟩
  · rintro ⟨w, rest, rfl, hrest⟩
    exact .call op next w hrest

/-- A program that makes no calls has returned. -/
theorem interfered_nil {p : Program Op Resp α} {a : α} : p.Interfered h [] a ↔ p = .ret a := by
  constructor
  · intro hi
    cases hi
    rfl
  · rintro rfl
    exact .ret a

theorem interfered_bind {p : Program Op Resp α} {f : α → Program Op Resp β}
    {es : List (Event Op W)} {b : β} :
    (p >>= f).Interfered h es b ↔
      ∃ es₁ a es₂, es = es₁ ++ es₂ ∧ p.Interfered h es₁ a ∧ (f a).Interfered h es₂ b := by
  induction p generalizing es with
  | ret a =>
    simp only [ret_bind, interfered_ret]
    constructor
    · intro hf
      exact ⟨[], a, es, rfl, ⟨rfl, rfl⟩, hf⟩
    · rintro ⟨_, _, es₂, rfl, ⟨rfl, rfl⟩, hf⟩
      exact hf
  | call op next ih =>
    simp only [call_bind, interfered_call, ih]
    constructor
    · rintro ⟨w, _, rfl, es₁, a, es₂, rfl, hp, hf⟩
      exact ⟨⟨op, w⟩ :: es₁, a, es₂, rfl, ⟨w, es₁, rfl, hp⟩, hf⟩
    · rintro ⟨_, a, es₂, rfl, ⟨w, rest, rfl, hp⟩, hf⟩
      exact ⟨w, rest ++ es₂, rfl, rest, a, es₂, rfl, hp, hf⟩

/-- Every call the program can ever make satisfies `P`. -/
def Only (P : Op → Prop) : Program Op Resp α → Prop
  | .ret _ => True
  | .call op next => P op ∧ ∀ r, (next r).Only P

@[simp] theorem only_ret {P : Op → Prop} (a : α) : (ret a : Program Op Resp α).Only P := trivial

@[simp] theorem only_call {P : Op → Prop} {op : Op} {next : Resp op → Program Op Resp α} :
    (call op next).Only P ↔ P op ∧ ∀ r, (next r).Only P := Iff.rfl

theorem only_true (p : Program Op Resp α) : p.Only fun _ => True := by
  induction p with
  | ret a => trivial
  | call op next ih => exact ⟨trivial, ih⟩

theorem Only.mono {P Q : Op → Prop} {p : Program Op Resp α} (hp : p.Only P)
    (hPQ : ∀ op, P op → Q op) : p.Only Q := by
  induction p with
  | ret a => trivial
  | call op next ih => exact ⟨hPQ op hp.1, fun r => ih r (hp.2 r)⟩

theorem only_bind {P : Op → Prop} {p : Program Op Resp α} {f : α → Program Op Resp β}
    (hp : p.Only P) (hf : ∀ a, (f a).Only P) : (p >>= f).Only P := by
  induction p with
  | ret a => exact hf a
  | call op next ih => exact ⟨hp.1, fun r => ih r (hp.2 r)⟩

theorem Only.interfered {P : Op → Prop} {p : Program Op Resp α} {es : List (Event Op W)} {a : α}
    (hp : p.Only P) (hi : p.Interfered h es a) : ∀ e ∈ es, P e.op := by
  induction hi with
  | ret a => exact fun e he => absurd he List.not_mem_nil
  | call op next w _ ih => exact List.forall_mem_cons.2 ⟨hp.1, ih (hp.2 _)⟩

/-- Everything the program can ever return satisfies `P`. -/
def Returns (P : α → Prop) : Program Op Resp α → Prop
  | .ret a => P a
  | .call _ next => ∀ r, (next r).Returns P

@[simp] theorem returns_ret {P : α → Prop} {a : α} :
    (ret a : Program Op Resp α).Returns P ↔ P a := Iff.rfl

@[simp] theorem returns_call {P : α → Prop} {op : Op} {next : Resp op → Program Op Resp α} :
    (call op next).Returns P ↔ ∀ r, (next r).Returns P := Iff.rfl

theorem returns_true (p : Program Op Resp α) : p.Returns fun _ => True := by
  induction p with
  | ret a => trivial
  | call op next ih => exact ih

theorem Returns.mono {P Q : α → Prop} {p : Program Op Resp α}
    (hp : p.Returns P) (hPQ : ∀ a, P a → Q a) :
    p.Returns Q := by
  induction p with
  | ret a => exact hPQ a hp
  | call op next ih => exact fun r => ih r (hp r)

theorem Returns.bind {P : α → Prop} {Q : β → Prop} {p : Program Op Resp α}
    {f : α → Program Op Resp β} (hp : p.Returns P) (hf : ∀ a, P a → (f a).Returns Q) :
    (p >>= f).Returns Q := by
  induction p with
  | ret a => exact hf a hp
  | call op next ih => exact fun r => ih r (hp r)

theorem Returns.interfered {P : α → Prop} {p : Program Op Resp α} {es : List (Event Op W)} {a : α}
    (hp : p.Returns P) (hi : p.Interfered h es a) : P a := by
  induction hi with
  | ret a => exact hp
  | call op next w _ ih => exact ih (hp _)

/-- Every call the program can make satisfies `P`, and everything it can return `Q`. -/
def Abides (P : Op → Prop) (Q : α → Prop) : Program Op Resp α → Prop
  | .ret a => Q a
  | .call op next => P op ∧ ∀ r, (next r).Abides P Q

@[simp] theorem abides_ret {P : Op → Prop} {Q : α → Prop} {a : α} :
    (ret a : Program Op Resp α).Abides P Q ↔ Q a := Iff.rfl

@[simp] theorem abides_call {P : Op → Prop} {Q : α → Prop} {op : Op}
    {next : Resp op → Program Op Resp α} :
    (call op next).Abides P Q ↔ P op ∧ ∀ r, (next r).Abides P Q := Iff.rfl

theorem Only.abides {P : Op → Prop} {p : Program Op Resp α} (hp : p.Only P) :
    p.Abides P fun _ => True := by
  induction p with
  | ret a => trivial
  | call op next ih => exact ⟨hp.1, fun r => ih r (hp.2 r)⟩

theorem Abides.only {P : Op → Prop} {Q : α → Prop} {p : Program Op Resp α} (hp : p.Abides P Q) :
    p.Only P := by
  induction p with
  | ret a => trivial
  | call op next ih => exact ⟨hp.1, fun r => ih r (hp.2 r)⟩

theorem Abides.bind {P : Op → Prop} {Q : α → Prop} {R : β → Prop} {p : Program Op Resp α}
    {f : α → Program Op Resp β} (hp : p.Abides P Q) (hf : ∀ a, Q a → (f a).Abides P R) :
    (p >>= f).Abides P R := by
  induction p with
  | ret a => exact hf a hp
  | call op next ih => exact ⟨hp.1, fun r => ih r (hp.2 r)⟩

/-- The calls of the undisturbed run. -/
def trace (h : Handler Op Resp W) : Program Op Resp α → W → List (Event Op W)
  | .ret _, _ => []
  | .call op next, w => ⟨op, w⟩ :: (next (h op w).1).trace h (h op w).2

@[simp] theorem trace_ret (a : α) (w : W) : (ret a : Program Op Resp α).trace h w = [] := rfl

@[simp] theorem trace_call (op : Op) (next : Resp op → Program Op Resp α) (w : W) :
    (call op next).trace h w = ⟨op, w⟩ :: (next (h op w).1).trace h (h op w).2 := rfl

@[simp] theorem trace_bind (p : Program Op Resp α) (f : α → Program Op Resp β) (w : W) :
    (p >>= f).trace h w = p.trace h w ++ (f (p.run h w).1).trace h (p.run h w).2 := by
  induction p generalizing w with
  | ret a => rfl
  | call op next ih => simp only [call_bind, trace_call, run_call, ih, List.cons_append]

/-- The undisturbed run is one of the interfered runs. -/
theorem interfered_run (p : Program Op Resp α) (w : W) :
    p.Interfered h (p.trace h w) (p.run h w).1 := by
  induction p generalizing w with
  | ret a => exact .ret a
  | call op next ih => exact .call op next w (ih _ _)

/-- If no call of the undisturbed run changes an observation, the run does not. -/
theorem run_eq_of_trace (o : W → β) (p : Program Op Resp α) (w : W)
    (ht : ∀ e ∈ p.trace h w, o (e.after h) = o e.before) : o (p.run h w).2 = o w := by
  induction p generalizing w with
  | ret a => rfl
  | call op next ih =>
    simp only [trace_call, List.forall_mem_cons] at ht
    exact (ih _ _ ht.2).trans ht.1

/-! ### Suspended programs -/

/-- `Suspended h p es q`: `p` has made the calls `es` and is now at `q`. -/
inductive Suspended (h : Handler Op Resp W) (p : Program Op Resp α) :
    List (Event Op W) → Program Op Resp α → Prop
  | start : Suspended h p [] p
  | call {es : List (Event Op W)} {op : Op} {next : Resp op → Program Op Resp α} (w : W) :
      Suspended h p es (.call op next) → Suspended h p (es ++ [⟨op, w⟩]) (next (h op w).1)

theorem Suspended.interfered {p q : Program Op Resp α} {es fs : List (Event Op W)} {a : α}
    (hs : p.Suspended h es q) (hq : q.Interfered h fs a) : p.Interfered h (es ++ fs) a := by
  induction hs generalizing fs with
  | start => exact hq
  | call w _ ih =>
    rw [List.append_assoc]
    exact ih (.call _ _ w hq)

/-! ### Schedules of foreign moves -/

/-- One call for each foreign move of the schedule, which acts just before it. -/
def advanceWith (h : Handler Op Resp W) : List (W → W) → Program Op Resp α →
    W → Program Op Resp α × W
  | [], p, w => (p, w)
  | _ :: _, .ret a, w => (.ret a, w)
  | move :: moves, .call op next, w =>
      (next (h op (move w)).1).advanceWith h moves (h op (move w)).2

@[simp] theorem advanceWith_nil (p : Program Op Resp α) (w : W) :
    p.advanceWith h [] w = (p, w) := rfl

@[simp] theorem advanceWith_ret (moves : List (W → W)) (a : α) (w : W) :
    (ret a : Program Op Resp α).advanceWith h moves w = (.ret a, w) := by cases moves <;> rfl

@[simp] theorem advanceWith_call (move : W → W) (moves : List (W → W)) (op : Op)
    (next : Resp op → Program Op Resp α) (w : W) :
    (call op next).advanceWith h (move :: moves) w =
      (next (h op (move w)).1).advanceWith h moves (h op (move w)).2 := rfl

theorem advanceWith_append (moves moves' : List (W → W)) (p : Program Op Resp α) (w : W) :
    p.advanceWith h (moves ++ moves') w =
      (p.advanceWith h moves w).1.advanceWith h moves' (p.advanceWith h moves w).2 := by
  induction moves generalizing p w with
  | nil => rfl
  | cons move moves ih => cases p with
    | ret a => simp
    | call op next => simpa using ih _ _

/-- A schedule of idle moves is an undisturbed stretch of the run. -/
theorem advanceWith_idle (n : ℕ) (p : Program Op Resp α) (w : W) :
    p.advanceWith h (List.replicate n id) w = p.advance h n w := by
  induction n generalizing p w with
  | zero => rfl
  | succ n ih => cases p with
    | ret a => simp
    | call op next => simpa [List.replicate_succ] using ih _ _

end Program

end DataAgentSystem.Interaction
