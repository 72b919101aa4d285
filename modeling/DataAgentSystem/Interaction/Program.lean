import Mathlib.Order.Basic
import Mathlib.Data.List.Basic

/-! Programs that reach the world only through calls. A program is a finite tree:
it returns, or it performs one call and continues with the response. Every call
is atomic, so the points between calls are the points at which a program can be
stopped or at which somebody else can act. One program has three readings here:
its undisturbed run, its state after a given number of calls, and the property of
holding an assertion at every point between calls. -/

namespace DataAgentSystem.Interaction

variable {Op : Type} {Resp : Op → Type} {W : Type} {α β γ : Type}

inductive Program (Op : Type) (Resp : Op → Type) (α : Type) where
  | ret (a : α)
  | call (op : Op) (next : Resp op → Program Op Resp α)

/-- How the world answers one call. -/
abbrev Handler (Op : Type) (Resp : Op → Type) (W : Type) := (op : Op) → W → Resp op × W

namespace Program

protected def bind : Program Op Resp α → (α → Program Op Resp β) → Program Op Resp β
  | .ret a, f => f a
  | .call op next, f => .call op fun r => (next r).bind f

instance : Monad (Program Op Resp) where
  pure := .ret
  bind := Program.bind

/-- The program that performs one call and returns its response. -/
def perform (op : Op) : Program Op Resp (Resp op) := .call op .ret

@[simp] theorem pure_eq_ret (a : α) : (pure a : Program Op Resp α) = .ret a := rfl

@[simp] theorem ret_bind (a : α) (f : α → Program Op Resp β) :
    (.ret a : Program Op Resp α) >>= f = f a := rfl

@[simp] theorem call_bind (op : Op) (next : Resp op → Program Op Resp α)
    (f : α → Program Op Resp β) :
    .call op next >>= f = .call op fun r => next r >>= f := rfl

@[simp] theorem perform_bind (op : Op) (f : Resp op → Program Op Resp β) :
    perform op >>= f = .call op f := rfl

theorem bind_ret (p : Program Op Resp α) : p >>= .ret = p := by
  induction p with
  | ret a => rfl
  | call op next ih => simp only [call_bind, ih]

theorem bind_bind (p : Program Op Resp α) (f : α → Program Op Resp β) (g : β → Program Op Resp γ) :
    p >>= f >>= g = p >>= fun a => f a >>= g := by
  induction p with
  | ret a => rfl
  | call op next ih => simp only [call_bind, ih]

instance : LawfulMonad (Program Op Resp) :=
  LawfulMonad.mk' _ bind_ret (fun _ _ => rfl) bind_bind

/-! ### The undisturbed run -/

def run (h : Handler Op Resp W) : Program Op Resp α → W → α × W
  | .ret a, w => (a, w)
  | .call op next, w => (next (h op w).1).run h (h op w).2

variable (h : Handler Op Resp W)

@[simp] theorem run_ret (a : α) (w : W) : (.ret a : Program Op Resp α).run h w = (a, w) := rfl

@[simp] theorem run_call (op : Op) (next : Resp op → Program Op Resp α) (w : W) :
    (call op next).run h w = (next (h op w).1).run h (h op w).2 := rfl

@[simp] theorem run_bind (p : Program Op Resp α) (f : α → Program Op Resp β) (w : W) :
    (p >>= f).run h w = (f (p.run h w).1).run h (p.run h w).2 := by
  induction p generalizing w with
  | ret a => rfl
  | call op next ih => simp only [call_bind, run_call, ih]

/-! ### Stopping between two calls -/

/-- The rest of the program and the world after `n` calls, fewer if it returns earlier. -/
def advance (h : Handler Op Resp W) : ℕ → Program Op Resp α → W → Program Op Resp α × W
  | 0, p, w => (p, w)
  | _ + 1, .ret a, w => (.ret a, w)
  | n + 1, .call op next, w => (next (h op w).1).advance h n (h op w).2

/-- The world a crash after `n` calls leaves behind. -/
def crash (h : Handler Op Resp W) (n : ℕ) (p : Program Op Resp α) (w : W) : W := (p.advance h n w).2

@[simp] theorem advance_zero (p : Program Op Resp α) (w : W) : p.advance h 0 w = (p, w) := rfl

@[simp] theorem advance_ret (n : ℕ) (a : α) (w : W) :
    (ret a : Program Op Resp α).advance h n w = (.ret a, w) := by cases n <;> rfl

@[simp] theorem advance_call (n : ℕ) (op : Op) (next : Resp op → Program Op Resp α) (w : W) :
    (call op next).advance h (n + 1) w = (next (h op w).1).advance h n (h op w).2 := rfl

/-- What is left after `n` calls runs to the result of the whole program. -/
theorem run_advance (n : ℕ) (p : Program Op Resp α) (w : W) :
    (p.advance h n w).1.run h (p.advance h n w).2 = p.run h w := by
  induction p generalizing n w with
  | ret a => simp
  | call op next ih => cases n with
    | zero => rfl
    | succ n => exact ih _ n _

/-! ### Assertions at every point between calls -/

/-- `I` holds now and after each further call of the undisturbed run. -/
def Always (h : Handler Op Resp W) (I : W → Prop) : Program Op Resp α → W → Prop
  | .ret _, w => I w
  | .call op next, w => I w ∧ (next (h op w).1).Always h I (h op w).2

variable {h} {I J : W → Prop}

@[simp] theorem always_ret (a : α) (w : W) :
    (ret a : Program Op Resp α).Always h I w ↔ I w := Iff.rfl

@[simp] theorem always_call (op : Op) (next : Resp op → Program Op Resp α) (w : W) :
    (call op next).Always h I w ↔ I w ∧ (next (h op w).1).Always h I (h op w).2 := Iff.rfl

theorem Always.now {p : Program Op Resp α} {w : W} (hp : p.Always h I w) : I w := by
  cases p with
  | ret a => exact hp
  | call op next => exact hp.1

theorem Always.finally {p : Program Op Resp α} {w : W} (hp : p.Always h I w) : I (p.run h w).2 := by
  induction p generalizing w with
  | ret a => exact hp
  | call op next ih => exact ih _ hp.2

theorem always_bind {p : Program Op Resp α} {f : α → Program Op Resp β} {w : W} :
    (p >>= f).Always h I w ↔ p.Always h I w ∧ (f (p.run h w).1).Always h I (p.run h w).2 := by
  induction p generalizing w with
  | ret a => exact ⟨fun hf => ⟨hf.now, hf⟩, And.right⟩
  | call op next ih => simp only [call_bind, always_call, run_call, ih, and_assoc]

theorem Always.mono {p : Program Op Resp α} {w : W} (hp : p.Always h I w) (hIJ : ∀ w, I w → J w) :
    p.Always h J w := by
  induction p generalizing w with
  | ret a => exact hIJ _ hp
  | call op next ih => exact ⟨hIJ _ hp.1, ih _ hp.2⟩

/-- An assertion that no call can break holds throughout. -/
theorem always_of_stable {p : Program Op Resp α} {w : W} (hstep : ∀ op w, I w → I (h op w).2)
    (hw : I w) : p.Always h I w := by
  induction p generalizing w with
  | ret a => exact hw
  | call op next ih => exact ⟨hw, ih _ (hstep op w hw)⟩

/-- The assertions that always hold are those that hold at every crash point. -/
theorem Always.crash {p : Program Op Resp α} {w : W} (hp : p.Always h I w) (n : ℕ) :
    I (p.crash h n w) := by
  induction p generalizing n w with
  | ret a => simpa [Program.crash] using hp
  | call op next ih => cases n with
    | zero => exact hp.1
    | succ n => exact ih _ hp.2 n

/-! ### A world that remembers the calls made -/

/-- The handler that also lists the calls made so far. -/
def logged (h : Handler Op Resp W) : Handler Op Resp (W × List Op) :=
  fun op w => ((h op w.1).1, ((h op w.1).2, w.2 ++ [op]))

@[simp] theorem logged_fst (op : Op) (w : W × List Op) : (logged h op w).1 = (h op w.1).1 := rfl

@[simp] theorem logged_snd (op : Op) (w : W × List Op) :
    (logged h op w).2 = ((h op w.1).2, w.2 ++ [op]) := rfl

theorem run_logged (p : Program Op Resp α) (w : W × List Op) :
    (p.run (logged h) w).1 = (p.run h w.1).1 ∧ (p.run (logged h) w).2.1 = (p.run h w.1).2 := by
  induction p generalizing w with
  | ret a => exact ⟨rfl, rfl⟩
  | call op next ih => exact ih _ _

end Program

end DataAgentSystem.Interaction
