import Mathlib.Data.List.Basic
import Mathlib.Logic.Function.Basic

/-! Logs that are kept key by key. An entry is accepted if it fits what its key holds,
and what the key holds after it is up to the entry alone. So whether a log is accepted
is decided for each key on its own, and the last entry of a key says what it holds. -/

namespace DataAgentSystem.Containers

structure KeyedLog (ε κ σ : Type) where
  key : ε → κ
  Fits : ε → σ → Prop
  /-- What the key holds once the entry has been accepted. -/
  after : ε → σ

namespace KeyedLog

variable {ε κ σ : Type} [DecidableEq κ] (L : KeyedLog ε κ σ)

/-- What the keys hold after the entries. -/
def outcome : (κ → σ) → List ε → κ → σ
  | s, [] => s
  | s, e :: log => outcome (Function.update s (L.key e) (L.after e)) log

/-- Each entry fits what its key holds when its turn comes. -/
def Accepts : (κ → σ) → List ε → Prop
  | _, [] => True
  | s, e :: log => L.Fits e (s (L.key e)) ∧ Accepts (Function.update s (L.key e) (L.after e)) log

/-- The entries of one key. -/
def entriesOf (k : κ) (log : List ε) : List ε := log.filter fun e => L.key e = k

/-- Entries of one key, each of which fits what the one before it has left. -/
def Follows : σ → List ε → Prop
  | _, [] => True
  | x, e :: log => L.Fits e x ∧ Follows (L.after e) log

/-- Entries of one key, each the only one still to come that fits what is there. -/
def InTurn : σ → List ε → Prop
  | _, [] => True
  | x, e :: log => (L.Fits e x ∧ ∀ e' ∈ log, ¬L.Fits e' x) ∧ InTurn (L.after e) log

variable {L} {s : κ → σ} {k : κ} {e : ε} {log log' : List ε}

theorem entriesOf_cons_self (e : ε) (log : List ε) :
    L.entriesOf (L.key e) (e :: log) = e :: L.entriesOf (L.key e) log :=
  List.filter_cons_of_pos (by simp)

theorem entriesOf_cons_of_ne (h : k ≠ L.key e) : L.entriesOf k (e :: log) = L.entriesOf k log :=
  List.filter_cons_of_neg (by simpa using h.symm)

theorem entriesOf_append (k : κ) (log log' : List ε) :
    L.entriesOf k (log ++ log') = L.entriesOf k log ++ L.entriesOf k log' :=
  List.filter_append log log'

theorem outcome_append (s : κ → σ) (log log' : List ε) :
    L.outcome s (log ++ log') = L.outcome (L.outcome s log) log' := by
  induction log generalizing s with
  | nil => rfl
  | cons e log ih => exact ih _

theorem accepts_append : L.Accepts s (log ++ log') ↔ L.Accepts s log ∧
    L.Accepts (L.outcome s log) log' := by
  induction log generalizing s with
  | nil => exact (and_iff_right trivial).symm
  | cons e log ih =>
    show L.Fits e _ ∧ L.Accepts _ (log ++ log') ↔ _
    rw [ih, ← and_assoc]
    rfl

/-- The last entry of a key decides what it holds. -/
theorem outcome_eq (s : κ → σ) (log : List ε) (k : κ) :
    L.outcome s log k = ((L.entriesOf k log).getLast?.map L.after).getD (s k) := by
  induction log generalizing s with
  | nil => rfl
  | cons e log ih =>
    rw [outcome, ih]
    by_cases hk : k = L.key e
    · subst hk
      rw [entriesOf_cons_self, List.getLast?_cons, Function.update_self]
      cases (L.entriesOf (L.key e) log).getLast? <;> rfl
    · rw [entriesOf_cons_of_ne hk, Function.update_of_ne hk]

theorem outcome_of_notMem (h : k ∉ log.map L.key) : L.outcome s log k = s k := by
  induction log generalizing s with
  | nil => rfl
  | cons e log ih =>
    rw [List.map_cons, List.mem_cons, not_or] at h
    rw [outcome, ih h.2, Function.update_of_ne h.1]

/-- In a log that has each key once every entry has its way. -/
theorem outcome_of_mem (h : (log.map L.key).Nodup) (he : e ∈ log) :
    L.outcome s log (L.key e) = L.after e := by
  induction log generalizing s with
  | nil => cases he
  | cons e' log ih =>
    rw [List.map_cons, List.nodup_cons] at h
    rcases List.mem_cons.1 he with rfl | he
    · rw [outcome, outcome_of_notMem h.1, Function.update_self]
    · exact ih h.2 he

/-- In a log that has each key once every entry meets what was there before. -/
theorem Accepts.fits (h : L.Accepts s log) (hnodup : (log.map L.key).Nodup) (he : e ∈ log) :
    L.Fits e (s (L.key e)) := by
  induction log generalizing s with
  | nil => cases he
  | cons e' log ih =>
    rw [List.map_cons, List.nodup_cons] at hnodup
    rcases List.mem_cons.1 he with rfl | he
    · exact h.1
    · have hne : L.key e ≠ L.key e' := fun heq => hnodup.1 (heq ▸ List.mem_map_of_mem he)
      have hfits := ih h.2 hnodup.2 he
      rwa [Function.update_of_ne hne] at hfits

/-- What the keys hold after a log does not change if they are given it once more. -/
theorem outcome_outcome (s : κ → σ) (log : List ε) :
    L.outcome (L.outcome s log) log = L.outcome s log := by
  funext k
  rw [outcome_eq, outcome_eq]
  cases (L.entriesOf k log).getLast? <;> rfl

/-- A log is accepted key by key. -/
theorem accepts_iff : L.Accepts s log ↔ ∀ k, L.Follows (s k) (L.entriesOf k log) := by
  induction log generalizing s with
  | nil => exact iff_of_true trivial fun k => trivial
  | cons e log ih =>
    rw [Accepts, ih]
    constructor
    · rintro ⟨hfits, hrest⟩ k
      have hk := hrest k
      by_cases heq : k = L.key e
      · subst heq
        rw [Function.update_self] at hk
        rw [entriesOf_cons_self]
        exact ⟨hfits, hk⟩
      · rw [Function.update_of_ne heq] at hk
        rw [entriesOf_cons_of_ne heq]
        exact hk
    · intro h
      have hself := h (L.key e)
      rw [entriesOf_cons_self] at hself
      refine ⟨hself.1, fun k => ?_⟩
      by_cases heq : k = L.key e
      · subst heq
        rw [Function.update_self]
        exact hself.2
      · have hk := h k
        rw [entriesOf_cons_of_ne heq] at hk
        rw [Function.update_of_ne heq]
        exact hk

omit [DecidableEq κ] in
/-- Only the first entry meets what was there before. -/
theorem follows_iff {x y : σ} {log : List ε} (h : L.Follows x log) :
    L.Follows y log ↔ ∀ e ∈ log.head?, L.Fits e y := by
  cases log with
  | nil => exact iff_of_true trivial nofun
  | cons e log =>
    constructor
    · rintro hy _ ⟨⟩
      exact hy.1
    · exact fun hy => ⟨hy e rfl, h.2⟩

/-- A log that has been accepted is accepted once more exactly if the first entry of each
key fits what the last one leaves. -/
theorem accepts_again_iff (h : L.Accepts s log) : L.Accepts (L.outcome s log) log ↔
    ∀ k, ∀ first ∈ (L.entriesOf k log).head?, ∀ last ∈ (L.entriesOf k log).getLast?,
      L.Fits first (L.after last) := by
  rw [accepts_iff] at h ⊢
  refine forall_congr' fun k => ?_
  rw [follows_iff (h k), outcome_eq]
  refine forall₂_congr fun first hfirst => ?_
  cases hlog : L.entriesOf k log with
  | nil =>
    rw [hlog] at hfirst
    cases hfirst
  | cons e rest =>
    obtain ⟨last, hlast⟩ : ∃ last, (e :: rest).getLast? = some last :=
      ⟨_, List.getLast?_eq_some_getLast (List.cons_ne_nil e rest)⟩
    rw [hlast]
    exact ⟨fun hfits last' heq => Option.some.inj heq ▸ hfits, fun hfits => hfits last rfl⟩

/-- A log that has each key once has of it what is found first. -/
theorem entriesOf_eq_find? (h : (log.map L.key).Nodup) (k : κ) :
    L.entriesOf k log = (log.find? fun e => L.key e = k).toList := by
  induction log with
  | nil => rfl
  | cons e log ih =>
    rw [List.map_cons, List.nodup_cons] at h
    by_cases hk : L.key e = k
    · have hnone : L.entriesOf k log = [] := by
        rw [entriesOf, List.filter_eq_nil_iff]
        intro e' he' heq
        exact h.1 (List.mem_map.2 ⟨e', he', (of_decide_eq_true heq).trans hk.symm⟩)
      subst hk
      rw [entriesOf_cons_self, hnone, List.find?_cons_of_pos (by simp)]
      rfl
    · rw [entriesOf_cons_of_ne (Ne.symm hk), List.find?_cons_of_neg (by simpa using hk)]
      exact ih h.2

omit [DecidableEq κ] in
theorem InTurn.nodup {x : σ} {log : List ε} (h : L.InTurn x log) : log.Nodup := by
  induction log generalizing x with
  | nil => exact List.nodup_nil
  | cons e log ih =>
    obtain ⟨⟨hfits, hrest⟩, h⟩ := h
    exact List.nodup_cons.2 ⟨fun hmem => hrest e hmem hfits, ih h⟩

omit [DecidableEq κ] in
/-- Entries whose turn is fixed can be taken in no other order. -/
theorem InTurn.follows_iff {x : σ} {log log' : List ε} (h : L.InTurn x log)
    (hperm : log'.Perm log) :
    L.Follows x log' ↔ log' = log := by
  induction log generalizing x log' with
  | nil =>
    rw [List.perm_nil.1 hperm]
    exact iff_of_true trivial rfl
  | cons e log ih =>
    obtain ⟨⟨hfits, hrest⟩, h⟩ := h
    cases log' with
    | nil => exact absurd hperm.length_eq (by simp)
    | cons e' log' =>
      constructor
      · rintro ⟨hfits', hfollows⟩
        obtain rfl : e' = e := by
          rcases List.mem_cons.1 (hperm.subset List.mem_cons_self) with heq | hmem
          · exact heq
          · exact absurd hfits' (hrest e' hmem)
        rw [(ih h hperm.cons_inv).1 hfollows]
      · rintro heq
        cases heq
        exact ⟨hfits, (ih h (List.Perm.refl _)).2 rfl⟩

end KeyedLog

end DataAgentSystem.Containers
