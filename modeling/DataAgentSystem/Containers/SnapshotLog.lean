import DataAgentSystem.Containers.MarkedLog

/-! A log that is saved as a whole, under a name, and restored from such a copy. This is
what a log with marks in it is for: as long as going back drops the later marks, the marks
stand for copies, and whoever edits the log cannot tell marks from copies. -/

namespace DataAgentSystem.Containers

structure SnapshotLog (α ι : Type) where
  log : List α := []
  saved : List (ι × List α) := []

inductive Edit (α ι : Type) where
  | keep
  | append (a : α)
  | save (name : ι)
  | restore (name : ι)

namespace SnapshotLog

variable {α ι μ : Type} [DecidableEq ι]

/-- A copy is restored under the first of its names, and the later copies are dropped. -/
def edit (s : SnapshotLog α ι) : Edit α ι → SnapshotLog α ι
  | .keep => s
  | .append a => { s with log := s.log ++ [a] }
  | .save name => { s with saved := s.saved ++ [(name, s.log)] }
  | .restore name =>
    match s.saved.find? fun copy => copy.1 = name with
    | none => s
    | some copy =>
      { log := copy.2, saved := s.saved.takeWhile (fun copy => copy.1 ≠ name) ++ [copy] }

/-- What is left in the log after some edits. -/
def written (edits : List (Edit α ι)) : List α := (edits.foldl edit {}).log

/-- Nothing is left that has not been appended. -/
theorem append_mem_of_mem_written {edits : List (Edit α ι)} {a : α} (h : a ∈ written edits) :
    .append a ∈ edits := by
  have happended : (∀ a ∈ (edits.foldl edit {}).log, Edit.append a ∈ edits) ∧
      ∀ copy ∈ (edits.foldl edit {}).saved, ∀ a ∈ copy.2, Edit.append a ∈ edits := by
    clear h
    induction edits using List.reverseRecOn with
    | nil => exact ⟨fun a h => absurd h List.not_mem_nil, fun copy h => absurd h List.not_mem_nil⟩
    | append_singleton edits e ih =>
      rw [List.foldl_append, List.foldl_cons, List.foldl_nil]
      generalize edits.foldl edit {} = s at ih ⊢
      have hlog : ∀ a ∈ s.log, Edit.append a ∈ edits ++ [e] := fun a ha =>
        List.mem_append_left _ (ih.1 a ha)
      have hsaved : ∀ copy ∈ s.saved, ∀ a ∈ copy.2, Edit.append a ∈ edits ++ [e] :=
        fun copy hcopy a ha => List.mem_append_left _ (ih.2 copy hcopy a ha)
      cases e with
      | keep => exact ⟨hlog, hsaved⟩
      | append b =>
        refine ⟨fun a ha => ?_, hsaved⟩
        rcases List.mem_append.1 ha with ha | ha
        · exact hlog a ha
        · rw [List.mem_singleton.1 ha]
          exact List.mem_append_right _ (List.mem_singleton_self _)
      | save name =>
        exact ⟨hlog, List.forall_mem_append.2 ⟨hsaved, List.forall_mem_singleton.2 hlog⟩⟩
      | restore name =>
        rw [edit]
        cases hfind : s.saved.find? (fun copy => copy.1 = name) with
        | none => exact ⟨hlog, hsaved⟩
        | some copy =>
          have hcopy := hsaved copy (List.mem_of_find?_eq_some hfind)
          refine ⟨hcopy,
            List.forall_mem_append.2 ⟨fun other hother => ?_, List.forall_mem_singleton.2 hcopy⟩⟩
          exact hsaved other ((List.takeWhile_sublist _).subset hother)
  exact happended.1 a h

/-- Each mark of the log stands for a copy of it. -/
structure Copies (name : μ → ι) (position : μ → ℕ) (m : MarkedLog α μ)
    (s : SnapshotLog α ι) : Prop where
  sound : m.Sound position
  log : s.log = m.log
  saved : s.saved = m.marks.map fun x => (name x, m.log.take (position x))

variable {name : μ → ι} {position : μ → ℕ} {m : MarkedLog α μ} {s : SnapshotLog α ι} {x : μ}

omit [DecidableEq ι] in
theorem copies_empty (name : μ → ι) (position : μ → ℕ) :
    Copies name position (⟨[], []⟩ : MarkedLog α μ) {} :=
  ⟨⟨.nil, fun _ h => absurd h List.not_mem_nil⟩, rfl, rfl⟩

/-- What is appended is in no copy. -/
theorem Copies.append (h : Copies name position m s) (a : α) :
    Copies name position { m with log := m.log ++ [a] } (s.edit (.append a)) := by
  refine ⟨(MarkedLog.Moves.append m a).sound h.sound, ?_, ?_⟩
  · rw [edit, h.log]
  · rw [edit, h.saved]
    refine List.map_congr_left fun x hx => ?_
    rw [List.take_append_of_le_length (h.sound.bounded x hx)]

theorem Copies.save (h : Copies name position m s) (hx : position x = m.log.length) :
    Copies name position { m with marks := m.marks ++ [x] } (s.edit (.save (name x))) := by
  refine ⟨(MarkedLog.Moves.mark m hx).sound h.sound, h.log, ?_⟩
  rw [edit, h.saved, h.log, List.map_append, List.map_singleton, hx, List.take_length]

theorem Copies.restore_of_ne (h : Copies name position m s) {n : ι}
    (hne : ∀ x ∈ m.marks, name x ≠ n) :
    s.edit (.restore n) = s := by
  have hfind : s.saved.find? (fun copy => copy.1 = n) = none := by
    rw [List.find?_eq_none, h.saved]
    intro copy hcopy
    obtain ⟨x, hx, rfl⟩ := List.mem_map.1 hcopy
    simpa using hne x hx
  rw [edit, hfind]

/-- Going back to a mark restores its copy. -/
theorem Copies.restore (h : Copies name position m s) {front rest : List μ}
    (hsplit : m.marks = front ++ x :: rest) (hfront : ∀ y ∈ front, name y ≠ name x) :
    Copies name position { log := m.log.take (position x), marks := front ++ [x] }
      (s.edit (.restore (name x))) := by
  have hsaved : s.saved = front.map (fun y => (name y, m.log.take (position y))) ++
      (name x, m.log.take (position x)) :: rest.map fun y => (name y, m.log.take (position y)) := by
    rw [h.saved, hsplit, List.map_append, List.map_cons]
  have hothers : ∀ copy ∈ front.map (fun y => (name y, m.log.take (position y))),
      copy.1 ≠ name x := by
    intro copy hcopy
    obtain ⟨y, hy, rfl⟩ := List.mem_map.1 hcopy
    exact hfront y hy
  have hfind : s.saved.find? (fun copy => copy.1 = name x) =
      some (name x, m.log.take (position x)) := by
    rw [List.find?_eq_some_iff_append]
    exact ⟨decide_eq_true rfl, _, _, hsaved, fun copy hcopy => by simpa using hothers copy hcopy⟩
  have hcut : s.saved.takeWhile (fun copy => copy.1 ≠ name x) =
      front.map fun y => (name y, m.log.take (position y)) := by
    rw [hsaved, List.takeWhile_append_of_pos (by simpa using hothers),
      List.takeWhile_cons_of_neg (by simp), List.append_nil]
  refine ⟨(MarkedLog.Moves.goBack m hsplit).sound h.sound, ?_, ?_⟩
  · rw [edit, hfind]
  · rw [edit, hfind]
    show s.saved.takeWhile (fun copy => copy.1 ≠ name x) ++ [(name x, m.log.take (position x))] = _
    rw [hcut, List.map_append, List.map_singleton, List.take_take, Nat.min_self]
    congr 1
    refine List.map_congr_left fun y hy => ?_
    rw [List.take_take, Nat.min_eq_left (h.sound.le_of_split hsplit hy)]

end SnapshotLog

end DataAgentSystem.Containers
