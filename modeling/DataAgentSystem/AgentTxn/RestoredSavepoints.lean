import DataAgentSystem.AgentTxn.BranchOps

/-! What a rollback restores. Every savepoint that is in the list of a branch was set by
one operation of the history of the branch, and has been in the list since; it stands for
a prefix of the writes and of the list, which are what they were when it was set. -/

namespace DataAgentSystem.AgentTxn

open Text Intent Cache Branch Storage Interaction Containers BranchManager BranchOp

variable {kind : StoreKind} {branch created restored : BranchContext} {branchId savepointId : Bytes}
  {ops : List (BranchOp × World)} {op : BranchOp × World} {records : List WriteRecord}
    {place moment n : ℕ}

/-- A new branch, once the operations have been performed on it. -/
def worked (kind : StoreKind) (branchId : Bytes) (ops : List (BranchOp × World)) : BranchContext :=
  performAll kind { branchId := branchId } ops

/-- The savepoint at this place of the list was set by the operation at this moment of the
history, and has been in the list ever since. -/
structure SetAt (kind : StoreKind) (branchId : Bytes) (ops : List (BranchOp × World))
    (place moment : ℕ) : Prop where
  sets : ∃ savepointId w, ops[moment]? = some (.savepoint savepointId, w)
  atEnd : (worked kind branchId (ops.take moment)).savepoints.length = place
  kept : ∀ n, moment < n → n ≤ ops.length →
    place < (worked kind branchId (ops.take n)).savepoints.length

/-- The first branch has the writes and the savepoints of the second one. -/
structure Restores (restored created : BranchContext) : Prop where
  writeBuffer : restored.writeBuffer = created.writeBuffer
  intentLog : restored.intentLog = created.intentLog
  savepoints : restored.savepoints = created.savepoints

/-- The place of the savepoint that a rollback to this name selects. -/
def selectedPlace (branch : BranchContext) (savepointId : Bytes) : Option ℕ :=
  branch.savepoints.findIdx? fun savepoint => savepoint.savepointId = savepointId

/-! ### Histories -/

theorem worked_snoc (kind : StoreKind) (branchId : Bytes) (ops : List (BranchOp × World))
    (op : BranchOp × World) :
    worked kind branchId (ops ++ [op]) = perform kind (worked kind branchId ops) op :=
  performAll_snoc _ _ _

theorem SetAt.lt (h : SetAt kind branchId ops place moment) : moment < ops.length := by
  obtain ⟨savepointId, w, hset⟩ := h.sets
  exact (List.getElem?_eq_some_iff.1 hset).1

/-- No savepoint was set at two moments. -/
theorem SetAt.unique {moment' : ℕ} (h : SetAt kind branchId ops place moment)
    (h' : SetAt kind branchId ops place moment') :
    moment = moment' := by
  have hnot : ∀ {m m'}, SetAt kind branchId ops place m → SetAt kind branchId ops place m' →
      ¬m < m' := by
    intro m m' h h' hlt
    have hkept := h.kept m' hlt h'.lt.le
    rw [h'.atEnd] at hkept
    exact Nat.lt_irrefl _ hkept
  have hle := hnot h h'
  have hge := hnot h' h
  omega

/-- A savepoint that is in the list after one more operation was set when it had been set before. -/
theorem SetAt.snoc (h : SetAt kind branchId ops place moment)
    (hplace : place < (worked kind branchId (ops ++ [op])).savepoints.length) :
    SetAt kind branchId (ops ++ [op]) place moment := by
  have hlt := h.lt
  refine ⟨?_, ?_, fun n hn hle => ?_⟩
  · rw [List.getElem?_append_left hlt]
    exact h.sets
  · rw [List.take_append_of_le_length hlt.le]
    exact h.atEnd
  · rw [List.length_append, List.length_singleton] at hle
    rcases Nat.lt_or_ge ops.length n with hall | hpart
    · rw [List.take_of_length_le (by simp; omega)]
      exact hplace
    · rw [List.take_append_of_le_length hpart]
      exact h.kept n hn hpart

theorem SetAt.append {later : List (BranchOp × World)} (h : SetAt kind branchId ops place moment)
    (hkept : ∀ j, place < (worked kind branchId (ops ++ later.take j)).savepoints.length) :
    SetAt kind branchId (ops ++ later) place moment := by
  induction later using List.reverseRecOn with
  | nil => rwa [List.append_nil]
  | append_singleton later op ih =>
    rw [← List.append_assoc]
    refine (ih fun j => ?_).snoc ?_
    · have hstep := hkept (min j later.length)
      rwa [List.take_append_of_le_length (Nat.min_le_right ..), ← List.take_take,
        List.take_length] at hstep
    · have hall := hkept (later.length + 1)
      rwa [List.take_of_length_le (by simp), ← List.append_assoc] at hall

/-- What came after does not count for when a savepoint was set. -/
theorem SetAt.take (h : SetAt kind branchId ops place moment) (hn : moment < n) :
    SetAt kind branchId (ops.take n) place moment := by
  refine ⟨?_, ?_, fun m hm hle => ?_⟩
  · rw [List.getElem?_take_of_lt hn]
    exact h.sets
  · rw [List.take_take, Nat.min_eq_left hn.le]
    exact h.atEnd
  · rw [List.length_take] at hle
    rw [List.take_take, Nat.min_eq_left (hle.trans (Nat.min_le_left ..))]
    exact h.kept m hm (hle.trans (Nat.min_le_right ..))

/-- Savepoints that are further on in the list were set later. -/
theorem SetAt.moment_le {place' moment' : ℕ} (h : SetAt kind branchId ops place moment)
    (h' : SetAt kind branchId ops place' moment') (hle : place ≤ place') : moment ≤ moment' := by
  by_contra hlt
  have hkept := h'.kept moment (Nat.lt_of_not_le hlt) h.lt.le
  rw [h.atEnd] at hkept
  omega

/-- The savepoint that the last operation sets. -/
theorem setAt_last (kind : StoreKind) (branchId : Bytes) (ops : List (BranchOp × World))
    (savepointId : Bytes) (w : World) :
    SetAt kind branchId (ops ++ [(.savepoint savepointId, w)])
      (worked kind branchId ops).savepoints.length ops.length := by
  refine ⟨⟨savepointId, w, by simp⟩, by rw [List.take_left], fun n hn hle => ?_⟩
  rw [List.length_append, List.length_singleton] at hle
  rw [List.take_of_length_le (by simp; omega), worked_snoc]
  show _ < (createSavepoint (worked kind branchId ops) savepointId).savepoints.length
  simp [createSavepoint]

theorem length_rollbackToSavepoint_le (branch : BranchContext) (savepointId : Bytes) :
    (RollbackManager.rollbackToSavepoint branch savepointId).2.savepoints.length ≤
      branch.savepoints.length := by
  unfold RollbackManager.rollbackToSavepoint
  cases hfind : branch.savepoints.find? fun s => s.savepointId = savepointId with
  | none => exact Nat.le_refl _
  | some s =>
    obtain ⟨hs, front, rest, hsplit, hfront⟩ := List.find?_eq_some_iff_append.1 hfind
    have hcut : branch.savepoints.takeWhile (fun s => s.savepointId ≠ savepointId) = front := by
      rw [hsplit, List.takeWhile_append_of_pos (by simpa using hfront),
        List.takeWhile_cons_of_neg (by simpa using hs), List.append_nil]
    show (branch.savepoints.takeWhile (fun s => s.savepointId ≠ savepointId) ++ [s]).length ≤
      branch.savepoints.length
    rw [hcut, hsplit]
    simp

/-- Only setting a savepoint makes the list longer. -/
theorem length_savepoints_perform (branch : BranchContext) (op : BranchOp × World) :
    (perform kind branch op).savepoints.length ≤ branch.savepoints.length ∨
      ∃ savepointId, op.1 = .savepoint savepointId ∧ (perform kind branch op).savepoints.length =
        branch.savepoints.length + 1 := by
  obtain ⟨op, w⟩ := op
  cases op with
  | read objectId =>
    left
    show ((readObject branch objectId).run (handle kind) w).1.2.savepoints.length ≤ _
    unfold readObject
    cases branch.writeBuffer.find objectId <;> exact Nat.le_refl _
  | write objectId objectType intent =>
    left
    show ((bufferWrite branch objectId objectType intent).run (handle kind) w).1.savepoints.length ≤
      _
    rw [savepoints_bufferWrite]
  | savepoint savepointId => exact .inr ⟨savepointId, rfl, by simp [perform, createSavepoint]⟩
  | rollbackToSavepoint savepointId => exact .inl (length_rollbackToSavepoint_le branch savepointId)
  | stage score summary => exact .inl (Nat.le_refl _)

/-! ### What the savepoints stand for -/

/-- The savepoint at this place stands for the branch as it was when it was set: the writes
up to its position, and the savepoints up to it. -/
structure StandsFor (branch : BranchContext) (records : List WriteRecord)
    (place : ℕ) (savepoint : Savepoint) (created : BranchContext) : Prop where
  written : HasWritten created (records.take savepoint.writeLogPosition)
  savepoints : created.savepoints = branch.savepoints.take (place + 1)

/-- Each savepoint of a branch stands for the moment when it was set. -/
theorem exists_standsFor (kind : StoreKind) (branchId : Bytes) (ops : List (BranchOp × World)) :
    ∃ records, InOrder (worked kind branchId ops) records ∧
      ∀ place savepoint, (worked kind branchId ops).savepoints[place]? = some savepoint →
        ∃ moment, SetAt kind branchId ops place moment ∧
          StandsFor (worked kind branchId ops) records place savepoint
            (worked kind branchId (ops.take (moment + 1))) := by
  induction ops using List.reverseRecOn with
  | nil =>
    exact ⟨[], inOrder_new branchId,
      fun place savepoint h => by simp [worked, BranchOp.performAll] at h⟩
  | append_singleton ops op ih =>
    obtain ⟨records, hinOrder, hstands⟩ := ih
    obtain ⟨records', hinOrder', hmoves⟩ := @InOrder.perform kind _ _ hinOrder op
    rw [← worked_snoc] at hinOrder' hmoves
    refine ⟨records', hinOrder', fun place savepoint hplace => ?_⟩
    have hlt' := (List.getElem?_eq_some_iff.1 hplace).1
    rcases Nat.lt_or_ge place (worked kind branchId ops).savepoints.length with hlt | hge
    · -- the savepoint was there before, and stands for the same
      have hkeeps := hmoves.keeps hinOrder.sound hlt hlt'
      have hsame : (worked kind branchId ops).savepoints[place]? = some savepoint := by
        have htake := congrArg (·[place]?) hkeeps.marks
        simpa [List.getElem?_take_of_lt, hplace] using htake.symm
      obtain ⟨moment, hset, hwritten, hsavepoints⟩ := hstands place savepoint hsame
      refine ⟨moment, hset.snoc hlt', ?_⟩
      rw [List.take_append_of_le_length (Nat.succ_le_of_lt hset.lt)]
      refine ⟨?_, hsavepoints.trans hkeeps.marks.symm⟩
      rw [show records'.take savepoint.writeLogPosition = _ from hkeeps.log savepoint hsame]
      exact hwritten
    · -- the savepoint has just been set
      obtain ⟨op, w⟩ := op
      rcases @length_savepoints_perform kind (worked kind branchId ops)
        (op, w) with hle | ⟨savepointId, hop, hlen⟩
      · rw [worked_snoc] at hlt'
        omega
      · obtain rfl : op = .savepoint savepointId := hop
        rw [← worked_snoc] at hlen
        obtain rfl : place = (worked kind branchId ops).savepoints.length := by omega
        refine ⟨ops.length, setAt_last kind branchId ops savepointId w, ?_⟩
        have hall : (ops ++ [(BranchOp.savepoint savepointId, w)]).take (ops.length + 1) =
            ops ++ [(BranchOp.savepoint savepointId, w)] := List.take_of_length_le (by simp)
        rw [hall]
        refine ⟨?_, by rw [List.take_of_length_le (by omega)]⟩
        have hposition : savepoint.writeLogPosition = records'.length := by
          rw [← hinOrder'.written.size]
          rw [worked_snoc] at hplace ⊢
          have hlast :
            (perform kind (worked kind branchId ops) (.savepoint savepointId, w)).savepoints[
              (worked kind branchId ops).savepoints.length]? = some {
                savepointId
                writeLogPosition := (worked kind branchId ops).writeBuffer.size
                intentLogPosition := (worked kind branchId ops).intentLog.size } := by
            simp [perform, createSavepoint]
          rw [hlast] at hplace
          obtain rfl := Option.some.inj hplace
          rfl
        rw [hposition, List.take_length]
        exact hinOrder'.written

theorem exists_setAt (ops : List (BranchOp × World))
    (hplace : place < (worked kind branchId ops).savepoints.length) :
    ∃ moment, SetAt kind branchId ops place moment := by
  obtain ⟨records, -, hstands⟩ := exists_standsFor kind branchId ops
  obtain ⟨moment, hset, -⟩ := hstands place _ (List.getElem?_eq_getElem hplace)
  exact ⟨moment, hset⟩

/-- The position of a savepoint is the size of the buffer when it was set. -/
theorem SetAt.size (h : SetAt kind branchId ops place moment) {savepoint : Savepoint}
    (hplace : (worked kind branchId ops).savepoints[place]? = some savepoint) :
    (worked kind branchId (ops.take (moment + 1))).writeBuffer.size =
      savepoint.writeLogPosition := by
  obtain ⟨records, hinOrder, hstands⟩ := exists_standsFor kind branchId ops
  obtain ⟨moment', hset, hwritten, -⟩ := hstands place savepoint hplace
  obtain rfl := h.unique hset
  rw [hwritten.size, List.length_take]
  exact Nat.min_eq_left (hinOrder.bounded savepoint (List.mem_of_getElem? hplace))

/-- As long as a savepoint is in the list, the branch has the writes of the moment when it
was set exactly if it has as many. -/
theorem SetAt.same_iff (h : SetAt kind branchId ops place moment) :
    (worked kind branchId ops).writeBuffer =
      (worked kind branchId (ops.take (moment + 1))).writeBuffer ∧
        (worked kind branchId ops).intentLog =
          (worked kind branchId (ops.take (moment + 1))).intentLog ↔
      (worked kind branchId ops).writeBuffer.size =
        (worked kind branchId (ops.take (moment + 1))).writeBuffer.size := by
  refine ⟨fun hsame => by rw [hsame.1], fun hsize => ?_⟩
  obtain ⟨records, hinOrder, hstands⟩ := exists_standsFor kind branchId ops
  have hplace : place < (worked kind branchId ops).savepoints.length := by
    have hkept := h.kept ops.length h.lt (Nat.le_refl _)
    rwa [List.take_length] at hkept
  obtain ⟨moment', hset, hwritten, -⟩ := hstands place _ (List.getElem?_eq_getElem hplace)
  obtain rfl := h.unique hset
  rw [hinOrder.written.size, hwritten.size, List.length_take] at hsize
  have hall : records.take (worked kind branchId ops).savepoints[place].writeLogPosition =
      records :=
    List.take_of_length_le (by omega)
  rw [hall] at hwritten
  exact hwritten.same hinOrder.written

/-! ### Rollbacks -/

theorem lt_of_selectedPlace (h : selectedPlace branch savepointId = some place) :
    place < branch.savepoints.length := by
  obtain ⟨hlt, -⟩ := List.findIdx?_eq_some_iff_getElem.1 h
  exact hlt

theorem selectedPlace_of_split {front rest : List Savepoint} {savepoint : Savepoint}
    (hsplit : branch.savepoints = front ++ savepoint :: rest)
    (hfront : ∀ s ∈ front, s.savepointId ≠ savepoint.savepointId) :
    selectedPlace branch savepoint.savepointId = some front.length := by
  rw [selectedPlace, hsplit, List.findIdx?_append,
    List.findIdx?_eq_none_iff.2 (by simpa using hfront), List.findIdx?_cons]
  simp

/-- A rollback succeeds when it selects a savepoint. -/
theorem exists_selectedPlace
    (h : (RollbackManager.rollbackToSavepoint branch savepointId).1 = true) :
    ∃ place, selectedPlace branch savepointId = some place := by
  rcases exists_split branch.savepoints
    savepointId with hnone | ⟨front, savepoint, rest, hsplit, rfl, hfront⟩
  · have hfind : branch.savepoints.find? (fun s => s.savepointId = savepointId) = none := by
      simpa using hnone
    rw [RollbackManager.rollbackToSavepoint, hfind] at h
    exact absurd h Bool.false_ne_true
  · exact ⟨_, selectedPlace_of_split hsplit hfront⟩

/-- A rollback to a savepoint restores the branch as it was when the savepoint was set. -/
theorem SetAt.restores (h : SetAt kind branchId ops place moment)
    (hplace : selectedPlace (worked kind branchId ops) savepointId = some place) :
    Restores (RollbackManager.rollbackToSavepoint (worked kind branchId ops) savepointId).2
      (worked kind branchId (ops.take (moment + 1))) := by
  obtain ⟨records, hinOrder, hstands⟩ := exists_standsFor kind branchId ops
  rcases exists_split (worked kind branchId ops).savepoints
    savepointId with hnone | ⟨front, savepoint, rest, hsplit, rfl, hfront⟩
  · have hno : selectedPlace (worked kind branchId ops) savepointId = none :=
      List.findIdx?_eq_none_iff.2 (by simpa using hnone)
    rw [hno] at hplace
    exact absurd hplace (Option.some_ne_none place).symm
  · obtain rfl : front.length = place := by
      rw [selectedPlace_of_split hsplit hfront] at hplace
      exact Option.some.inj hplace
    obtain ⟨moment', hset, hwritten, hsavepoints⟩ :=
      hstands front.length savepoint (by simp [hsplit])
    obtain rfl := h.unique hset
    obtain ⟨hcut, hleft⟩ := rollbackToSavepoint_of_split hinOrder.written hsplit hfront
    obtain ⟨hbuffer, hlog⟩ := hwritten.same hcut
    refine ⟨hbuffer, hlog, ?_⟩
    rw [hleft, hsavepoints, hsplit, List.take_length_add_append,
      List.take_succ_cons, List.take_zero]

/-- A rollback that succeeds restores the moment when the savepoint that it selects was set,
and a later one does the same with each savepoint that is left, as long as it is in the list. -/
theorem rollback_restores (kind : StoreKind) (branchId savepointId : Bytes)
    (ops : List (BranchOp × World))
    (hfound : (RollbackManager.rollbackToSavepoint (worked kind branchId ops) savepointId).1 =
      true) :
    ∃ place moment, selectedPlace (worked kind branchId ops) savepointId = some place ∧
      SetAt kind branchId ops place moment ∧
      Restores (RollbackManager.rollbackToSavepoint (worked kind branchId ops) savepointId).2
        (worked kind branchId (ops.take (moment + 1))) ∧
      ∀ n < (RollbackManager.rollbackToSavepoint (worked kind branchId ops)
        savepointId).2.savepoints.length,
        ∃ m, SetAt kind branchId ops n m ∧ ∀ w later laterId,
          (∀ j, n < (worked kind branchId
            (ops ++ (.rollbackToSavepoint savepointId, w) :: later.take j)).savepoints.length) →
          selectedPlace
            (worked kind branchId (ops ++ (.rollbackToSavepoint savepointId, w) :: later))
            laterId = some n →
          Restores
            (RollbackManager.rollbackToSavepoint
              (worked kind branchId (ops ++ (.rollbackToSavepoint savepointId, w) :: later))
                laterId).2
            (worked kind branchId (ops.take (m + 1))) := by
  obtain ⟨place, hplace⟩ := exists_selectedPlace hfound
  obtain ⟨moment, hset⟩ := exists_setAt ops (lt_of_selectedPlace hplace)
  refine ⟨place, moment, hplace, hset, hset.restores hplace, fun n hn => ?_⟩
  have hshorter : n < (worked kind branchId ops).savepoints.length := by
    have hle := length_rollbackToSavepoint_le (worked kind branchId ops) savepointId
    omega
  obtain ⟨m, hset'⟩ := exists_setAt ops hshorter
  refine ⟨m, hset', fun w later laterId hkept hlater => ?_⟩
  have hset'' : SetAt kind branchId
      (ops ++ [(.rollbackToSavepoint savepointId, w)] ++ later) n m := by
    refine (hset'.snoc ?_).append fun j => ?_
    · rw [worked_snoc]
      exact hn
    · rw [List.append_assoc]
      exact hkept j
  rw [List.append_assoc] at hset''
  have hrestores := hset''.restores hlater
  rwa [List.take_append_of_le_length (Nat.succ_le_of_lt hset'.lt)] at hrestores

/-- A draft is appended, a savepoint set, and another text appended that is then discarded. -/
def discards : List (BranchOp × World) := [
  (.read (ascii "summary"), {}),
  (.write (ascii "summary") .text
    { objectId := ascii "summary", intentType := .append, payload := ascii "::draft" }, {}),
  (.savepoint (ascii "summary_sp"), {}),
  (.write (ascii "summary") .text
    { objectId := ascii "summary", intentType := .append, payload := ascii "::discard" }, {})]

theorem rollback_restores_draft : ∃ moment < 4, Restores
    (RollbackManager.rollbackToSavepoint (worked .memory (ascii "b") discards)
      (ascii "summary_sp")).2
    (worked .memory (ascii "b") (discards.take (moment + 1))) := by
  obtain ⟨place, moment, -, hset, hrestores, -⟩ :=
    rollback_restores .memory (ascii "b") (ascii "summary_sp") discards (by decide +kernel)
  exact ⟨moment, hset.lt, hrestores⟩

end DataAgentSystem.AgentTxn
