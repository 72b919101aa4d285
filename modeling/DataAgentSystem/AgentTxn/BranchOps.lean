import DataAgentSystem.AgentTxn.BranchInvariants
import DataAgentSystem.AgentTxn.ReachedTransaction
import DataAgentSystem.Containers.MarkedLog

/-! The operations on one branch, each in a world of its own. What they do to the writes
of the branch and to its savepoints is what is done to a log with marks in it: so the
savepoints stand in the order of their places, and none is beyond what has been written. -/

namespace DataAgentSystem.AgentTxn

open Text Intent Cache Branch Storage Interaction Containers BranchManager

inductive BranchOp where
  | read (objectId : Bytes)
  | write (objectId : Bytes) (objectType : ObjectType) (intent : WriteIntent)
  | savepoint (savepointId : Bytes)
  | rollbackToSavepoint (savepointId : Bytes)
  | stage (score : Double) (summary : Bytes)

namespace BranchOp

variable (kind : StoreKind)

def perform (branch : BranchContext) : BranchOp × World → BranchContext
  | (read objectId, w) => ((readObject branch objectId).run (handle kind) w).1.2
  | (write objectId objectType intent, w) =>
    ((bufferWrite branch objectId objectType intent).run (handle kind) w).1
  | (savepoint savepointId, _) => createSavepoint branch savepointId
  | (rollbackToSavepoint savepointId, _) =>
    (RollbackManager.rollbackToSavepoint branch savepointId).2
  | (stage score summary, _) => stageBranch branch score summary

/-- Operations one after the other, each with the world it meets. -/
def performAll (branch : BranchContext) (ops : List (BranchOp × World)) : BranchContext :=
  ops.foldl (perform kind) branch

/-- A write says which object it means. -/
def Named : BranchOp → Prop
  | write objectId _ intent => intent.objectId = objectId
  | _ => True

end BranchOp

open BranchOp

variable {kind : StoreKind} {branch : BranchContext} {k : Bytes} {w : World}
  {ops : List (BranchOp × World)}

theorem performAll_snoc (branch : BranchContext) (ops : List (BranchOp × World))
    (op : BranchOp × World) :
    performAll kind branch (ops ++ [op]) = perform kind (performAll kind branch ops) op :=
  List.foldl_concat ..

theorem synced_perform (h : Synced (fun _ _ => True) branch)
    {op : BranchOp × World} (hnamed : op.1.Named) :
    Synced (fun _ _ => True) (perform kind branch op) := by
  obtain ⟨op, w⟩ := op
  cases op with
  | read objectId => exact h.readObject objectId w
  | write objectId objectType intent => exact h.bufferWrite objectType hnamed trivial
  | savepoint savepointId => exact h.createSavepoint savepointId
  | rollbackToSavepoint savepointId => exact synced_rollbackToSavepoint h savepointId
  | stage score summary => exact h.congr rfl rfl rfl

theorem synced_performAll (h : Synced (fun _ _ => True) branch) (hnamed : ∀ op ∈ ops, op.1.Named) :
    Synced (fun _ _ => True) (performAll kind branch ops) := by
  induction ops using List.reverseRecOn with
  | nil => exact h
  | append_singleton ops op ih =>
    rw [List.forall_mem_append, List.forall_mem_singleton] at hnamed
    rw [performAll_snoc]
    exact synced_perform (ih hnamed.1) hnamed.2

/-! ### Writes and savepoints -/

variable {records : List WriteRecord}

theorem savepoints_bufferWrite (branch : BranchContext) (objectId : Bytes) (objectType : ObjectType)
    (intent : WriteIntent) (w : World) :
    ((bufferWrite branch objectId objectType intent).run (handle kind) w).1.savepoints =
    branch.savepoints := by
  unfold bufferWrite
  cases branch.writeBuffer.find objectId <;> rfl

theorem rollbackToSavepoint_of_none {savepointId : Bytes}
    (h : ∀ s ∈ branch.savepoints, s.savepointId ≠ savepointId) :
    (RollbackManager.rollbackToSavepoint branch savepointId).2 = branch := by
  have hfind : branch.savepoints.find? (fun s => s.savepointId = savepointId) = none := by
    rw [List.find?_eq_none]
    simpa using h
  rw [RollbackManager.rollbackToSavepoint, hfind]

/-- A rollback goes back to the first savepoint of that name and drops the later ones. -/
theorem rollbackToSavepoint_of_split (h : HasWritten branch records) {front rest : List Savepoint}
    {s : Savepoint} (hsplit : branch.savepoints = front ++ s :: rest)
    (hfront : ∀ t ∈ front, t.savepointId ≠ s.savepointId) :
    HasWritten (RollbackManager.rollbackToSavepoint branch s.savepointId).2
      (records.take s.writeLogPosition) ∧
      (RollbackManager.rollbackToSavepoint branch s.savepointId).2.savepoints = front ++ [s] := by
  have hfind : branch.savepoints.find? (fun t => t.savepointId = s.savepointId) = some s := by
    rw [List.find?_eq_some_iff_append]
    exact ⟨by simp, front, rest, hsplit, by simpa using hfront⟩
  refine ⟨h.restored hfind, ?_⟩
  have hcut : branch.savepoints.takeWhile (fun t => t.savepointId ≠ s.savepointId) = front := by
    rw [hsplit, List.takeWhile_append_of_pos (by simpa using hfront),
      List.takeWhile_cons_of_neg (by simp), List.append_nil]
  rw [RollbackManager.rollbackToSavepoint, hfind]
  show branch.savepoints.takeWhile (fun t => t.savepointId ≠ s.savepointId) ++ [s] = front ++ [s]
  rw [hcut]

/-- Whether there is such a savepoint, and which is the first. -/
theorem exists_split (savepoints : List Savepoint) (savepointId : Bytes) :
    (∀ s ∈ savepoints, s.savepointId ≠ savepointId) ∨
      ∃ front s rest, savepoints = front ++ s :: rest ∧ s.savepointId = savepointId ∧
        ∀ t ∈ front, t.savepointId ≠ s.savepointId := by
  cases hfind : savepoints.find? fun s => s.savepointId = savepointId with
  | none => exact .inl (by simpa using List.find?_eq_none.1 hfind)
  | some s =>
    obtain ⟨hs, front, rest, hsplit, hfront⟩ := List.find?_eq_some_iff_append.1 hfind
    have hid : s.savepointId = savepointId := by simpa using hs
    refine .inr ⟨front, s, rest, hsplit, hid, fun t ht => ?_⟩
    rw [hid]
    simpa using hfront t ht

/-- Every operation does one thing to the writes and the savepoints of the branch: it appends
a write, sets a savepoint where the writes end, goes back to one, or leaves them alone. -/
theorem HasWritten.moves (h : HasWritten branch records) (op : BranchOp × World) :
    ∃ records', HasWritten (perform kind branch op) records' ∧
      MarkedLog.Moves Savepoint.writeLogPosition ⟨records, branch.savepoints⟩
        ⟨records', (perform kind branch op).savepoints⟩ := by
  obtain ⟨op, w⟩ := op
  cases op with
  | read objectId =>
    refine ⟨records, h.readObject kind objectId w, ?_⟩
    have hsavepoints : (perform kind branch (.read objectId, w)).savepoints =
        branch.savepoints := by
      show ((BranchManager.readObject branch objectId).run (handle kind) w).1.2.savepoints =
        branch.savepoints
      unfold BranchManager.readObject
      cases branch.writeBuffer.find objectId <;> rfl
    rw [hsavepoints]
    exact .stay _
  | write objectId objectType intent =>
    refine ⟨_, h.bufferWrite kind objectId objectType intent w, ?_⟩
    rw [show (perform kind branch (.write objectId objectType intent, w)).savepoints =
      branch.savepoints from
      savepoints_bufferWrite branch objectId objectType intent w]
    exact .append ⟨records, branch.savepoints⟩ _
  | savepoint savepointId =>
    exact ⟨records, h.createSavepoint savepointId, .mark ⟨records, branch.savepoints⟩ h.size⟩
  | rollbackToSavepoint savepointId =>
    show ∃ records', HasWritten (RollbackManager.rollbackToSavepoint branch savepointId).2
      records' ∧ MarkedLog.Moves _ _
      ⟨records', (RollbackManager.rollbackToSavepoint branch savepointId).2.savepoints⟩
    rcases exists_split branch.savepoints
      savepointId with hnone | ⟨front, s, rest, hsplit, rfl, hfirst⟩
    · rw [rollbackToSavepoint_of_none hnone]
      exact ⟨records, h, .stay _⟩
    · obtain ⟨hwritten, hsavepoints⟩ := rollbackToSavepoint_of_split h hsplit hfirst
      rw [hsavepoints]
      exact ⟨_, hwritten, .goBack ⟨records, branch.savepoints⟩ hsplit⟩
  | stage score summary => exact ⟨records, h.stageBranch score summary, .stay _⟩

/-! ### Savepoints in order -/

/-- Later savepoints are further on, and none is beyond what has been written. -/
structure InOrder (branch : BranchContext) (records : List WriteRecord) : Prop where
  written : HasWritten branch records
  sorted : branch.savepoints.Pairwise fun s t => s.writeLogPosition ≤ t.writeLogPosition
  bounded : ∀ savepoint ∈ branch.savepoints, savepoint.writeLogPosition ≤ records.length

theorem inOrder_new (branchId : Bytes) : InOrder { branchId := branchId } [] :=
  ⟨hasWritten_new branchId, .nil, fun _ h => absurd h List.not_mem_nil⟩

theorem InOrder.sound (h : InOrder branch records) :
    MarkedLog.Sound Savepoint.writeLogPosition ⟨records, branch.savepoints⟩ := ⟨h.sorted, h.bounded⟩

theorem InOrder.perform (h : InOrder branch records) (op : BranchOp × World) :
    ∃ records', InOrder (perform kind branch op) records' ∧
      MarkedLog.Moves Savepoint.writeLogPosition ⟨records, branch.savepoints⟩
        ⟨records', (perform kind branch op).savepoints⟩ := by
  obtain ⟨records', hwritten, hmoves⟩ := @HasWritten.moves kind _ _ h.written op
  obtain ⟨hsorted, hbounded⟩ := hmoves.sound h.sound
  exact ⟨records', ⟨hwritten, hsorted, hbounded⟩, hmoves⟩

theorem exists_inOrder (branchId : Bytes) (ops : List (BranchOp × World)) :
    ∃ records, InOrder (performAll kind { branchId := branchId } ops) records := by
  induction ops using List.reverseRecOn with
  | nil => exact ⟨[], inOrder_new branchId⟩
  | append_singleton ops op ih =>
    obtain ⟨records, h⟩ := ih
    obtain ⟨records', h', -⟩ := @InOrder.perform kind _ _ h op
    rw [performAll_snoc]
    exact ⟨records', h'⟩

end DataAgentSystem.AgentTxn
