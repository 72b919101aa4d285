import DataAgentSystem.AgentTxn.AgentTxnManager

/-! The operations `TaskRuntime` offers on a transaction context. Each finds the
branch it names and does nothing when there is none. -/

namespace DataAgentSystem.AgentTxn

open Text Intent Cache Branch Storage Interaction

namespace AgentTxnContext

def findBranch (txn : AgentTxnContext) (branchId : Bytes) : Option BranchContext :=
  BranchManager.findBranch txn.branches branchId

/-- The transaction after a change of one branch in place. -/
def setBranch (txn : AgentTxnContext) (branch : BranchContext) : AgentTxnContext :=
  { txn with branches := BranchManager.replaceBranch txn.branches branch }

def read (txn : AgentTxnContext) (branchId objectId : Bytes) :
    Prog (ReadResult × AgentTxnContext) :=
  match txn.findBranch branchId with
  | none => return ({}, txn)
  | some branch => do
    let (result, branch) ← BranchManager.readObject branch objectId
    return (result, txn.setBranch branch)

def write (txn : AgentTxnContext) (branchId objectId : Bytes) (objectType : ObjectType)
    (intent : WriteIntent) : Prog AgentTxnContext :=
  match txn.findBranch branchId with
  | none => return txn
  | some branch => do
    let branch ← BranchManager.bufferWrite branch objectId objectType intent
    return txn.setBranch branch

def savepoint (txn : AgentTxnContext) (branchId savepointId : Bytes) : AgentTxnContext :=
  match txn.findBranch branchId with
  | none => txn
  | some branch => txn.setBranch (BranchManager.createSavepoint branch savepointId)

def rollbackToSavepoint (txn : AgentTxnContext) (branchId savepointId : Bytes) :
    Bool × AgentTxnContext :=
  match txn.findBranch branchId with
  | none => (false, txn)
  | some branch =>
    let (rolledBack, branch) := RollbackManager.rollbackToSavepoint branch savepointId
    (rolledBack, txn.setBranch branch)

def stageBranch (txn : AgentTxnContext) (branchId : Bytes) (score : Double) (summary : Bytes) :
    AgentTxnContext :=
  match txn.findBranch branchId with
  | none => txn
  | some branch => txn.setBranch (BranchManager.stageBranch branch score summary)

def abortTask (txn : AgentTxnContext) : AgentTxnContext := RollbackManager.abortTransaction txn

/-- Putting back the branch that was found changes nothing. -/
theorem setBranch_of_findBranch {txn : AgentTxnContext} {branchId : Bytes} {branch : BranchContext}
    (h : txn.findBranch branchId = some branch) : txn.setBranch branch = txn := by
  have hreplace : ∀ branches : List BranchContext,
    BranchManager.findBranch branches branchId = some branch →
      BranchManager.replaceBranch branches branch = branches := by
    intro branches hfind
    have hid := BranchManager.branchId_of_findBranch hfind
    induction branches with
    | nil => rfl
    | cons b branches ih =>
      rw [BranchManager.replaceBranch]
      by_cases hb : b.branchId = branch.branchId
      · have hfirst : b = branch := by simpa [BranchManager.findBranch, hb.trans hid] using hfind
        rw [if_pos hb, hfirst]
      · have hne : b.branchId ≠ branchId := fun heq => hb (heq.trans hid.symm)
        rw [if_neg hb, ih (by simpa [BranchManager.findBranch, hne] using hfind)]
  rw [setBranch, hreplace txn.branches h]

/-- A rollback that fails changes nothing. -/
theorem rollbackToSavepoint_failed {txn : AgentTxnContext} {branchId savepointId : Bytes}
    (h : (txn.rollbackToSavepoint branchId savepointId).1 = false) :
    (txn.rollbackToSavepoint branchId savepointId).2 = txn := by
  unfold rollbackToSavepoint at h ⊢
  cases hfind : txn.findBranch branchId with
  | none => rfl
  | some branch =>
    simp only [hfind] at h ⊢
    cases hsavepoint : branch.savepoints.find? fun savepoint =>
        savepoint.savepointId = savepointId with
    | none =>
      simp only [RollbackManager.rollbackToSavepoint, hsavepoint]
      exact setBranch_of_findBranch hfind
    | some savepoint =>
      rw [RollbackManager.rollbackToSavepoint, hsavepoint] at h
      cases h

/-! ### Reading the store is all they do to the world -/

variable (kind : StoreKind)

theorem run_readObject (branch : BranchContext) (objectId : Bytes) (w : World) :
    ((BranchManager.readObject branch objectId).run (handle kind) w).2 = w := by
  unfold BranchManager.readObject
  cases branch.writeBuffer.find objectId <;> rfl

theorem run_bufferWrite (branch : BranchContext) (objectId : Bytes) (objectType : ObjectType)
    (intent : WriteIntent) (w : World) :
    ((BranchManager.bufferWrite branch objectId objectType intent).run (handle kind) w).2 = w := by
  unfold BranchManager.bufferWrite
  cases branch.writeBuffer.find objectId <;> rfl

theorem run_read (txn : AgentTxnContext) (branchId objectId : Bytes) (w : World) :
    ((txn.read branchId objectId).run (handle kind) w).2 = w := by
  unfold read
  cases txn.findBranch branchId with
  | none => rfl
  | some branch =>
    simp only [Program.run_bind, Program.pure_eq_ret, Program.run_ret, run_readObject]

theorem run_write (txn : AgentTxnContext) (branchId objectId : Bytes) (objectType : ObjectType)
    (intent : WriteIntent) (w : World) :
    ((txn.write branchId objectId objectType intent).run (handle kind) w).2 = w := by
  unfold write
  cases txn.findBranch branchId with
  | none => rfl
  | some branch =>
    simp only [Program.run_bind, Program.pure_eq_ret, Program.run_ret, run_bufferWrite]

/-- Only the branches differ. -/
def SameBesideBranches (txn txn' : AgentTxnContext) : Prop :=
  txn' = { txn with branches := txn'.branches }

theorem SameBesideBranches.status {txn txn' : AgentTxnContext} (h : SameBesideBranches txn txn') :
    txn'.status = txn.status := by rw [h]

theorem SameBesideBranches.fallbackCommit {txn txn' : AgentTxnContext}
    (h : SameBesideBranches txn txn') :
    txn'.fallbackCommit = txn.fallbackCommit := by rw [h]

theorem SameBesideBranches.winnerBranchId {txn txn' : AgentTxnContext}
    (h : SameBesideBranches txn txn') :
    txn'.winnerBranchId = txn.winnerBranchId := by rw [h]

theorem SameBesideBranches.refl (txn : AgentTxnContext) : SameBesideBranches txn txn := rfl

theorem sameBesideBranches_setBranch (txn : AgentTxnContext) (branch : BranchContext) :
    SameBesideBranches txn (txn.setBranch branch) := rfl

section Branches

variable (txn : AgentTxnContext) (branchId : Bytes)

theorem returns_read (objectId : Bytes) :
    (txn.read branchId objectId).Returns fun out => SameBesideBranches txn out.2 := by
  unfold read
  cases txn.findBranch branchId with
  | none => exact SameBesideBranches.refl txn
  | some branch =>
    exact (Program.returns_true _).bind fun out _ => sameBesideBranches_setBranch txn out.2

theorem returns_write (objectId : Bytes) (objectType : ObjectType) (intent : WriteIntent) :
    (txn.write branchId objectId objectType intent).Returns fun txn' =>
      SameBesideBranches txn txn' := by
  unfold write
  cases txn.findBranch branchId with
  | none => exact SameBesideBranches.refl txn
  | some branch =>
    exact (Program.returns_true _).bind fun branch' _ => sameBesideBranches_setBranch txn branch'

theorem sameBesideBranches_savepoint (savepointId : Bytes) :
    SameBesideBranches txn (txn.savepoint branchId savepointId) := by
  unfold savepoint
  cases txn.findBranch branchId <;> rfl

theorem sameBesideBranches_rollbackToSavepoint (savepointId : Bytes) :
    SameBesideBranches txn (txn.rollbackToSavepoint branchId savepointId).2 := by
  unfold rollbackToSavepoint
  cases txn.findBranch branchId <;> rfl

theorem sameBesideBranches_stageBranch (score : Double) (summary : Bytes) :
    SameBesideBranches txn (txn.stageBranch branchId score summary) := by
  unfold stageBranch
  cases txn.findBranch branchId <;> rfl

theorem only_read (objectId : Bytes) : (txn.read branchId objectId).Only fun op =>
    ∃ key, op = .get key := by
  unfold read
  cases txn.findBranch branchId with
  | none => trivial
  | some branch =>
    have hread : (BranchManager.readObject branch objectId).Only fun op =>
        ∃ key, op = .get key := by
      unfold BranchManager.readObject
      cases branch.writeBuffer.find objectId with
      | some buffered => trivial
      | none => exact ⟨⟨objectId, rfl⟩, fun _ => trivial⟩
    exact Program.only_bind hread fun out => trivial

theorem only_write (objectId : Bytes) (objectType : ObjectType) (intent : WriteIntent) :
    (txn.write branchId objectId objectType intent).Only fun op => ∃ key, op = .get key := by
  unfold write
  cases txn.findBranch branchId with
  | none => trivial
  | some branch =>
    have hwrite : (BranchManager.bufferWrite branch objectId objectType intent).Only fun op =>
        ∃ key, op = .get key := by
      unfold BranchManager.bufferWrite
      cases branch.writeBuffer.find objectId with
      | some existing => trivial
      | none => exact ⟨⟨objectId, rfl⟩, fun _ => trivial⟩
    exact Program.only_bind hwrite fun out => trivial

end Branches

end AgentTxnContext

end DataAgentSystem.AgentTxn
