import DataAgentSystem.AgentTxn.BranchHistory
import DataAgentSystem.Runtime.TxnOperations

/-! What holds of every branch of a transaction. An operation works on one branch, and
the end of a transaction on all of them alike; so a property that they keep holds of
every branch of the transaction. -/

namespace DataAgentSystem.AgentTxn

open Text Intent Cache Branch Storage Interaction

variable {kind : StoreKind} {P : BranchContext → Prop} {txn : AgentTxnContext}

def AllBranches (P : BranchContext → Prop) (txn : AgentTxnContext) : Prop :=
  ∀ branch ∈ txn.branches, P branch

/-- What a transaction does to branches without reading, writing or staging keeps the property. -/
structure Kept (P : BranchContext → Prop) : Prop where
  new : ∀ branchId, P { branchId := branchId }
  setStatus : ∀ {branch : BranchContext}, P branch → ∀ status, P { branch with status := status }
  createSavepoint : ∀ {branch : BranchContext}, P branch → ∀ savepointId,
    P (BranchManager.createSavepoint branch savepointId)
  rollbackToSavepoint : ∀ {branch : BranchContext}, P branch → ∀ savepointId,
    P (RollbackManager.rollbackToSavepoint branch savepointId).2
  discardBranch : ∀ {branch : BranchContext}, P branch → P (RollbackManager.discardBranch branch)

theorem AllBranches.findBranch (h : AllBranches P txn) {branchId : Bytes} {branch : BranchContext}
    (hbranch : txn.findBranch branchId = some branch) : P branch :=
  h branch (BranchManager.mem_of_findBranch hbranch)

theorem AllBranches.setBranch (h : AllBranches P txn)
    {branch : BranchContext} (hbranch : P branch) :
    AllBranches P (txn.setBranch branch) := by
  intro b hb
  rcases BranchManager.mem_of_mem_replaceBranch hb with rfl | hold
  · exact hbranch
  · exact h b hold

theorem AllBranches.map (h : AllBranches P txn) {f : BranchContext → BranchContext}
    (hf : ∀ branch, P branch → P (f branch)) {txn' : AgentTxnContext}
    (hbranches : txn'.branches = txn.branches.map f) : AllBranches P txn' := by
  intro b hb
  rw [hbranches] at hb
  obtain ⟨branch, hmem, rfl⟩ := List.mem_map.1 hb
  exact hf branch (h branch hmem)

/-! ### Operations -/

theorem AllBranches.createBranch (h : AllBranches P txn) (hkept : Kept P) (branchId : Bytes) :
    AllBranches P (AgentTxnManager.createBranch txn branchId) := by
  intro b hb
  rcases List.mem_append.1 hb with hold | hnew
  · exact h b hold
  · rw [List.mem_singleton.1 hnew]
    exact hkept.new branchId

theorem AllBranches.read (h : AllBranches P txn) {branchId objectId : Bytes} {w : World}
    (hread : ∀ branch, P branch →
      P ((BranchManager.readObject branch objectId).run (handle kind) w).1.2) :
    AllBranches P ((txn.read branchId objectId).run (handle kind) w).1.2 := by
  unfold AgentTxnContext.read
  cases hb : txn.findBranch branchId with
  | none => exact h
  | some branch =>
    simp only [Program.run_bind, Program.pure_eq_ret, Program.run_ret]
    exact h.setBranch (hread branch (h.findBranch hb))

theorem AllBranches.write (h : AllBranches P txn) {branchId objectId : Bytes}
    {objectType : ObjectType} {intent : WriteIntent} {w : World} (hwrite : ∀ branch, P branch →
      P ((BranchManager.bufferWrite branch objectId objectType intent).run (handle kind) w).1) :
    AllBranches P ((txn.write branchId objectId objectType intent).run (handle kind) w).1 := by
  unfold AgentTxnContext.write
  cases hb : txn.findBranch branchId with
  | none => exact h
  | some branch =>
    simp only [Program.run_bind, Program.pure_eq_ret, Program.run_ret]
    exact h.setBranch (hwrite branch (h.findBranch hb))

theorem AllBranches.savepoint (h : AllBranches P txn) (hkept : Kept P)
    (branchId savepointId : Bytes) :
    AllBranches P (txn.savepoint branchId savepointId) := by
  unfold AgentTxnContext.savepoint
  cases hb : txn.findBranch branchId with
  | none => exact h
  | some branch => exact h.setBranch (hkept.createSavepoint (h.findBranch hb) savepointId)

theorem AllBranches.rollbackToSavepoint (h : AllBranches P txn) (hkept : Kept P)
    (branchId savepointId : Bytes) :
    AllBranches P (txn.rollbackToSavepoint branchId savepointId).2 := by
  unfold AgentTxnContext.rollbackToSavepoint
  cases hb : txn.findBranch branchId with
  | none => exact h
  | some branch => exact h.setBranch (hkept.rollbackToSavepoint (h.findBranch hb) savepointId)

theorem AllBranches.stageBranch (h : AllBranches P txn) {branchId : Bytes}
    {score : Double} {summary : Bytes}
    (hstage : ∀ branch, P branch → P (BranchManager.stageBranch branch score summary)) :
    AllBranches P (txn.stageBranch branchId score summary) := by
  unfold AgentTxnContext.stageBranch
  cases hb : txn.findBranch branchId with
  | none => exact h
  | some branch => exact h.setBranch (hstage branch (h.findBranch hb))

theorem AllBranches.abortTask (h : AllBranches P txn) (hkept : Kept P) :
    AllBranches P txn.abortTask :=
  h.map (fun _ => hkept.discardBranch) rfl

/-! ### Commits -/

theorem AllBranches.mark (h : AllBranches P txn) (hkept : Kept P) (winnerBranchId : Bytes) :
    AllBranches P (AgentTxnManager.mark txn winnerBranchId) :=
  h.map (fun _ hb => hkept.setStatus hb _) rfl

theorem AllBranches.finish (h : AllBranches P txn) (hkept : Kept P)
    {winner : BranchContext} (hw : P winner) (commitLog : CommitLog) :
    AllBranches P (AgentTxnManager.finish txn winner commitLog) := by
  have hreplaced : AllBranches P (txn.setBranch { winner with status := .committed }) :=
    h.setBranch (hkept.setStatus hw .committed)
  refine hreplaced.map (fun branch hb => ?_) rfl
  split
  · exact hkept.discardBranch hb
  · exact hb

theorem AllBranches.commitMarked (h : AllBranches P txn) (hkept : Kept P) :
    (AgentTxnManager.commitMarked txn).Returns fun out => AllBranches P out.2 := by
  unfold AgentTxnManager.commitMarked
  cases hfind : BranchManager.findBranch txn.branches txn.winnerBranchId with
  | none => exact h.abortTask hkept
  | some winner =>
    refine (Program.returns_true _).bind fun validation _ => ?_
    simp only
    split
    next => exact h.abortTask hkept
    next =>
      refine (Program.returns_true _).bind fun result _ => ?_
      cases result with
      | error reason => exact h.abortTask hkept
      | ok commitLog =>
        have hmarked : AllBranches P { txn with validationResult := validation } := h
        exact hmarked.finish hkept (h winner (BranchManager.mem_of_findBranch hfind)) commitLog

theorem AllBranches.selectWinnerAndCommit (h : AllBranches P txn) (hkept : Kept P) :
    (AgentTxnManager.selectWinnerAndCommit txn).Returns fun out => AllBranches P out.2 := by
  unfold AgentTxnManager.selectWinnerAndCommit
  cases BranchManager.selectWinner txn.branches with
  | error what => exact h
  | ok winnerBranchId =>
    exact ((h.mark hkept winnerBranchId).commitMarked hkept).bind fun out hout => hout

/-! ### Properties of the history of a branch -/

/-- The history of the branch, and all that a rollback may leave of it, has the property. -/
def Throughout (Q : List WriteRecord → Prop) (branch : BranchContext) : Prop :=
  ∃ records, HasWritten branch records ∧ ∀ n, Q (records.take n)

variable {Q : List WriteRecord → Prop} {branch : BranchContext}

theorem Throughout.congr (h : Throughout Q branch) {branch' : BranchContext}
    (hbuffer : branch'.writeBuffer = branch.writeBuffer)
    (hlog : branch'.intentLog = branch.intentLog)
    (hsavepoints : branch'.savepoints = branch.savepoints) :
    Throughout Q branch' := by
  obtain ⟨records, hwritten, hall⟩ := h
  exact ⟨records, hwritten.congr hbuffer hlog hsavepoints, hall⟩

theorem Throughout.now (h : Throughout Q branch) :
    ∃ records, HasWritten branch records ∧ Q records := by
  obtain ⟨records, hwritten, hall⟩ := h
  have hfull := hall records.length
  rw [List.take_length] at hfull
  exact ⟨records, hwritten, hfull⟩

theorem Throughout.readObject (h : Throughout Q branch) (objectId : Bytes) (w : World) :
    Throughout Q ((BranchManager.readObject branch objectId).run (handle kind) w).1.2 := by
  obtain ⟨records, hwritten, hall⟩ := h
  exact ⟨records, hwritten.readObject kind objectId w, hall⟩

/-- A write keeps the property if the new history has it. -/
theorem Throughout.bufferWrite (h : Throughout Q branch) {objectId : Bytes}
    {objectType : ObjectType} {intent : WriteIntent} {w : World}
    (hnew : ∀ records, HasWritten branch records → Q records → Q (records ++
      [⟨BranchManager.updateEntry (startEntry branch objectId objectType (w.store.get objectId))
        objectType intent, intent⟩])) :
    Throughout Q
      ((BranchManager.bufferWrite branch objectId objectType intent).run (handle kind) w).1 := by
  obtain ⟨records, hwritten, hall⟩ := h
  refine ⟨_, hwritten.bufferWrite kind objectId objectType intent w, fun n => ?_⟩
  by_cases hn : n ≤ records.length
  · rw [List.take_append_of_le_length hn]
    exact hall n
  · rw [List.take_of_length_le (by rw [List.length_append, List.length_singleton]; omega)]
    have hfull := hall records.length
    rw [List.take_length] at hfull
    exact hnew records hwritten hfull

theorem HasWritten.discardBranch {records : List WriteRecord} (h : HasWritten branch records) :
    HasWritten (RollbackManager.discardBranch branch) (records.take 0) := by
  refine ⟨?_, rfl, fun _ hmem => absurd hmem List.not_mem_nil⟩
  change branch.writeBuffer.toWriteBufferData.truncate 0 = _
  rw [h.buffer, WriteBufferData.truncate_replay, List.map_take]

theorem kept_throughout (hnil : Q []) : Kept (Throughout Q) where
  new branchId := ⟨[], hasWritten_new branchId, fun n => by rwa [List.take_nil]⟩
  setStatus h _ := h.congr rfl rfl rfl
  createSavepoint h savepointId := by
    obtain ⟨records, hwritten, hall⟩ := h
    exact ⟨records, hwritten.createSavepoint savepointId, hall⟩
  rollbackToSavepoint h savepointId := by
    obtain ⟨records, hwritten, hall⟩ := h
    obtain ⟨m, hcut⟩ := hwritten.rollbackToSavepoint savepointId
    refine ⟨records.take m, hcut, fun n => ?_⟩
    rw [List.take_take]
    exact hall _
  discardBranch h := by
    obtain ⟨records, hwritten, hall⟩ := h
    refine ⟨records.take 0, hwritten.discardBranch, fun n => ?_⟩
    rw [List.take_take]
    exact hall _

end DataAgentSystem.AgentTxn
