import DataAgentSystem.AgentTxn.CommitOutcome
import DataAgentSystem.AgentTxn.RestoredSavepoints

/-! What a commit says about itself. Whoever interferes, the validation result of a
transaction that has been committed says whether it was, and its counters are as they
were. A branch that has read what has changed since does not commit. -/

namespace DataAgentSystem.AgentTxn

open Text Intent Cache Branch Storage Interaction Containers AgentTxnManager CommitManager

variable {kind : StoreKind} {txn : AgentTxnContext} {branch winner : BranchContext} {w : World}

/-- A commit that returns leaves a validation result that says the same. -/
theorem returns_verdict (txn : AgentTxnContext) : (selectWinnerAndCommit txn).Returns fun out =>
    out.2.metrics = txn.metrics ∧ ∀ committed, out.1 = .ok committed →
        out.2.validationResult.success = committed := by
  unfold selectWinnerAndCommit
  cases BranchManager.selectWinner txn.branches with
  | error what => exact ⟨rfl, nofun⟩
  | ok winnerBranchId =>
    have hmarked : (commitMarked (mark txn winnerBranchId)).Returns fun out =>
        out.2.metrics = txn.metrics ∧ out.2.validationResult.success = out.1 := by
      unfold commitMarked
      cases BranchManager.findBranch (mark txn winnerBranchId).branches
          (mark txn winnerBranchId).winnerBranchId with
      | none => exact ⟨rfl, rfl⟩
      | some winner =>
        refine (Program.returns_true _).bind fun validation _ => ?_
        cases hsuccess : validation.success with
        | false => exact ⟨rfl, hsuccess⟩
        | true =>
          refine (Program.returns_true _).bind fun result _ => ?_
          cases result with
          | error reason => exact ⟨rfl, rfl⟩
          | ok commitLog => exact ⟨rfl, hsuccess⟩
    refine hmarked.bind fun out hout => ⟨hout.1, ?_⟩
    rintro _ ⟨⟩
    exact hout.2

/-! ### Entries -/

/-- The writes that are published are those in the commit log. -/
theorem returns_publish (txn : AgentTxnContext) (seenChecks : UnorderedMap UInt64)
    (writes : List WriteOp) :
    (publish txn seenChecks writes).Returns fun r => ∀ commitLog, r = .ok commitLog →
      commitLog = commitLogOf seenChecks writes := by
  refine (Program.returns_true _).bind fun supported _ => ?_
  cases supported with
  | true =>
    refine (Program.returns_true _).bind fun written _ => ?_
    cases written with
    | true =>
      rintro _ ⟨⟩
      rfl
    | false =>
      refine (Program.returns_true _).bind fun supported _ => ?_
      cases supported <;> exact nofun
  | false =>
    refine (Program.returns_true _).bind fun applied _ => ?_
    cases applied with
    | error reason => exact nofun
    | ok _ =>
      rintro _ ⟨⟩
      rfl

/-- A commit logs an entry for each object that its winner writes. -/
theorem length_commitWinner {calls : List (Event Call World)} {commitLog : CommitLog}
    (h : (commitWinner txn winner).Interfered (handle kind) calls (.ok commitLog)) :
    commitLog.entries.length = (writtenEntries winner).length := by
  rw [commitWinner_eq] at h
  cases hread : readChecks winner.readSet.entries ∅ with
  | error reason =>
    rw [hread] at h
    obtain ⟨-, heq⟩ := Program.interfered_ret.1 h
    cases heq
  | ok seenChecks =>
    rw [hread] at h
    obtain ⟨resolving, resolved, publishing, rfl, hresolve, hpublish⟩ := Program.interfered_bind.1 h
    cases resolved with
    | error reason =>
      obtain ⟨-, heq⟩ := Program.interfered_ret.1 hpublish
      cases heq
    | ok resolved =>
      obtain ⟨seenChecks', writes⟩ := resolved
      obtain ⟨new, hnew, hall⟩ := resolveEntries_writes hresolve
      rw [List.nil_append] at hnew
      rw [(returns_publish txn seenChecks' writes).interfered hpublish commitLog rfl,
        commitLogOf, List.length_map, hnew]
      exact hall.length_eq.symm

/-- What a commit that returns leaves in the commit log. -/
theorem entries_selectWinnerAndCommit {calls : List (Event Call World)}
    {outcome : Bool} {txn' : AgentTxnContext} (hs : Selects txn winner)
    (h : (selectWinnerAndCommit txn).Interfered (handle kind) calls (.ok outcome, txn')) :
    txn'.commitLog.entries.length =
      if outcome then (writtenEntries winner).length else txn.commitLog.entries.length := by
  obtain ⟨v, looks, -, ⟨-, -, hresult, rfl⟩ | ⟨-, committing, result, -, hcommit, hresult, rfl⟩⟩ :=
    selectWinnerAndCommit_steps hs h
  · obtain rfl := Except.ok.inj hresult
    rfl
  · obtain rfl := Except.ok.inj hresult
    cases result with
    | error reason => rfl
    | ok commitLog => exact length_commitWinner hcommit

/-! ### Stale reads -/

/-- No operation takes a read back. -/
theorem reads_perform (op : BranchOp × World) :
    branch.readSet.entries ⊆ (BranchOp.perform kind branch op).readSet.entries := by
  obtain ⟨op, w⟩ := op
  cases op with
  | read objectId =>
    show _ ⊆ ((BranchManager.readObject branch objectId).run (handle kind) w).1.2.readSet.entries
    unfold BranchManager.readObject
    cases branch.writeBuffer.find objectId with
    | some entry => exact fun _ h => h
    | none => exact fun _ h => List.mem_append_left _ h
  | write objectId objectType intent =>
    show _ ⊆ ((BranchManager.bufferWrite branch objectId objectType intent).run
      (handle kind) w).1.readSet.entries
    unfold BranchManager.bufferWrite
    cases branch.writeBuffer.find objectId <;> exact fun _ h => h
  | savepoint savepointId => exact fun _ h => h
  | rollbackToSavepoint savepointId =>
    show _ ⊆ (RollbackManager.rollbackToSavepoint branch savepointId).2.readSet.entries
    unfold RollbackManager.rollbackToSavepoint
    split <;> exact fun _ h => h
  | stage score summary => exact fun _ h => h

/-- What a branch reads first it has read for good. -/
theorem mem_reads_worked (branchId objectId : Bytes) (w : World)
    (history : List (BranchOp × World)) :
    { objectId, observedVersion := w.store.getVersion objectId } ∈
      (worked kind branchId ((.read objectId, w) :: history)).readSet.entries := by
  induction history using List.reverseRecOn with
  | nil => exact List.mem_singleton_self _
  | append_singleton history op ih =>
    rw [← List.cons_append, worked_snoc]
    exact reads_perform op ih

/-- A winner that has read an object that it does not write, and that has changed since, is
refused. -/
theorem run_selectWinnerAndCommit_of_stale (hs : Selects txn winner) {read : ReadRecord}
    (hread : read ∈ winner.readSet.entries) (hrebased : rebased winner read.objectId = false)
    (hstale : w.store.getVersion read.objectId ≠ read.observedVersion) :
    ((selectWinnerAndCommit txn).run (handle kind) w).1.1 = .ok false ∧
      ((selectWinnerAndCommit txn).run (handle kind) w).2 = w := by
  have hready : ¬Ready winner w.store := by
    intro hready
    rcases hready.validated read hread with h | h
    · rw [hrebased] at h
      cases h
    · exact hstale h
  obtain ⟨v, hrun⟩ := run_selectWinnerAndCommit_of_not_ready kind hs hready
  rw [hrun]
  exact ⟨rfl, rfl⟩

end DataAgentSystem.AgentTxn
