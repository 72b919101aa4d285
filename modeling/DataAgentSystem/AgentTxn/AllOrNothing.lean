import DataAgentSystem.AgentTxn.CommitAmongWriters

/-! A transaction on a store with atomic batches commits wholly or not at all,
whatever other writers do between its calls. -/

namespace DataAgentSystem.AgentTxn

open Text Intent Cache Branch Storage Interaction Containers CommitManager RollbackManager

namespace AgentTxnManager

/-- The calls `tr` of a transaction that did not commit, and what is left of it. -/
structure Refused (txn : AgentTxnContext) (tr : List (Event Call World))
    (txn' : AgentTxnContext) : Prop where
  store : ∀ e ∈ tr, KeepsStore e
  status : txn'.status = .aborted
  branchIds : txn'.branches.map (·.branchId) = txn.branches.map (·.branchId)
  branches : ∀ b ∈ txn'.branches, Discarded b
  commitLog : txn'.commitLog = txn.commitLog

/-- The calls `tr` of a transaction that committed the writes of `winner` as one
batch, which met the world `before`, and what is left of it. -/
structure Committed (txn : AgentTxnContext) (tr : List (Event Call World)) (txn' : AgentTxnContext)
    (winner : BranchContext) (checks : List VersionCheck) (writes : List WriteOp)
    (before : World) : Prop where
  winner_mem : winner ∈ txn.branches
  selected : BranchManager.selectWinner txn.branches = .ok winner.branchId
  trace : ∃ looks, ReadOnly looks ∧ tr = looks ++ [⟨.batchPutIfVersion checks writes, before⟩]
  writes_eq : List.Forall₂ (Resolved (latestIntents winner.intentLog) tr)
    (writtenEntries winner) writes
  changed : ∀ write ∈ writes,
    (handle .memory (.batchPutIfVersion checks writes) before).2.store.get write.key =
      { value := write.value, version := before.store.getVersion write.key + 1, exists_ := true }
  unchanged : ∀ k, k ∉ (writtenEntries winner).map (·.objectId) →
    (handle .memory (.batchPutIfVersion checks writes) before).2.store.get k = before.store.get k
  commitLog : txn'.commitLog.entries = writes.map fun write =>
    { key := write.key, value := write.value, expectedVersion := before.store.getVersion write.key }
  status : txn'.status = .committed
  branchIds : txn'.branches.map (·.branchId) = txn.branches.map (·.branchId)
  winner_status : ∀ b ∈ txn'.branches, b.branchId = winner.branchId → b.status = .committed
  losers : ∀ b ∈ txn'.branches, b.branchId ≠ winner.branchId → Discarded b

theorem refused_refuse (txn : AgentTxnContext) {tr : List (Event Call World)}
    (htr : ∀ e ∈ tr, KeepsStore e) (v : ValidationResult) :
    Refused txn tr (abortTransaction { txn with validationResult := v }) where
  store := htr
  status := rfl
  branchIds := by simp [abortTransaction, Function.comp_def]
  branches _ hb := discarded_abortTransaction hb
  commitLog := rfl

/-- How a marked transaction ends. -/
theorem commitMarked_cases {txn : AgentTxnContext} {winner : BranchContext}
    {tr : List (Event Call World)} {out : Bool × AgentTxnContext}
    (hw : BranchManager.findBranch txn.branches txn.winnerBranchId = some winner)
    (h : (commitMarked txn).Interfered (handle .memory) tr out) :
    (out.1 = false ∧ (∀ e ∈ tr, Harmless e) ∧
        ∃ v, out.2 = abortTransaction { txn with validationResult := v }) ∨
      (out.1 = true ∧ ∃ v looks batch log, tr = looks ++ batch ∧ ReadOnly looks ∧
        (commitWinner { txn with validationResult := v } winner).Interfered
          (handle .memory) batch (.ok log) ∧
        out.2 = finish { txn with validationResult := v } winner log) := by
  simp only [commitMarked, hw] at h
  obtain ⟨looks, v, rest, rfl, hvalidate, hcommit⟩ := Program.interfered_bind.1 h
  clear h
  have hlooks := ValidationManager.readOnly_validateReads hvalidate
  cases hv : v.success with
  | false =>
    simp only [hv, Bool.not_false, ↓reduceIte, Program.pure_eq_ret,
      Program.interfered_ret] at hcommit
    obtain ⟨rfl, rfl⟩ := hcommit
    refine .inl ⟨rfl, ?_, v, rfl⟩
    rw [List.append_nil]
    exact harmless_of_readOnly hlooks
  | true =>
    simp only [hv, Bool.not_true, Bool.false_eq_true, ↓reduceIte] at hcommit
    obtain ⟨batch, r, rest', rfl, hwinner, hend⟩ := Program.interfered_bind.1 hcommit
    clear hcommit
    cases r with
    | error reason =>
      obtain ⟨rfl, rfl⟩ := Program.interfered_ret.1 hend
      refine .inl ⟨rfl, ?_, { success := false, reason }, rfl⟩
      rw [List.append_nil, List.forall_mem_append]
      exact ⟨harmless_of_readOnly hlooks, commitWinner_error hwinner⟩
    | ok log =>
      obtain ⟨rfl, rfl⟩ := Program.interfered_ret.1 hend
      refine .inr ⟨rfl, v, looks, batch, log, ?_, hlooks, hwinner, rfl⟩
      rw [List.append_nil]

/-- The branches of a finished transaction. -/
theorem branchIds_finish (txn : AgentTxnContext) (winner : BranchContext) (log : CommitLog) :
    (finish txn winner log).branches.map (·.branchId) = txn.branches.map (·.branchId) := by
  have hid : ∀ bs : List BranchContext, (bs.map fun b =>
      if b.branchId ≠ txn.winnerBranchId then discardBranch b else b).map (·.branchId) =
          bs.map (·.branchId) := by
    intro bs
    rw [List.map_map]
    apply List.map_congr_left
    intro b _
    simp only [Function.comp_apply]
    split <;> rfl
  rw [finish, hid, BranchManager.map_branchId_replaceBranch]

theorem mem_replaceBranch {branches : List BranchContext} {branch b : BranchContext}
    (hnodup : (branches.map (·.branchId)).Nodup)
    (hb : b ∈ BranchManager.replaceBranch branches branch) (hid : b.branchId = branch.branchId) :
    b = branch := by
  induction branches with
  | nil => simp [BranchManager.replaceBranch] at hb
  | cons b' branches ih =>
    rw [List.map_cons, List.nodup_cons] at hnodup
    by_cases hb' : b'.branchId = branch.branchId
    · rw [BranchManager.replaceBranch, if_pos hb'] at hb
      rcases List.mem_cons.1 hb with rfl | hb
      · rfl
      · have hmem : b'.branchId ∈ branches.map (·.branchId) := by
          rw [hb', ← hid]
          exact List.mem_map_of_mem hb
        exact absurd hmem hnodup.1
    · rw [BranchManager.replaceBranch, if_neg hb'] at hb
      rcases List.mem_cons.1 hb with rfl | hb
      · exact absurd hid hb'
      · exact ih hnodup.2 hb

theorem winner_finish {txn : AgentTxnContext} {winner b : BranchContext} {log : CommitLog}
    (hnodup : (txn.branches.map (·.branchId)).Nodup) (hw : winner.branchId = txn.winnerBranchId)
    (hb : b ∈ (finish txn winner log).branches) :
    (b.branchId = winner.branchId → b.status = .committed) ∧
      (b.branchId ≠ winner.branchId → Discarded b) := by
  obtain ⟨b', hb', rfl⟩ := List.mem_map.1 hb
  by_cases hid : b'.branchId = txn.winnerBranchId
  · have heq : b' = { winner with status := .committed } :=
      mem_replaceBranch hnodup hb' (by rw [hid, hw])
    rw [if_neg (by simp [hid])]
    exact ⟨fun _ => by rw [heq], fun hne => absurd (hid.trans hw.symm) hne⟩
  · rw [if_pos hid]
    exact ⟨fun heq => absurd (heq.trans hw) hid, fun _ => discarded_discardBranch b'⟩

/-- The store a batch leaves, key by key. -/
theorem get_after_batch {winner : BranchContext} {tr : List (Event Call World)}
    {seenChecks : UnorderedMap UInt64} {writes : List WriteOp} {before : World}
    (hbatch : BatchCommit winner tr seenChecks writes before) :
    (handle .memory (.batchPutIfVersion (checksOf seenChecks) writes) before).2.store =
        before.store.applyWrites writes ∧
      writes.map WriteOp.key = (writtenEntries winner).map (·.objectId) ∧
        (writes.map WriteOp.key).Nodup := by
  have hmap := keys_of_resolved hbatch.resolved
  refine ⟨hbatch.after_batch, hmap, ?_⟩
  rw [hmap]
  exact (List.filter_sublist.map _).nodup winner.writeBuffer.nodup_objectId_orderedEntries

/-- How a transaction with branches ends: with everything discarded and the store
untouched, or with the batch of the selected winner. -/
theorem selectWinnerAndCommit_cases {txn : AgentTxnContext} (hne : txn.branches ≠ [])
    {tr : List (Event Call World)} {r : Except Bytes Bool} {txn' : AgentTxnContext}
    (hrun : (selectWinnerAndCommit txn).Interfered (handle .memory) tr (r, txn')) :
    ∃ winner, BranchManager.selectWinner txn.branches = .ok winner.branchId ∧
      BranchManager.findBranch txn.branches winner.branchId = some winner ∧
      ((r = .ok false ∧ (∀ e ∈ tr, Harmless e) ∧
          ∃ v, txn' = abortTransaction { mark txn winner.branchId with validationResult := v }) ∨
        (r = .ok true ∧ ∃ v looks batch seenChecks writes before,
          tr = looks ++ batch ∧ ReadOnly looks ∧
          BatchCommit winner batch seenChecks writes before ∧
          txn' = finish { mark txn winner.branchId with validationResult := v }
            { winner with status := .winner } (commitLogOf seenChecks writes))) := by
  obtain ⟨id, hselect, hid⟩ := BranchManager.selectWinner_ok hne
  simp only [selectWinnerAndCommit, hselect] at hrun
  obtain ⟨es, out, rest, rfl, hmarked, hret⟩ := Program.interfered_bind.1 hrun
  obtain ⟨rfl, heq⟩ := Program.interfered_ret.1 hret
  cases heq
  clear hrun hret
  rw [List.append_nil]
  obtain ⟨winner, hwinner⟩ := Option.isSome_iff_exists.1 (BranchManager.findBranch_isSome.2 hid)
  have hwid : winner.branchId = id := BranchManager.branchId_of_findBranch hwinner
  subst hwid
  have hfind : BranchManager.findBranch (mark txn winner.branchId).branches
    (mark txn winner.branchId).winnerBranchId =
      some { winner with status := .winner } := by
    rw [mark, BranchManager.findBranch_markWinnerAndLosers, hwinner, Option.map_some, if_pos rfl]
  refine ⟨winner, hselect, hwinner, ?_⟩
  rcases commitMarked_cases hfind hmarked with ⟨hfalse, hharmless, v, hout⟩ |
      ⟨htrue, v, looks, batch, log, rfl, hlooks, hcommit, hout⟩
  · exact .inl ⟨by rw [hfalse], hharmless, v, hout⟩
  · obtain ⟨seenChecks, writes, before, hbatch, rfl⟩ := commitWinner_ok hcommit
    -- marking changed the status of the winner and nothing a commit reads
    have hsame : BatchCommit winner batch seenChecks writes before :=
      ⟨hbatch.trace, hbatch.checked, hbatch.found, hbatch.resolved, hbatch.covered, hbatch.strict⟩
    exact .inr ⟨by rw [htrue], v, looks, batch, seenChecks, writes, before, rfl, hlooks, hsame, hout⟩

/-- Among other writers, a transaction with distinct branches either returns false
and has changed nothing, or returns true and has made exactly the winner's writes. -/
theorem selectWinnerAndCommit_allOrNothing (txn : AgentTxnContext) (hne : txn.branches ≠ [])
    (hnodup : (txn.branches.map (·.branchId)).Nodup) (tr : List (Event Call World))
    (r : Except Bytes Bool) (txn' : AgentTxnContext)
    (hrun : (selectWinnerAndCommit txn).Interfered (handle .memory) tr (r, txn')) :
    (r = .ok false ∧ Refused txn tr txn') ∨
      (r = .ok true ∧ ∃ winner checks writes before,
        Committed txn tr txn' winner checks writes before) := by
  obtain ⟨winner, hselect, hwinner, ⟨rfl, hharmless, v, rfl⟩ |
    ⟨rfl, v, looks, batch, seenChecks, writes, before, rfl, hlooks, hbatch, rfl⟩⟩ :=
      selectWinnerAndCommit_cases hne hrun
  · have hids : (mark txn winner.branchId).branches.map (·.branchId) =
        txn.branches.map (·.branchId) :=
      BranchManager.map_branchId_markWinnerAndLosers _ _
    obtain ⟨h₁, h₂, h₃, h₄, h₅⟩ :=
      refused_refuse (mark txn winner.branchId) (fun e he => (hharmless e he).keepsStore) v
    exact .inl ⟨rfl, h₁, h₂, h₃.trans hids, h₄, h₅⟩
  · have hids : (mark txn winner.branchId).branches.map (·.branchId) =
        txn.branches.map (·.branchId) :=
      BranchManager.map_branchId_markWinnerAndLosers _ _
    obtain ⟨hstore, hkeys, hnodupKeys⟩ := get_after_batch hbatch
    refine .inr ⟨rfl, winner, checksOf seenChecks, writes, before, ?_⟩
    constructor
    case winner_mem => exact BranchManager.mem_of_findBranch hwinner
    case selected => exact hselect
    case trace =>
      obtain ⟨looks', hlooks', rfl⟩ := hbatch.trace
      exact ⟨looks ++ looks', readOnly_append.2 ⟨hlooks, hlooks'⟩, by rw [List.append_assoc]⟩
    case writes_eq => exact hbatch.resolved.imp fun _ _ h => h.mono (List.subset_append_right _ _)
    case changed =>
      intro write hwrite
      rw [hstore]
      exact MemoryKVStore.get_applyWrites_of_mem hnodupKeys hwrite
    case unchanged =>
      intro k hk
      rw [hstore]
      exact MemoryKVStore.get_applyWrites_of_notMem (by rw [hkeys]; exact hk)
    case commitLog =>
      apply List.map_congr_left
      intro write hwrite
      have hmem : write.key ∈ (writtenEntries winner).map (·.objectId) := by
        rw [← hkeys]
        exact List.mem_map_of_mem hwrite
      obtain ⟨entry, hentry, hkey⟩ := List.mem_map.1 hmem
      obtain ⟨version, hversion⟩ := Option.isSome_iff_exists.1 (hbatch.covered entry hentry)
      rw [← hkey, hversion, hbatch.checked _ _ hversion]
      rfl
    case status => rfl
    case branchIds =>
      rw [branchIds_finish]
      exact hids
    case winner_status =>
      intro b hb
      refine (winner_finish ?_ ?_ hb).1
      · exact hids ▸ hnodup
      · rfl
    case losers =>
      intro b hb
      refine (winner_finish ?_ ?_ hb).2
      · exact hids ▸ hnodup
      · rfl

/-- A branch that has overwritten two objects. -/
def overwritesTwo (branchId payload : Bytes) (score : Double) : BranchContext :=
  [ascii "k", ascii "l"].foldl (fun branch objectId =>
    BranchManager.recordWrite branch (BranchManager.newEntry objectId .generic {}) .generic
      { objectId, intentType := .overwrite, payload }) { branchId, candidateResult := { score } }

/-- Two branches that have overwritten the same objects. -/
def rivalTxn : AgentTxnContext :=
  { begin_ (ascii "txn:1") (ascii "1") with
    branches := [overwritesTwo (ascii "a") (ascii "v") (.finite 1),
      overwritesTwo (ascii "b") (ascii "w") (.finite 2)] }

theorem selectWinnerAndCommit_allOrNothing_rivalTxn :
    ∃ winner checks writes before,
      Committed rivalTxn ((selectWinnerAndCommit rivalTxn).trace (handle .memory) {})
      ((selectWinnerAndCommit rivalTxn).run (handle .memory) {}).1.2 winner
        checks writes before := by
  have htrue : ((selectWinnerAndCommit rivalTxn).run (handle .memory) {}).1.1 = .ok true := rfl
  rcases selectWinnerAndCommit_allOrNothing rivalTxn (by decide) (by decide) _ _ _
    (Program.interfered_run _ {}) with ⟨hfalse, _⟩ | ⟨_, hcommitted⟩
  · rw [htrue] at hfalse
    simp at hfalse
  · exact hcommitted

end AgentTxnManager

end DataAgentSystem.AgentTxn
