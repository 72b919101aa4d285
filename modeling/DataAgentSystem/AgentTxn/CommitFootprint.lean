import DataAgentSystem.AgentTxn.AgentTxnManager
import DataAgentSystem.AgentTxn.ArtifactCalls
import DataAgentSystem.AgentTxn.FallbackAgreement

/-! Which files a commit may change: the artifact it was given, if any, and no other.
Even that one it leaves alone unless its winner is ready and all its writes are
current, for until the artifact is prepared a commit only looks. -/

namespace DataAgentSystem.AgentTxn

open Text Intent Cache Branch Storage Interaction Containers CommitManager AgentTxnManager

/-- No other file is touched. -/
abbrev OwnFile (path : Bytes) (op : Call) : Prop := ∀ p ∈ op.touched, p = path

variable {path : Bytes}

theorem ownFile_of_get {op : Call} (h : ∃ key, op = .get key) : OwnFile path op :=
  Call.forall_touched (Call.touched_of_reads (reads_of_get h))

theorem ownFile_replaceFile {contents : Bytes} : OwnFile path (.replaceFile path contents) :=
  fun _ hp => List.mem_singleton.1 hp

/-! ### The parts of a commit -/

theorem only_rollbackAppliedWrites (applied : List AppliedWrite) :
    (rollbackAppliedWrites applied).Only fun op => op.touched = [] := by
  induction applied with
  | nil => trivial
  | cons a older ih =>
    rw [rollbackAppliedWrites]
    split
    next =>
      refine ⟨rfl, fun undone => ?_⟩
      cases undone with
      | false => trivial
      | true => exact ih
    next =>
      refine ⟨rfl, fun undone => ?_⟩
      cases undone with
      | false => trivial
      | true => exact ih

theorem only_applyWithoutBatch (expected : UnorderedMap UInt64) {writes : List WriteOp}
    {applied : List AppliedWrite} :
    (applyWithoutBatch expected writes applied).Only fun op => op.touched = [] := by
  induction writes generalizing applied with
  | nil => trivial
  | cons write writes ih =>
    rw [applyWithoutBatch]
    split
    next => trivial
    next version _ =>
      rw [Store.get_bind, Program.only_call]
      refine ⟨rfl, fun current => ?_⟩
      split
      next => exact Program.only_bind (only_rollbackAppliedWrites applied) fun reason => trivial
      next =>
        rw [Store.putIfVersion_bind, Program.only_call]
        refine ⟨rfl, fun put => ?_⟩
        cases put with
        | false =>
          exact Program.only_bind (only_rollbackAppliedWrites applied) fun reason => trivial
        | true => exact ih

theorem only_rollbackCrashSafeArtifact (artifact : FallbackCommitArtifact) (reason : Bytes) :
    (rollbackCrashSafeArtifact artifact path reason).Only (OwnFile path) := by
  have hcalls := (@abides_resumeRollback path _ artifact rfl {}).only
  apply Program.only_bind (hcalls.mono fun op hop => hop.touched fun e _ => touched_undoCall e)
  rintro ⟨rolledBack, undone, recovery⟩
  simp only
  split <;> trivial

theorem only_applyEntries (config : FallbackCommitConfig) {todo : List FallbackCommitEntry}
    {artifact : FallbackCommitArtifact} :
    (applyEntries config todo artifact).Only (OwnFile config.artifactPath) := by
  induction todo generalizing artifact with
  | nil => trivial
  | cons e todo ih =>
    have hrollback : ∀ reason,
        (rollbackCrashSafeArtifact artifact config.artifactPath reason >>= fun reason =>
          Program.ret (Except.error reason : Except Bytes FallbackCommitArtifact)).Only
            (OwnFile config.artifactPath) :=
      fun reason => Program.only_bind (only_rollbackCrashSafeArtifact artifact reason) fun reason =>
        trivial
    rw [applyEntries, Store.get_bind, Program.only_call]
    refine ⟨ownFile_of_get ⟨_, rfl⟩, fun current => ?_⟩
    split
    next => exact hrollback _
    next =>
      rw [Store.putIfVersion_bind, Program.only_call]
      refine ⟨Call.forall_touched rfl, fun put => ?_⟩
      cases put with
      | false => exact hrollback _
      | true =>
        simp only [Bool.not_true, Bool.false_eq_true, ↓reduceIte]
        rw [writeFallbackCommitArtifact, Files.replace_bind, Program.only_call]
        refine ⟨ownFile_replaceFile, fun written => ?_⟩
        cases written with
        | false => trivial
        | true =>
          simp only [Bool.not_true, Bool.false_eq_true, ↓reduceIte]
          split
          next => trivial
          next => exact ih

theorem only_commitPrepared (config : FallbackCommitConfig) (artifact : FallbackCommitArtifact) :
    (commitPrepared config artifact).Only (OwnFile config.artifactPath) := by
  refine ⟨ownFile_replaceFile, fun written => ?_⟩
  cases written with
  | false => trivial
  | true =>
    apply Program.only_bind (only_applyEntries config)
    rintro (reason | applied)
    · trivial
    · refine ⟨ownFile_replaceFile, fun written => ?_⟩
      cases written <;> trivial

theorem only_commitWinnerWithoutBatch (txn : AgentTxnContext) (checks : List VersionCheck)
    (writes : List WriteOp) :
    (commitWinnerWithoutBatch txn checks writes).Only fun op =>
      ∀ p ∈ op.touched, p = txn.fallbackCommit.artifactPath ∧ p ≠ [] := by
  rw [commitWinnerWithoutBatch]
  split
  next hpath =>
    have hown : (commitWinnerWithoutBatchCrashSafe txn checks writes).Only
        (OwnFile txn.fallbackCommit.artifactPath) := by
      apply Program.only_bind ((only_prepareEntries _ _ _).mono fun _ => ownFile_of_get)
      rintro (reason | entries)
      · trivial
      · exact only_commitPrepared txn.fallbackCommit _
    apply hown.mono
    intro op hop p hp
    exact ⟨hop p hp, hop p hp ▸ hpath⟩
  next =>
    exact (only_applyWithoutBatch (expectedVersions checks)).mono fun _ hop =>
      Call.forall_touched hop

theorem only_commitWinner (txn : AgentTxnContext) (winner : BranchContext) :
    (commitWinner txn winner).Only fun op => ∀ p ∈ op.touched, p = txn.fallbackCommit.artifactPath ∧
      p ≠ [] := by
  rw [commitWinner_plan]
  apply Program.only_bind
    ((only_planWinner winner).mono fun _ hop => Call.forall_touched (Call.touched_of_reads hop))
  rintro (reason | ⟨seenChecks, writes⟩)
  · trivial
  · simp only
    rw [publish, Store.supportsAtomicBatchConditionalWrite_bind, Program.only_call]
    refine ⟨Call.forall_touched rfl, fun supports => ?_⟩
    split
    next =>
      rw [Store.batchPutIfVersion_bind, Program.only_call]
      refine ⟨Call.forall_touched rfl, fun put => ?_⟩
      cases put with
      | true => trivial
      | false =>
        refine ⟨Call.forall_touched rfl, fun supports => ?_⟩
        cases supports <;> trivial
    next =>
      apply Program.only_bind (only_commitWinnerWithoutBatch txn _ _)
      rintro (reason | _) <;> trivial

/-- A commit touches the artifact it was given, and no other file. -/
theorem only_selectWinnerAndCommit (txn : AgentTxnContext) :
    (selectWinnerAndCommit txn).Only fun op => ∀ p ∈ op.touched,
      p = txn.fallbackCommit.artifactPath ∧ p ≠ [] := by
  unfold selectWinnerAndCommit
  cases BranchManager.selectWinner txn.branches with
  | error what => trivial
  | ok winnerBranchId =>
    simp only
    refine Program.only_bind ?_ fun out => trivial
    rw [commitMarked]
    cases BranchManager.findBranch (mark txn winnerBranchId).branches
        (mark txn winnerBranchId).winnerBranchId with
    | none => trivial
    | some winner =>
      have hvalidate : (ValidationManager.validateWinner winner).Only fun op =>
          ∀ p ∈ op.touched, p = txn.fallbackCommit.artifactPath ∧ p ≠ [] := by
        apply (ValidationManager.only_validateReads _ _).mono
        exact fun op hop => Call.forall_touched (Call.touched_of_reads hop)
      refine Program.only_bind hvalidate fun validation => ?_
      cases validation.success with
      | false => trivial
      | true =>
        refine Program.only_bind
          (only_commitWinner { mark txn winnerBranchId with validationResult := validation } winner)
          fun result => ?_
        cases result <;> trivial

/-! ### Commits that only look -/

/-- The winner of the transaction is ready, and all its writes are current. -/
def Prepares (txn : AgentTxnContext) (s : MemoryKVStore) : Prop :=
  ∃ winner, Selects txn winner ∧ Ready winner s ∧ WritesCurrent winner s

section Looking

variable {txn : AgentTxnContext} {winner : BranchContext} {w : World}

/-- Up to the artifact a crash-safe commit only looks. -/
theorem withstands_publish_stale {seenChecks : UnorderedMap UInt64}
    (hpath : txn.fallbackCommit.artifactPath ≠ []) (h : Checks winner w.store seenChecks)
    (hstale : ¬WritesCurrent winner w.store) :
    (publish txn seenChecks (plannedWrites winner w.store)).Withstands
      (alone .nonBatchMemory) (fun y => y = w) w
      fun _ _ => True := by
  obtain ⟨reason, hrun⟩ := run_prepareEntries_refused .nonBatchMemory h hstale
  have hprepare := @withstands_looks .nonBatchMemory _ _
    ((only_prepareEntries (expectedVersions (checksOf seenChecks)) (plannedWrites winner w.store)
        []).mono fun _ =>
      reads_of_get) w
  rw [hrun] at hprepare
  rw [publish, Store.supportsAtomicBatchConditionalWrite_bind, Program.withstands_call]
  refine ⟨rfl, fun supports y henv => ?_⟩
  obtain ⟨rfl, rfl⟩ : supports = false ∧ y = w := by
    rcases henv with hanswer | hanswer <;> exact Prod.mk.inj hanswer
  simp only [Bool.false_eq_true, ↓reduceIte]
  rw [commitWinnerWithoutBatch, if_pos hpath, commitWinnerWithoutBatchCrashSafe,
    Program.withstands_bind, Program.withstands_bind]
  apply hprepare.mono
  rintro out y rfl rfl
  exact ⟨rfl, rfl, trivial⟩

theorem withstands_commitWinner_refused (hpath : txn.fallbackCommit.artifactPath ≠ [])
    (h : ¬(Prepared winner w.store ∧ WritesCurrent winner w.store)) :
    (commitWinner txn winner).Withstands (alone .nonBatchMemory)
      (fun y => y = w) w fun _ _ => True := by
  rw [commitWinner_plan, Program.withstands_bind]
  apply (withstands_looks (only_planWinner winner) w).mono
  rintro out y rfl rfl
  by_cases hprepared : Prepared winner y.store
  · obtain ⟨seen, hchecks, hrun⟩ := run_planWinner .nonBatchMemory hprepared
    rw [hrun]
    exact withstands_publish_stale hpath hchecks fun hcurrent => h ⟨hprepared, hcurrent⟩
  · obtain ⟨reason, hrun⟩ := run_planWinner_refused .nonBatchMemory hprepared
    rw [hrun]
    exact ⟨rfl, trivial⟩

/-- A commit that does not prepare its artifact leaves everything as it is. -/
theorem withstands_selectWinnerAndCommit_refused (hpath : txn.fallbackCommit.artifactPath ≠ [])
    (h : ¬Prepares txn w.store) :
    (selectWinnerAndCommit txn).Withstands (alone .nonBatchMemory)
      (fun y => y = w) w fun _ _ => True := by
  unfold selectWinnerAndCommit
  cases hselect : BranchManager.selectWinner txn.branches with
  | error what => exact ⟨rfl, trivial⟩
  | ok winnerBranchId =>
    have hmarked : (commitMarked (mark txn winnerBranchId)).Withstands
      (alone .nonBatchMemory) (fun y => y = w) w
        fun _ _ => True := by
      unfold commitMarked
      rw [mark, BranchManager.findBranch_markWinnerAndLosers]
      cases hfind : BranchManager.findBranch txn.branches winnerBranchId with
      | none => exact ⟨rfl, trivial⟩
      | some winner =>
        obtain rfl := BranchManager.branchId_of_findBranch hfind
        rw [Option.map_some, if_pos rfl]
        simp only
        rw [Program.withstands_bind]
        have hreads : (ValidationManager.validateWinner { winner with status := .winner }).Only
            fun op => op.reads = true := ValidationManager.only_validateReads _ _
        apply (withstands_looks hreads w).mono
        rintro validation y rfl hvalidation
        cases hsuccess : validation.success with
        | false => exact ⟨rfl, trivial⟩
        | true =>
          rw [hvalidation] at hsuccess
          have hvalidated :=
              (run_validateWinner .nonBatchMemory { winner with status := .winner } y).1 hsuccess
          simp only [Bool.not_true, Bool.false_eq_true, ↓reduceIte]
          rw [Program.withstands_bind]
          refine (withstands_commitWinner_refused (by exact hpath) ?_).mono ?_
          · rintro ⟨hprepared, hcurrent⟩
            exact h ⟨winner, ⟨hselect, hfind⟩,
              ⟨⟨hprepared.agree, hprepared.resolves, hprepared.based⟩, hvalidated⟩, hcurrent⟩
          · rintro (reason | log) z rfl - <;> exact ⟨rfl, trivial⟩
    simp only
    rw [Program.withstands_bind]
    exact hmarked.mono fun _ _ hy _ => ⟨hy, trivial⟩

end Looking

end DataAgentSystem.AgentTxn
