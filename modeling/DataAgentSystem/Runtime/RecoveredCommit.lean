import DataAgentSystem.AgentTxn.CommitEffect
import DataAgentSystem.Runtime.CommitFinality
import DataAgentSystem.Runtime.TaskContinuation

/-! Commits of recovered tasks. A task whose log says that it has committed is
committed again by its continuation, and one that is revalidated is committed twice,
whenever the branch that is staged in the end still has writes that get through. -/

namespace DataAgentSystem.Runtime

open Text Intent Cache Branch Storage Interaction Containers AgentTxn AgentTxnManager

variable {kind : StoreKind} {config : FallbackCommitRuntimeConfig}
  {session session' : TaskSession} {w : World}

/-- The commits of a session, by the events recorded of them. -/
def commitCount (session : TaskSession) : ℕ :=
  session.events.countP fun event => event.type = .commitTask

/-- Work on a session commits nothing and keeps the artifact settings. -/
structure WorkKeeps (session session' : TaskSession) : Prop where
  fallbackCommit : session'.txn.fallbackCommit = session.txn.fallbackCommit
  commitCount : commitCount session' = commitCount session

theorem WorkKeeps.refl (session : TaskSession) : WorkKeeps session session := ⟨rfl, rfl⟩

theorem WorkKeeps.trans {session'' : TaskSession} (h : WorkKeeps session session')
    (h' : WorkKeeps session' session'') :
    WorkKeeps session session'' :=
  ⟨h'.fallbackCommit.trans h.fallbackCommit, h'.commitCount.trans h.commitCount⟩

theorem commitCount_recordEvent (session : TaskSession) (type : TaskEventType)
    (branchId objectId detail : Bytes) (n : Int64) :
    commitCount (session.recordEvent type branchId objectId detail n) =
      commitCount session + if type = .commitTask then 1 else 0 := by
  simp only [commitCount, TaskSession.recordEvent, List.countP_append,
    List.countP_singleton, decide_eq_true_eq]

/-- A changed transaction and an event that is no commit. -/
theorem workKeeps_recordEvent {txn : AgentTxnContext} (h : session.txn.SameBesideBranches txn)
    (type : TaskEventType) (htype : type ≠ .commitTask) (branchId objectId detail : Bytes)
    (n : Int64) :
    WorkKeeps session ({ session with txn }.recordEvent type branchId objectId detail n) := by
  refine ⟨h.fallbackCommit, ?_⟩
  rw [commitCount_recordEvent, if_neg htype]
  rfl

/-! ### Callbacks -/

section Calls

open TaskSession

theorem returns_perform (session : TaskSession) (call : SessionCall) :
    (call.perform session).Returns fun response => WorkKeeps session response.2 := by
  cases call with
  | read branchId objectId =>
    exact (AgentTxnContext.returns_read session.txn branchId objectId).bind fun out hsame =>
      workKeeps_recordEvent hsame .read nofun branchId objectId out.1.value out.1.version.toInt64
  | write branchId objectId objectType intent =>
    have hwrite : (session.write branchId objectId objectType intent).Returns (WorkKeeps session) :=
      (AgentTxnContext.returns_write session.txn branchId objectId objectType intent).bind
          fun txn hsame =>
        workKeeps_recordEvent hsame .write nofun branchId objectId intent.payload
          (intentTypeValue intent.intentType)
    exact hwrite.bind fun session' hkeeps => hkeeps
  | savepoint branchId savepointId =>
    exact workKeeps_recordEvent
      (AgentTxnContext.sameBesideBranches_savepoint session.txn branchId savepointId)
      .savepoint nofun branchId [] savepointId 0
  | rollbackToSavepoint branchId savepointId =>
    have hsame := AgentTxnContext.sameBesideBranches_rollbackToSavepoint
      session.txn branchId savepointId
    show WorkKeeps session (session.rollbackToSavepoint branchId savepointId).2
    rcases session.rollbackToSavepoint_cases branchId savepointId with ⟨-, hsession⟩ | ⟨-, hsession⟩
    · rw [hsession]
      exact WorkKeeps.refl session
    · rw [hsession]
      exact workKeeps_recordEvent hsame .rollbackToSavepoint nofun branchId [] savepointId 0

theorem only_perform (session : TaskSession) (call : SessionCall) :
    (call.perform session).Only fun op => ∃ key, op = .get key := by
  cases call with
  | read branchId objectId =>
    exact Program.only_bind (AgentTxnContext.only_read session.txn branchId objectId) fun out =>
      trivial
  | write branchId objectId objectType intent =>
    have hwrite := AgentTxnContext.only_write session.txn branchId objectId objectType intent
    exact Program.only_bind (Program.only_bind hwrite fun txn => trivial) fun session' => trivial
  | savepoint branchId savepointId => trivial
  | rollbackToSavepoint branchId savepointId => trivial

variable {α : Type}

theorem returns_work (work : SessionWork α) (session : TaskSession) :
    (SessionWork.perform work session).Returns fun out => WorkKeeps session out.2 := by
  induction work generalizing session with
  | ret a => exact WorkKeeps.refl session
  | call op next ih =>
    exact (returns_perform session op).bind fun response hkeeps =>
      (ih response response.2).mono fun out hout => hkeeps.trans hout

theorem only_work (work : SessionWork α) (session : TaskSession) :
    (SessionWork.perform work session).Only fun op => ∃ key, op = .get key := by
  induction work generalizing session with
  | ret a => trivial
  | call op next ih =>
    exact Program.only_bind (only_perform session op) fun response => ih response response.2

/-- Work on a session leaves the world alone. -/
theorem run_work (work : SessionWork α) (session : TaskSession) (w : World) :
    ((SessionWork.perform work session).run (handle kind) w).2 = w :=
  ((only_work work session).looks fun _ hop w => handle_of_reads (reads_of_get hop) w).run_eq

end Calls

/-! ### Commits -/

section Commits

variable (kind : StoreKind) (config : FallbackCommitRuntimeConfig)
  (session : TaskSession) (w : World)

/-- Files always do what they are asked to here, so the end of a commit does not throw. -/
theorem run_finalize : ∃ ended, ((session.finalize config).run (handle kind) w).1 = .ok ended ∧
    ended.txn = session.txn ∧ ended.events = session.events := by
  have hensure : ∀ path w, ((ensureDirectory path).run (handle kind) w).1 = .ok () := by
    intro path w
    unfold ensureDirectory
    split <;> rfl
  have happly : ∀ path policy w,
      ∃ finalized,
          ((applyTerminalFallbackArtifactPolicy config path policy).run (handle kind) w).1 =
          .ok finalized := by
    intro path policy w
    cases policy with
    | keep => exact ⟨_, rfl⟩
    | delete => exact ⟨_, rfl⟩
    | archive =>
      rw [applyTerminalFallbackArtifactPolicy]
      split
      · exact ⟨_, rfl⟩
      · rw [Program.run_bind, hensure]
        exact ⟨_, rfl⟩
  have hfinalize : ∃ finalized,
      ((finalizeFallbackCommitArtifact config session.txn).run (handle kind) w).1 =
          .ok finalized := by
    unfold finalizeFallbackCommitArtifact
    split
    · exact ⟨_, rfl⟩
    · rw [Program.run_bind]
      cases ((tryParseFallbackArtifact session.txn.fallbackCommit.artifactPath).run
          (handle kind) w).1 with
      | none => exact ⟨_, rfl⟩
      | some artifact =>
        simp only
        split
        · exact happly _ _ _
        · exact ⟨_, rfl⟩
  obtain ⟨finalized, hfinalized⟩ := hfinalize
  have hended : ∃ ended, ((session.finalize config).run (handle kind) w).1 = .ok ended := by
    rw [TaskSession.finalize, Program.run_bind, hfinalized]
    simp only
    split <;> exact ⟨_, rfl⟩
  obtain ⟨ended, hended⟩ := hended
  obtain ⟨htxn, -, hevents⟩ :=
    (returns_finalize config session).interfered (Program.interfered_run _ w) ended hended
  exact ⟨ended, hended, htxn, hevents⟩

/-- A commit of a session is the commit of its transaction, and is counted if it succeeds. -/
structure CommitsLike (selected : (Except Bytes Bool × AgentTxnContext) × World)
    (out : (Except Bytes Bool × TaskSession) × World) : Prop where
  result : out.1.1 = selected.1.1
  txn : out.1.2.txn = selected.1.2
  store : out.2.store = selected.2.store
  count : commitCount out.1.2 = commitCount session + if selected.1.1 = .ok true then 1 else 0

theorem commitCount_conclude (committed : Bool) :
    commitCount (session.conclude committed) = commitCount session + if committed then 1
      else 0 := by
  cases committed with
  | false => exact commitCount_recordEvent session.markAborted .abortTask _ _ _ _
  | true => exact commitCount_recordEvent session.markCommitted .commitTask _ _ _ _

theorem commitCount_attempt : commitCount session.attempt = commitCount session :=
  commitCount_recordEvent { session with commitAttempts := session.commitAttempts + 1 }
    .commitAttempt _ _ _ _

theorem run_commitTask :
    CommitsLike session ((selectWinnerAndCommit session.txn).run (handle kind) w)
      ((session.commitTask config).run (handle kind) w) := by
  have htxn : session.attempt.txn = session.txn := rfl
  rw [TaskSession.commitTask, htxn, Program.run_bind]
  cases hselected : (selectWinnerAndCommit session.txn).run (handle kind) w with
  | mk out w' =>
    obtain ⟨result, txn⟩ := out
    cases result with
    | error what =>
      exact ⟨rfl, rfl, rfl, (commitCount_attempt session).trans (by simp)⟩
    | ok committed =>
      have hcount := commitCount_conclude { session.attempt with txn } committed
      obtain ⟨ended, hended, htxn, hevents⟩ := run_finalize kind config
        (TaskSession.conclude { session.attempt with txn } committed) w'
      have hstore := Program.run_eq_of_trace World.store
        ((TaskSession.conclude { session.attempt with txn } committed).finalize config)
            w' fun e he =>
          @store_handle_of_onFiles kind
            _ ((only_finalize_onFiles config _).interfered (Program.interfered_run _ _) e he) _
      simp only [Program.run_bind, hended, Program.pure_eq_ret, Program.run_ret]
      refine ⟨rfl, ?_, hstore, ?_⟩
      · rw [htxn]
        cases committed <;> rfl
      · rw [commitCount, hevents, ← commitCount, hcount]
        cases committed <;> simp [commitCount, TaskSession.attempt, TaskSession.recordEvent]

end Commits

/-! ### Executions built from a log -/

/-- Besides its branches a new transaction has just begun, with a path for its artifact at most. -/
theorem returns_submitTask_begun (config : FallbackCommitRuntimeConfig)
    (task : TaskContext) (plan : ExecutionPlan) :
    (submitTask config task plan).Returns fun r => ∀ session, r = .ok session → ∃ artifactPath,
      AgentTxnContext.SameBesideBranches
        { AgentTxnManager.begin_ (ascii "txn:" ++ task.taskId) task.taskId with
          fallbackCommit := { artifactPath } } session.txn := by
  have hbranches : ∀ (branchPlans : List BranchPlan) (session : TaskSession),
      AgentTxnContext.SameBesideBranches session.txn
          (branchPlans.foldl TaskSession.createBranch session).txn := by
    intro branchPlans
    induction branchPlans with
    | nil => exact fun session => AgentTxnContext.SameBesideBranches.refl _
    | cons branchPlan branchPlans ih => exact fun session => ih (session.createBranch branchPlan)
  unfold submitTask
  split
  · exact nofun
  · exact nofun
  · refine (returns_configureFallbackCommit config _).bind ?_
    rintro _ ⟨artifactPath, rfl⟩ _ ⟨⟩
    exact ⟨artifactPath, hbranches plan.branchPlans _⟩

theorem returns_submitTask (config : FallbackCommitRuntimeConfig)
    (task : TaskContext) (plan : ExecutionPlan) :
    (submitTask config task plan).Returns fun r =>
      ∀ session, r = .ok session → session.txn.fallbackCommit.simulateCrashAfterApplyCount = 0 := by
  refine (returns_submitTask_begun config task plan).mono fun r hbegun session hsession => ?_
  obtain ⟨artifactPath, hsame⟩ := hbegun session hsession
  rw [hsame.fallbackCommit]

/-- Submission establishes the property of a transaction, and recovery keeps it. -/
structure KeptByRecovery (config : FallbackCommitRuntimeConfig)
    (P : AgentTxnContext → Prop) : Prop where
  submitted : ∀ task plan, (submitTask config task plan).Returns fun r => ∀ session,
    r = .ok session → P session.txn
  replayed : ∀ {txn : AgentTxnContext}, P txn → ∀ event, (replayEvent txn event).Returns P
  restarted : ∀ {txn : AgentTxnContext}, P txn →
      ∀ (status : TxnStatus) (branchStatus : BranchContext → BranchStatus), P { txn with
        status, branches := txn.branches.map fun branch =>
          { branch with status := branchStatus branch } }

section KeptByRecovery

variable {P : AgentTxnContext → Prop}

theorem KeptByRecovery.replayEvents (h : KeptByRecovery config P) (events : List ParsedTaskEvent)
    {txn : AgentTxnContext} (htxn : P txn) : (replayEvents events txn).Returns P := by
  induction events generalizing txn with
  | nil => exact htxn
  | cons event events ih => exact (h.replayed htxn event).bind fun _ hreplayed => ih hreplayed

theorem KeptByRecovery.rebuilt (h : KeptByRecovery config P) (session : TaskSession)
    (artifact : ParsedTaskEventLogArtifact) :
    (rebuildRecoveredSessionState config session artifact).Returns fun r => ∀ session,
      r = .ok session → P session.txn := by
  refine (h.submitted session.task session.plan).bind fun submitted hsubmitted => ?_
  cases submitted with
  | error what => exact forall_ok_error _
  | ok rebuilt =>
    refine (h.replayEvents artifact.events (hsubmitted rebuilt rfl)).bind fun txn htxn => ?_
    split
    · rintro _ ⟨⟩
      exact htxn
    · exact forall_ok_error _

theorem KeptByRecovery.ended (h : KeptByRecovery config P) {recovered : RecoveredTaskSession}
    (htxn : P recovered.session.txn) :
    P (applyRecoveredTerminalState recovered).session.txn := by
  obtain ⟨status, phase, branchStatus, hended⟩ := exists_withStatuses recovered
  rw [hended]
  exact h.restarted htxn status branchStatus

/-- So the property holds of whatever is recovered from a log. -/
theorem KeptByRecovery.recovered (h : KeptByRecovery config P) (taskLogPath : Bytes) :
    (recoverSessionFromLog config taskLogPath).Returns fun r => ∀ recovered, r = .ok recovered →
      P recovered.session.txn := by
  refine (Program.returns_true (Files.read taskLogPath)).bind fun contents _ => ?_
  cases parseTaskEventLogArtifact contents with
  | none => exact forall_ok_error _
  | some artifact =>
    simp only
    cases recoverTaskSessionFromArtifact taskLogPath artifact with
    | error what => exact forall_ok_error _
    | ok recovered =>
      refine (h.rebuilt recovered.session artifact).bind fun rebuilt hrebuilt => ?_
      cases rebuilt with
      | error what => exact forall_ok_error _
      | ok session =>
        rintro _ ⟨⟩
        exact @KeptByRecovery.ended _ _ h { recovered with session } (hrebuilt session rfl)

theorem KeptByRecovery.built (h : KeptByRecovery config P) (taskLogPath : Bytes) :
    (buildRecoveryExecutionFromLog config taskLogPath).Returns fun r => ∀ execution,
      r = .ok execution → P execution.session.txn := by
  refine (h.recovered taskLogPath).bind fun recovered hrecovered => ?_
  cases recovered with
  | error what => exact forall_ok_error _
  | ok recovered =>
    rintro _ ⟨⟩
    exact hrecovered recovered rfl

end KeptByRecovery

theorem returns_replayEvent (event : ParsedTaskEvent) (txn : AgentTxnContext) :
    (replayEvent txn event).Returns (AgentTxnContext.SameBesideBranches txn) := by
  unfold replayEvent
  cases taskEventTypeFromName event.eventType with
  | read =>
    show AgentTxnContext.SameBesideBranches txn (replayRead txn event)
    unfold replayRead
    cases txn.findBranch event.branchId <;> rfl
  | write => exact AgentTxnContext.returns_write txn _ _ _ _
  | savepoint => exact AgentTxnContext.sameBesideBranches_savepoint txn _ _
  | rollbackToSavepoint => exact AgentTxnContext.sameBesideBranches_rollbackToSavepoint txn _ _
  | stageBranch => exact AgentTxnContext.sameBesideBranches_stageBranch txn _ _ _
  | _ => rfl

/-- A rebuilt transaction simulates no crash, and its command is the one of its decision. -/
structure BuiltFromLog (execution : TaskRecoveryExecution) : Prop where
  simulate : execution.session.txn.fallbackCommit.simulateCrashAfterApplyCount = 0
  command : execution.commandType = (commandOf execution.recoveryPlan.decision.action).1

theorem keptByRecovery_simulate (config : FallbackCommitRuntimeConfig) :
    KeptByRecovery config fun txn => txn.fallbackCommit.simulateCrashAfterApplyCount = 0 where
  submitted := returns_submitTask config
  replayed h event := (returns_replayEvent event _).mono fun txn' hsame => by
    rw [hsame.fallbackCommit, h]
  restarted h _ _ := h

theorem returns_buildRecoveryExecutionFromLog (config : FallbackCommitRuntimeConfig)
    (taskLogPath : Bytes) :
    (buildRecoveryExecutionFromLog config taskLogPath).Returns fun r =>
      ∀ execution, r = .ok execution → BuiltFromLog execution := by
  refine ((keptByRecovery_simulate config).recovered taskLogPath).bind
    fun recovered hrecovered => ?_
  cases recovered with
  | error what => exact forall_ok_error _
  | ok recovered =>
    rintro _ ⟨⟩
    exact ⟨hrecovered recovered rfl, rfl⟩

theorem builtFromLog {taskLogPath : Bytes} {execution : TaskRecoveryExecution}
    (h : ((buildRecoveryExecutionFromLog config taskLogPath).run (handle kind) w).1 =
      .ok execution) :
    BuiltFromLog execution :=
  (returns_buildRecoveryExecutionFromLog config taskLogPath).interfered
    (Program.interfered_run _ w) execution h

/-! ### Continuations -/

/-- The session that the callback leaves, staged, if there is a branch to go on with
and the callback wants to go on. -/
def stagedBy (kind : StoreKind) (execution : TaskRecoveryExecution) (spec : TaskContinuationSpec)
    (callback : TaskContinuationCallback) (w : World) : Option TaskSession :=
  let branchId := continuationBranch execution spec
  if branchId = [] then none
  else
    let worked :=
      ((SessionWork.perform (callback execution branchId) execution.session).run (handle kind) w).1
    if worked.1 then some (worked.2.stageBranch branchId spec.score spec.summary) else none

variable {execution : TaskRecoveryExecution} {spec : TaskContinuationSpec}
  {callback : TaskContinuationCallback}

theorem workKeeps_stagedBy (h : stagedBy kind execution spec callback w = some session) :
    WorkKeeps execution.session session := by
  have hwork :=
    (returns_work (callback execution (continuationBranch execution spec))
      execution.session).interfered (Program.interfered_run (h := handle kind) _ w)
  simp only [stagedBy] at h
  split at h
  · cases h
  · split at h
    · cases h
      refine hwork.trans ?_
      exact workKeeps_recordEvent (AgentTxnContext.sameBesideBranches_stageBranch _ _ _ _)
        .stageBranch nofun _ _ _ _
    · cases h

/-- With nothing staged the continuation stops before its commit. -/
theorem run_continueExecuted_none (h : stagedBy kind execution spec callback w = none) :
    ∃ session, (continueExecuted config execution spec callback).run (handle kind) w =
      ((.ok false, { execution with session }), w) ∧ WorkKeeps execution.session session := by
  simp only [stagedBy] at h
  simp only [continueExecuted]
  split at h
  next hbranch =>
    rw [if_pos hbranch]
    exact ⟨execution.session, rfl, WorkKeeps.refl _⟩
  next hbranch =>
    rw [if_neg hbranch, Program.run_bind, run_work]
    split at h
    · cases h
    next hstop =>
      have hwork :=
        (returns_work (callback execution (continuationBranch execution spec))
          execution.session).interfered
        (Program.interfered_run (h := handle kind) _ w)
      refine ⟨_, ?_, hwork⟩
      simp only [Bool.not_eq_true] at hstop
      simp only [hstop, Bool.not_false, ↓reduceIte]
      rfl

theorem run_continueExecuted_some (h : stagedBy kind execution spec callback w = some session) :
    (continueExecuted config execution spec callback).run (handle kind) w =
      let out := (session.commitTask config).run (handle kind) w
      ((out.1.1, { execution with session := out.1.2 }), out.2) := by
  simp only [stagedBy] at h
  simp only [continueExecuted]
  split at h
  · cases h
  next hbranch =>
    rw [if_neg hbranch, Program.run_bind, run_work]
    split at h
    next hgo =>
      cases h
      simp only [hgo, Bool.not_true, Bool.false_eq_true, ↓reduceIte]
      rw [Program.run_bind]
      rfl
    · cases h

/-- The session selects a branch whose commit changes the store. -/
def WouldChange (kind : StoreKind) (session : TaskSession) (s : MemoryKVStore) : Prop :=
  ∃ winner, Selects session.txn winner ∧ Changes kind session.txn winner s

/-- The session selects a branch whose commit succeeds. -/
def WouldCommit (kind : StoreKind) (session : TaskSession) (s : MemoryKVStore) : Prop :=
  ∃ winner, Selects session.txn winner ∧ Committable kind session.txn winner s

section Outcomes

variable (hsimulate : session.txn.fallbackCommit.simulateCrashAfterApplyCount = 0)

include hsimulate in
theorem run_commitTask_unchanged_iff :
    (∀ k, ((session.commitTask config).run (handle kind) w).2.store.get k = w.store.get k) ↔
      ¬WouldChange kind session w.store := by
  rw [(run_commitTask kind config session w).store]
  by_cases hne : session.txn.branches = []
  · rw [run_selectWinnerAndCommit_nil hne]
    exact iff_of_true (fun k => rfl) fun ⟨_, hs, _⟩ => not_selects_of_nil hne hs
  · obtain ⟨winner, hs⟩ := exists_selects hne
    rw [run_selectWinnerAndCommit_unchanged_iff kind hs hsimulate, not_iff_not]
    exact (@Selects.exists_iff _ _ hs fun selected =>
      Changes kind session.txn selected w.store).symm

include hsimulate in
theorem run_commitTask_true_iff :
    ((session.commitTask config).run (handle kind) w).1.1 = .ok true ↔
      WouldCommit kind session w.store := by
  rw [(run_commitTask kind config session w).result]
  by_cases hne : session.txn.branches = []
  · rw [run_selectWinnerAndCommit_nil hne]
    exact iff_of_false nofun fun ⟨_, hs, _⟩ => not_selects_of_nil hne hs
  · obtain ⟨winner, hs⟩ := exists_selects hne
    rw [run_selectWinnerAndCommit_true_iff kind hs hsimulate]
    exact (@Selects.exists_iff _ _ hs fun selected =>
      Committable kind session.txn selected w.store).symm

end Outcomes

/-- The continuation of a task whose log says that it has committed leaves every key
as it is exactly if nothing that is staged in the end would change one. -/
theorem continueRecoveredTask_committed_unchanged_iff (taskLogPath : Bytes) (w₀ : World)
    (hbuilt : ((buildRecoveryExecutionFromLog config taskLogPath).run (handle kind) w₀).1 =
      .ok execution)
    (haction : execution.recoveryPlan.decision.action = .skipCommitted)
    (spec : TaskContinuationSpec) (callback : TaskContinuationCallback) (w : World) :
    (∀ k, ((continueRecoveredTask config execution spec callback).run (handle kind) w).2.store.get
      k =
        w.store.get k) ↔
      ∀ session, stagedBy kind (execution.setStatus (ascii "noop")) spec callback w = some session →
        ¬WouldChange kind session w.store := by
  have hlog := builtFromLog hbuilt
  have hnoop : execution.commandType = .noop := by rw [hlog.command, haction]; rfl
  have hrun : continueRecoveredTask config execution spec callback =
      continueExecuted config (execution.setStatus (ascii "noop")) spec callback := by
    rw [continueRecoveredTask, executeRecoveryExecution, hnoop]
    rfl
  rw [hrun]
  cases hstaged : stagedBy kind (execution.setStatus (ascii "noop")) spec callback w with
  | none =>
    obtain ⟨session, hstopped, -⟩ := @run_continueExecuted_none _ config _ _ _ _ hstaged
    rw [hstopped]
    exact iff_of_true (fun k => rfl) nofun
  | some session =>
    have hsimulate : session.txn.fallbackCommit.simulateCrashAfterApplyCount = 0 :=
      (congrArg FallbackCommitConfig.simulateCrashAfterApplyCount
        (workKeeps_stagedBy hstaged).fallbackCommit).trans
        hlog.simulate
    rw [run_continueExecuted_some hstaged]
    refine (run_commitTask_unchanged_iff hsimulate).trans ⟨?_, fun h => h session rfl⟩
    rintro h _ ⟨⟩
    exact h

/-- The log of a task, one event a line. -/
def taskLog (committed : Bytes) (events : List Bytes) : Bytes :=
  unlines newline
    ([kTaskEventLogHeader, ascii "task_id=1", ascii "commit_attempts=1",
      ascii "committed=" ++ committed, eventsMarker, ascii "0\tSUBMIT_TASK\t\t\t0\to",
      ascii "1\tCREATE_BRANCH\tb\t\t0\tc"] ++ events)

/-- A log on disk, and one object in the store. -/
def worldWith (log value : Bytes) : World where
  store := MemoryKVStore.write {} (ascii "k") value
  files := (∅ : UnorderedMap Bytes).insert (ascii "1.task.log") log

/-- The execution built from the log on disk, if there is one. -/
def executionIn (w : World) : TaskRecoveryExecution :=
  match ((buildRecoveryExecutionFromLog {} (ascii "1.task.log")).run (handle .memory) w).1 with
  | .ok execution => execution
  | .error _ => {}

/-- A task has appended `x` to an object and committed. -/
def afterAppend : World :=
  worldWith (taskLog (ascii "1") [ascii "2\tWRITE\tb\tk\t2\tx", ascii "3\tSTAGE_BRANCH\tb\t\t1\ts",
    ascii "4\tCOMMIT_ATTEMPT\t\t\t1\tcommit_attempt", ascii "5\tCOMMIT_TASK\tb\t\t0\t"]) (ascii "x")

theorem built_afterAppend :
    ((buildRecoveryExecutionFromLog {} (ascii "1.task.log")).run (handle .memory)
      afterAppend).1 = .ok (executionIn afterAppend) := rfl

theorem continueRecoveredTask_committed_unchanged_idle :
    (∀ k, ((continueRecoveredTask {} (executionIn afterAppend) {} fun _ _ => .ret false).run
      (handle .memory)
        afterAppend).2.store.get k = afterAppend.store.get k) ↔
      ∀ session, stagedBy .memory ((executionIn afterAppend).setStatus (ascii "noop"))
        {} (fun _ _ => .ret false)
          afterAppend = some session → ¬WouldChange .memory session afterAppend.store :=
  continueRecoveredTask_committed_unchanged_iff (ascii "1.task.log")
    afterAppend built_afterAppend rfl {}
    (fun _ _ => .ret false) afterAppend

/-- A callback that only asks to go on has the committed text appended once more. -/
theorem continueRecoveredTask_committed_not_unchanged :
    ¬∀ (kind : StoreKind) (config : FallbackCommitRuntimeConfig) (taskLogPath : Bytes) (w₀ : World)
      (execution : TaskRecoveryExecution),
      ((buildRecoveryExecutionFromLog config taskLogPath).run (handle kind) w₀).1 = .ok execution →
      execution.recoveryPlan.decision.action = .skipCommitted →
      ∀ (spec : TaskContinuationSpec) (callback : TaskContinuationCallback) (w : World) (k : Bytes),
        ((continueRecoveredTask config execution spec callback).run (handle kind) w).2.store.get k =
          w.store.get k := by
  intro h
  have hsame :=
    h .memory {} _ _ _ built_afterAppend rfl {} (fun _ _ => .ret true) afterAppend (ascii "k")
  have htwice :
    (((continueRecoveredTask {} (executionIn afterAppend) {} fun _ _ => .ret true).run
      (handle .memory)
        afterAppend).2.store.get (ascii "k")).value = ascii "xx" := rfl
  rw [hsame] at htwice
  exact absurd htwice (by decide)

/-! ### Revalidation -/

/-- The session as the command to revalidate finds it. -/
def revalidated (execution : TaskRecoveryExecution) : TaskSession :=
  (execution.setStatus (ascii "revalidate_commit")).session

/-- What the first commit of a revalidated task leaves. -/
def firstAttempt (kind : StoreKind) (config : FallbackCommitRuntimeConfig)
    (execution : TaskRecoveryExecution) (w : World) : TaskSession × World :=
  let out := ((revalidated execution).commitTask config).run (handle kind) w
  (out.1.2, out.2)

/-- A commit of a session is counted exactly if it would succeed. -/
theorem commitCount_commitTask
    (hsimulate : session.txn.fallbackCommit.simulateCrashAfterApplyCount = 0) :
    (WouldCommit kind session w.store →
      commitCount ((session.commitTask config).run (handle kind) w).1.2 = commitCount session + 1) ∧
    (¬WouldCommit kind session w.store →
      commitCount ((session.commitTask config).run (handle kind) w).1.2 = commitCount session) := by
  have hlike := run_commitTask kind config session w
  have hiff := @run_commitTask_true_iff kind config _ w hsimulate
  rw [hlike.result] at hiff
  constructor
  · intro h
    rw [hlike.count, if_pos (hiff.2 h)]
  · intro h
    rw [hlike.count, if_neg fun htrue => h (hiff.1 htrue), Nat.add_zero]

theorem run_continueRecoveredTask_revalidate (hcommand : execution.commandType = .revalidateCommit)
    (w : World) :
    (continueRecoveredTask config execution spec callback).run (handle kind) w =
      match (((revalidated execution).commitTask config).run (handle kind) w).1.1 with
      | .ok true =>
        (continueExecuted config
          { execution with session := (firstAttempt kind config execution w).1 } spec callback).run
          (handle kind) (firstAttempt kind config execution w).2
      | result => ((result, { execution with session := (firstAttempt kind config execution w).1 }),
          (firstAttempt kind config execution w).2) := by
  have hexecute : executeRecoveryExecution config execution =
      (revalidated execution).commitTask config >>= fun out =>
      return (out.1,
          { execution.setStatus (ascii "revalidate_commit") with session := out.2 }) := by
    rw [executeRecoveryExecution, hcommand]
    rfl
  rw [continueRecoveredTask, hexecute, Program.run_bind, Program.run_bind]
  simp only [Program.pure_eq_ret, Program.run_ret]
  cases (((revalidated execution).commitTask config).run (handle kind) w).1.1 with
  | error what => rfl
  | ok committed => cases committed <;> rfl

/-- The continuation of a task whose commit was cut short commits at most once,
exactly if the first commit fails or what is staged after it would not commit. -/
theorem continueRecoveredTask_revalidated_once_iff (taskLogPath : Bytes) (w₀ : World)
    (hbuilt : ((buildRecoveryExecutionFromLog config taskLogPath).run (handle kind) w₀).1 =
      .ok execution)
    (haction : execution.recoveryPlan.decision.action = .revalidateCommit)
    (spec : TaskContinuationSpec) (callback : TaskContinuationCallback) (w : World) :
    commitCount ((continueRecoveredTask config execution spec callback).run
      (handle kind) w).1.2.session ≤
        commitCount execution.session + 1 ↔
      (WouldCommit kind execution.session w.store →
        ∀ session, stagedBy kind
          { execution with session := (firstAttempt kind config execution w).1 } spec callback
            (firstAttempt kind config execution w).2 = some session →
          ¬WouldCommit kind session (firstAttempt kind config execution w).2.store) := by
  have hlog := builtFromLog hbuilt
  have hcommand : execution.commandType = .revalidateCommit := by rw [hlog.command, haction]; rfl
  have hsimulate : (revalidated execution).txn.fallbackCommit.simulateCrashAfterApplyCount = 0 :=
    hlog.simulate
  have hiff := @run_commitTask_true_iff kind config _ w hsimulate
  obtain ⟨hcounted, huncounted⟩ := @commitCount_commitTask kind config _ w hsimulate
  have hcount : commitCount (revalidated execution) = commitCount execution.session := rfl
  rw [hcount] at hcounted huncounted
  rw [run_continueRecoveredTask_revalidate hcommand]
  by_cases hwould : WouldCommit kind (revalidated execution) w.store
  · rw [hiff.2 hwould]
    simp only
    have hfirst : commitCount (firstAttempt kind config execution w).1 =
        commitCount execution.session + 1 := hcounted hwould
    have hkept :
        (firstAttempt kind config execution w).1.txn.fallbackCommit.simulateCrashAfterApplyCount =
        0 := by
      have htxn := (run_commitTask kind config (revalidated execution) w).txn
      have hreturns := (returns_selectWinnerAndCommit (revalidated execution).txn).interfered
        (Program.interfered_run (h := handle kind) _ w)
      rw [← htxn] at hreturns
      exact (congrArg FallbackCommitConfig.simulateCrashAfterApplyCount hreturns.2).trans hsimulate
    cases hstaged : stagedBy kind
      { execution with session := (firstAttempt kind config execution w).1 } spec callback
        (firstAttempt kind config execution w).2 with
    | none =>
      obtain ⟨session, hstopped, hkeeps⟩ := @run_continueExecuted_none _ config _ _ _ _ hstaged
      rw [hstopped]
      have hle : commitCount session ≤ commitCount execution.session + 1 := by
        rw [hkeeps.commitCount, hfirst]
      exact iff_of_true hle fun _ => nofun
    | some session =>
      have hkeeps := workKeeps_stagedBy hstaged
      rw [run_continueExecuted_some hstaged]
      have hsimulate' : session.txn.fallbackCommit.simulateCrashAfterApplyCount = 0 :=
        (congrArg FallbackCommitConfig.simulateCrashAfterApplyCount hkeeps.fallbackCommit).trans
          hkept
      obtain ⟨hsecond, hnoSecond⟩ := @commitCount_commitTask kind config _
        (firstAttempt kind config execution w).2 hsimulate'
      have hsession : commitCount session = commitCount execution.session + 1 :=
        hkeeps.commitCount.trans hfirst
      simp only
      constructor
      · rintro hle - _ ⟨⟩ hagain
        rw [hsecond hagain, hsession] at hle
        omega
      · intro h
        rw [hnoSecond (h hwould session rfl), hsession]
  · have hnot : (((revalidated execution).commitTask config).run (handle kind) w).1.1 ≠ .ok true :=
      fun htrue => hwould (hiff.1 htrue)
    have hfirst : commitCount (firstAttempt kind config execution w).1 =
        commitCount execution.session := huncounted hwould
    refine iff_of_true ?_ fun h => absurd h hwould
    split
    next htrue => exact absurd htrue hnot
    next =>
      simp only [hfirst]
      omega

/-- A task has tried to commit a delta of one, and the outcome is not known. -/
def afterDelta : World :=
  worldWith (taskLog (ascii "0") [ascii "2\tWRITE\tb\tk\t3\t1", ascii "3\tSTAGE_BRANCH\tb\t\t1\ts",
    ascii "4\tCOMMIT_ATTEMPT\t\t\t1\tcommit_attempt"]) (ascii "5")

theorem built_afterDelta :
    ((buildRecoveryExecutionFromLog {} (ascii "1.task.log")).run (handle .memory)
      afterDelta).1 = .ok (executionIn afterDelta) := rfl

theorem continueRecoveredTask_revalidated_once_idle :
    commitCount ((continueRecoveredTask {} (executionIn afterDelta) {} fun _ _ => .ret false).run
      (handle .memory)
        afterDelta).1.2.session ≤ commitCount (executionIn afterDelta).session + 1 ↔
      (WouldCommit .memory (executionIn afterDelta).session afterDelta.store →
        ∀ session, stagedBy .memory { executionIn afterDelta with
            session := (firstAttempt .memory {} (executionIn afterDelta) afterDelta).1 }
              {} (fun _ _ => .ret false)
            (firstAttempt .memory {} (executionIn afterDelta) afterDelta).2 = some session →
          ¬WouldCommit .memory session
              (firstAttempt .memory {} (executionIn afterDelta) afterDelta).2.store) :=
  continueRecoveredTask_revalidated_once_iff (ascii "1.task.log") afterDelta built_afterDelta rfl {}
    (fun _ _ => .ret false) afterDelta

/-- A callback that only asks to go on has the delta applied twice. -/
theorem continueRecoveredTask_revalidated_not_once :
    ¬∀ (kind : StoreKind) (config : FallbackCommitRuntimeConfig) (taskLogPath : Bytes) (w₀ : World)
      (execution : TaskRecoveryExecution),
      ((buildRecoveryExecutionFromLog config taskLogPath).run (handle kind) w₀).1 = .ok execution →
      execution.recoveryPlan.decision.action = .revalidateCommit →
      ∀ (spec : TaskContinuationSpec) (callback : TaskContinuationCallback) (w : World),
        commitCount ((continueRecoveredTask config execution spec callback).run
          (handle kind) w).1.2.session ≤
          commitCount execution.session + 1 := by
  intro h
  have honce := h .memory {} _ _ _ built_afterDelta rfl {} (fun _ _ => .ret true) afterDelta
  have htwice :
    commitCount ((continueRecoveredTask {} (executionIn afterDelta) {} fun _ _ => .ret true).run
      (handle .memory) afterDelta).1.2.session = 2 := rfl
  rw [htwice] at honce
  exact absurd honce (by decide)

end DataAgentSystem.Runtime
