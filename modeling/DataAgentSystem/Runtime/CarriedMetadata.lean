import DataAgentSystem.Runtime.PerformedOperations
import DataAgentSystem.Runtime.RecoveredSession
import DataAgentSystem.Runtime.RestoredContext

/-! The metadata of a task through its whole life. Operations add two keys at most, and
recovery sets five more over those it has restored; every other key keeps its value,
whatever was done with the session before its log was written. -/

namespace DataAgentSystem.Runtime

open Text Containers Storage Interaction AgentTxn

/-- The keys that a commit sets. -/
def noteKeys : List Bytes := [ascii "fallback_artifact_path", ascii "fallback_artifact_maintenance"]

/-- The keys that recovery sets. -/
def recoveryKeys : List Bytes :=
  [ascii "source_log", ascii "recovery_action", ascii "recovery_reason", ascii "resume_branch_id",
    ascii "resume_savepoint_id"]

variable {session session' session'' : TaskSession} {kind : StoreKind} {w : World} {path : Bytes}

/-! ### Operations -/

/-- The second session has the task and the plan of the first one, and no branch more. -/
structure Carries (session session' : TaskSession) : Prop where
  taskId : session'.task.taskId = session.task.taskId
  plan : session'.plan = session.plan
  logged : (session'.events.map TaskEvent.parsed).filterMap loggedBranchPlan =
    (session.events.map TaskEvent.parsed).filterMap loggedBranchPlan
  keys : ∀ key ∈ session'.task.metadata.keys, key ∈ session.task.metadata.keys ∨ key ∈ noteKeys
  metadata : ∀ key, key ∉ noteKeys → session'.task.metadata.lookup key =
    session.task.metadata.lookup key

theorem Carries.refl (session : TaskSession) :
    Carries session session := ⟨rfl, rfl, rfl, fun _ => .inl, fun _ _ => rfl⟩

theorem Carries.trans (h : Carries session session') (h' : Carries session' session'') :
    Carries session session'' where
  taskId := h'.taskId.trans h.taskId
  plan := h'.plan.trans h.plan
  logged := h'.logged.trans h.logged
  keys key hkey := (h'.keys key hkey).elim (h.keys key) .inr
  metadata key hkey := (h'.metadata key hkey).trans (h.metadata key hkey)

theorem Carries.recordEvent (h : Carries session session') {type : TaskEventType}
    (htype : type ≠ .createBranch) (branchId objectId detail : Bytes) (n : Int64) :
    Carries session (session'.recordEvent type branchId objectId detail n) where
  taskId := h.taskId
  plan := h.plan
  keys := h.keys
  metadata := h.metadata
  logged := by
    have hname : taskEventTypeName type ≠ ascii "CREATE_BRANCH" := by
      cases type <;> first | exact absurd rfl htype | decide
    have hnone : loggedBranchPlan
        (TaskEvent.parsed { sequenceNumber := UInt64.ofNat session'.events.length, type, branchId,
                                                      objectId, detail, numericValue := n }) =
                                                      none := if_neg hname
    have hevents : (session'.recordEvent type branchId objectId detail n).events.map
      TaskEvent.parsed =
        session'.events.map TaskEvent.parsed ++ [TaskEvent.parsed
          { sequenceNumber := UInt64.ofNat session'.events.length, type, branchId, objectId, detail,
            numericValue := n }] :=
      List.map_append
    rw [hevents, List.filterMap_append, List.filterMap_cons_none hnone,
      List.filterMap_nil, List.append_nil]
    exact h.logged

theorem Carries.noted (h : Carries session session') (artifactPath maintenance : Bytes) :
    Carries session (session'.noted artifactPath maintenance) where
  taskId := h.taskId
  plan := h.plan
  logged := h.logged
  keys := by
    intro key hkey
    rcases (AList.mem_insert _).1 (AList.mem_keys.2 hkey) with rfl | hkey
    · exact .inr (by decide)
    · rcases (AList.mem_insert _).1 hkey with rfl | hkey
      · exact .inr (by decide)
      · exact h.keys key (AList.mem_keys.1 hkey)
  metadata := by
    intro key hkey
    have hpath : key ≠ ascii "fallback_artifact_path" := fun heq => hkey (heq ▸ by decide)
    have hmaintenance : key ≠ ascii "fallback_artifact_maintenance" :=
      fun heq => hkey (heq ▸ by decide)
    rw [← h.metadata key hkey]
    exact (AList.lookup_insert_ne hmaintenance).trans (AList.lookup_insert_ne hpath)

theorem Carries.conclude (h : Carries session session') (committed : Bool) :
    Carries session (session'.conclude committed) := by
  cases committed with
  | true =>
    have hmarked : Carries session session'.markCommitted :=
      ⟨h.taskId, h.plan, h.logged, h.keys, h.metadata⟩
    exact hmarked.recordEvent (by decide) session'.txn.winnerBranchId []
      session'.txn.validationResult.reason 0
  | false =>
    have hmarked : Carries session session'.markAborted :=
      ⟨h.taskId, h.plan, h.logged, h.keys, h.metadata⟩
    exact hmarked.recordEvent (by decide) session'.txn.winnerBranchId []
      session'.txn.validationResult.reason 0

theorem Performed.carries (h : Performed session session') : Carries session session' := by
  have hsame : ∀ txn commitAttempts, Carries session { session with txn, commitAttempts } :=
    fun _ _ => ⟨rfl, rfl, rfl, fun _ => .inl, fun _ _ => rfl⟩
  have hattempt : Carries session session.attempt :=
    (hsame session.txn _).recordEvent (by decide) _ _ _ _
  have htried : ∀ txn, Carries session { session.attempt with txn } := fun _ =>
    ⟨hattempt.taskId, hattempt.plan, hattempt.logged, hattempt.keys, hattempt.metadata⟩
  cases h with
  | unrecorded _ => exact hsame _ session.commitAttempts
  | @recorded txn type branchId objectId detail n _ hwork =>
    have htype : type ≠ .createBranch := by
      rintro rfl
      cases hwork
    exact (hsame txn session.commitAttempts).recordEvent htype branchId objectId detail n
  | thrown _ => exact htried _
  | concluded _ => exact (htried _).conclude _
  | noted artifactPath maintenance _ => exact ((htried _).conclude _).noted artifactPath maintenance
  | aborted =>
    have hmarked :
        Carries session ({ session with txn := session.txn.abortTask } : TaskSession).markAborted :=
      ⟨rfl, rfl, rfl, fun _ => .inl, fun _ _ => rfl⟩
    exact hmarked.recordEvent (by decide) [] [] (ascii "abort_requested") 0

theorem carries_of_operated (h : Operated session session') : Carries session session' := by
  induction h with
  | refl => exact Carries.refl session
  | tail _ hlast ih => exact ih.trans hlast.performed.carries

theorem Carries.recoverable (h : Carries session session') (hrecoverable : Recoverable session) :
    Recoverable session' where
  taskId := h.taskId ▸ hrecoverable.taskId
  valid := h.plan ▸ hrecoverable.valid
  logged := by rw [h.logged, h.plan, hrecoverable.logged]

/-! ### Recovery -/

theorem metadata_planEvents (events : List ParsedTaskEvent) (recoveryPlan : TaskRecoveryPlan) :
    (events.foldl planEvent recoveryPlan).task.metadata = recoveryPlan.task.metadata := by
  induction events generalizing recoveryPlan with
  | nil => rfl
  | cons event events ih =>
    rw [List.foldl_cons, ih]
    unfold planEvent
    simp only
    split
    · rfl
    · split
      · rfl
      · split
        · rfl
        · split <;> rfl

theorem metadata_buildTaskRecoveryPlan (path : Bytes) (artifact : ParsedTaskEventLogArtifact) :
    (buildTaskRecoveryPlan path artifact).task.metadata =
      (recoveredTask path artifact (recoverTaskSessionDecision path artifact)).metadata := by
  unfold buildTaskRecoveryPlan
  simp only
  split <;> exact metadata_planEvents artifact.events _

/-- Recovery has restored every key that it does not set. -/
theorem lookup_recoveredTask (path : Bytes) (artifact : ParsedTaskEventLogArtifact)
    (decision : TaskRecoveryDecision) {key : Bytes} (hkey : key ∉ recoveryKeys) :
    (recoveredTask path artifact decision).metadata.lookup key =
      (restoreMetadata artifact).lookup key := by
  simp only [recoveryKeys, List.mem_cons, List.not_mem_nil, or_false, not_or] at hkey
  obtain ⟨hlog, haction, hreason, hbranch, hsavepoint⟩ := hkey
  simp only [recoveredTask, TaskContext.setMetadata, AList.lookup_insert_ne hsavepoint,
    AList.lookup_insert_ne hbranch, AList.lookup_insert_ne hreason, AList.lookup_insert_ne haction,
    AList.lookup_insert_ne hlog]
  rfl

theorem metadata_applyRecoveredTerminalState (recovered : RecoveredTaskSession) :
    (applyRecoveredTerminalState recovered).session.task.metadata =
      recovered.session.task.metadata := by
  obtain ⟨status, phase, branchStatus, hended⟩ := exists_withStatuses recovered
  rw [hended]
  rfl

/-- A written log is accepted, and every key of the metadata that recovery does not set
has the value it had in the session. -/
theorem lookup_recoverSessionFromLog (config : FallbackCommitRuntimeConfig)
    (hrecoverable : Recoverable session) (hlog : HoldsLog w path session)
    (hnamed : ∀ key ∈ session.task.metadata.keys, key ≠ [])
    (hsize : session.task.metadata.keys.length < 2 ^ 64) :
    ∃ recovered, (recoverSessionFromLog config path).run (handle kind) w = (.ok recovered, w) ∧
      ∀ key, key ∉ recoveryKeys → recovered.session.task.metadata.lookup key =
        session.task.metadata.lookup key := by
  obtain ⟨metadata, submitted, hmetadata, hsubmitted, hrun⟩ :=
    run_recoverSessionFromLog_of_holdsLog config hlog hrecoverable.taskId
      (hrecoverable.validate path)
  refine ⟨_, hrun, fun key hkey => ?_⟩
  rw [metadata_applyRecoveredTerminalState]
  show submitted.task.metadata.lookup key = _
  rw [hsubmitted.task]
  show (buildTaskRecoveryPlan path (writtenArtifact session metadata)).task.metadata.lookup key = _
  rw [metadata_buildTaskRecoveryPlan, lookup_recoveredTask path _ _ hkey,
    lookup_restoreMetadata hmetadata hnamed hsize]

end DataAgentSystem.Runtime
