import DataAgentSystem.Runtime.CarriedMetadata
import DataAgentSystem.Runtime.OutcomeRecords

/-! The logs that recovery accepts: those that can be read, have two fields, name a task,
and say which branches were created or leave one to go on with. Of the sessions that
submission, operations and recoveries lead to, every log is one of these. -/

namespace DataAgentSystem.Runtime

open Text Intent Cache Branch Storage Interaction Containers AgentTxn

variable {kind : StoreKind} {config : FallbackCommitRuntimeConfig} {session session' : TaskSession}
  {w : World} {path : Bytes} {artifact : ParsedTaskEventLogArtifact}
  {metadata : List (Bytes × Bytes)}

/-- A log that recovery can make a task and a plan of. -/
structure Accepted (path : Bytes) (artifact : ParsedTaskEventLogArtifact) : Prop where
  commitAttempts : (artifact.metadata.lookup (ascii "commit_attempts")).isSome
  committed : (artifact.metadata.lookup (ascii "committed")).isSome
  taskId : artifact.metadataValue (ascii "task_id") ≠ []
  named : ∀ branchPlan ∈ artifact.events.filterMap loggedBranchPlan, branchPlan.branchId ≠ [] ∧
    branchPlan.candidateId ≠ []
  distinct : ((artifact.events.filterMap loggedBranchPlan).map (·.branchId)).Nodup
  resumes : artifact.events.filterMap loggedBranchPlan = [] →
    (recoverTaskSessionDecision path artifact).resumeBranchId ≠ []

/-! ### Recovery from a log -/

theorem validate_task_buildTaskRecoveryPlan :
    (buildTaskRecoveryPlan path artifact).task.validate = .ok () ↔
      artifact.metadataValue (ascii "task_id") ≠ [] := by
  have hplan := isRecoveryPlan_buildTaskRecoveryPlan path artifact
  rw [TaskContext.validate, hplan.taskId, if_neg hplan.objective]
  split
  next hnil => simp [hnil]
  next hne => simp [hne]

theorem validate_plan_buildTaskRecoveryPlan :
    (buildTaskRecoveryPlan path artifact).plan.validate = .ok () ↔
      (∀ branchPlan ∈ artifact.events.filterMap loggedBranchPlan, branchPlan.branchId ≠ [] ∧
        branchPlan.candidateId ≠ []) ∧
        ((artifact.events.filterMap loggedBranchPlan).map (·.branchId)).Nodup ∧
        (artifact.events.filterMap loggedBranchPlan = [] →
          (recoverTaskSessionDecision path artifact).resumeBranchId ≠ []) := by
  have hplan := isRecoveryPlan_buildTaskRecoveryPlan path artifact
  rw [ExecutionPlan.validate_eq_ok]
  by_cases hnil : artifact.events.filterMap loggedBranchPlan = []
  · by_cases hresume : (recoverTaskSessionDecision path artifact).resumeBranchId = []
    · rw [hplan.nothing hnil (by rw [hplan.decision, hresume]), hnil]
      simp [hresume]
    · rw [hplan.fallback hnil (by rwa [hplan.decision]), hplan.decision, hnil]
      simp [hresume]
  · rw [hplan.logged hnil]
    simp [hnil]

/-- Recovery succeeds exactly on the logs that it accepts. -/
theorem exists_recovered_iff (config : FallbackCommitRuntimeConfig) (path : Bytes) (w : World) :
    (∃ recovered, (recoverSessionFromLog config path).run (handle kind) w = (.ok recovered, w)) ↔
      ∃ artifact, parseTaskEventLogArtifact (w.files.lookup path) = some artifact ∧
        Accepted path artifact := by
  rcases @run_recoverSessionFromLog kind config path w with
    ⟨artifact, submitted, commitAttempts, committed, hparse, hattempts,
      hcommitted, htask, hplan, -, hrun⟩ |
    ⟨⟨what, hrun⟩, hrefused⟩
  · obtain ⟨hnamed, hdistinct, hresumes⟩ := validate_plan_buildTaskRecoveryPlan.1 hplan
    refine iff_of_true ⟨_, hrun⟩ ⟨artifact, hparse, ?_, ?_,
      validate_task_buildTaskRecoveryPlan.1 htask, hnamed, hdistinct, hresumes⟩
    · rw [hattempts]
      rfl
    · rw [hcommitted]
      rfl
  · refine iff_of_false ?_ ?_
    · rintro ⟨recovered, hrecovered⟩
      rw [hrun] at hrecovered
      cases hrecovered
    · rintro ⟨artifact, hparse, haccepted⟩
      have hvalid : (buildTaskRecoveryPlan path artifact).task.validate = .ok () ∧
          (buildTaskRecoveryPlan path artifact).plan.validate = .ok () :=
        ⟨validate_task_buildTaskRecoveryPlan.2 haccepted.taskId,
          validate_plan_buildTaskRecoveryPlan.2
          ⟨haccepted.named, haccepted.distinct, haccepted.resumes⟩⟩
      rcases hrefused artifact hparse with hattempts | hcommitted | hinvalid
      · have hsome := haccepted.commitAttempts
        rw [hattempts] at hsome
        cases hsome
      · have hsome := haccepted.committed
        rw [hcommitted] at hsome
        cases hsome
      · exact hinvalid hvalid

/-! ### The logs of sessions -/

/-- The branches that the events say were created. -/
def createdBranches (events : List TaskEvent) : List BranchPlan :=
  (events.map TaskEvent.parsed).filterMap loggedBranchPlan

/-- The task has an id, and its branches can be planned anew. -/
structure Replannable (session : TaskSession) : Prop where
  taskId : session.task.taskId ≠ []
  created : ({ branchPlans := createdBranches session.events } : ExecutionPlan).validate = .ok ()

theorem Recoverable.replannable (h : Recoverable session) : Replannable session := by
  refine ⟨h.taskId, ?_⟩
  have hvalid := h.valid
  rw [ExecutionPlan.validate] at hvalid ⊢
  rw [createdBranches, h.logged, validateBranches_map_asLogged]
  simpa only [List.map_eq_nil_iff] using hvalid

theorem Replannable.carries (h : Replannable session) (hcarries : Carries session session') :
    Replannable session' := by
  refine ⟨hcarries.taskId ▸ h.taskId, ?_⟩
  rw [createdBranches, hcarries.logged]
  exact h.created

theorem Replannable.validate (h : Replannable session) (path : Bytes)
    (metadata : List (Bytes × Bytes)) :
    (buildTaskRecoveryPlan path (writtenArtifact session metadata)).plan.validate = .ok () := by
  obtain ⟨hne, hnamed, hdistinct⟩ := ExecutionPlan.validate_eq_ok.1 h.created
  exact validate_plan_buildTaskRecoveryPlan.2 ⟨hnamed, hdistinct, fun hnil => absurd hnil hne⟩

theorem Replannable.accepted (h : Replannable session) (path : Bytes)
    (metadata : List (Bytes × Bytes)) :
    Accepted path (writtenArtifact session metadata) := by
  obtain ⟨hnamed, hdistinct, hresumes⟩ :=
    validate_plan_buildTaskRecoveryPlan.1 (h.validate path metadata)
  refine ⟨?_, ?_, ?_, hnamed, hdistinct, hresumes⟩
  · rw [lookup_commitAttempts]
    rfl
  · rw [lookup_committed]
    rfl
  · rw [metadataValue_taskId]
    exact h.taskId

theorem returns_submitTask_replannable (config : FallbackCommitRuntimeConfig)
    (task : TaskContext) (plan : ExecutionPlan) :
    (submitTask config task plan).Returns fun r => ∀ session,
      r = .ok session → Replannable session :=
  (returns_inWork config task plan).mono fun _ hinWork session hsession =>
    (hinWork session hsession).recoverable.replannable

theorem replannable_of_build {calls : List (Event Call World)} {execution : TaskRecoveryExecution}
    (h : Replannable session) (hlog : ∀ e ∈ calls, HoldsLog e.before path session)
    (hbuild : (buildRecoveryExecutionFromLog config path).Interfered
      (handle kind) calls (.ok execution)) :
    Replannable execution.session := by
  obtain ⟨metadata, recovered, rfl, -, hrebuilds, htask⟩ := exists_rebuilt_of_build hlog hbuild
  obtain ⟨status, phase, branchStatus, hended⟩ := exists_withStatuses recovered
  rw [hended]
  refine ⟨htask, ?_⟩
  show ({ branchPlans := createdBranches recovered.session.events } : ExecutionPlan).validate =
    .ok ()
  rw [hrebuilds.events]
  exact h.created

/-- An execution submits the task anew, commits, or leaves what the log tells of as it is. -/
theorem keptByExecution_replannable {execution : TaskRecoveryExecution}
    (h : Replannable execution.session) :
    KeptByExecution config execution Replannable where
  kept := h
  noted _ := ⟨h.taskId, h.created⟩
  submitted := (returns_submitTask_replannable config _ _).mono fun _ hfresh session hsession _ =>
    ⟨(hfresh session hsession).taskId, (hfresh session hsession).created⟩
  resumed _ _ _ _ _ _ := ⟨h.taskId, h.created⟩
  committed := by
    have hstarted : Replannable (execution.setStatus (ascii "revalidate_commit")).session :=
      ⟨h.taskId, h.created⟩
    exact (returns_commitTask config _).mono fun out hperformed =>
      hstarted.carries hperformed.carries

theorem replannable_of_reached (h : SessionReached session) : Replannable session := by
  induction h with
  | submitted hsubmit => exact (returns_submitTask_replannable _ _ _).interfered hsubmit _ rfl
  | operated _ hstep ih => exact ih.carries hstep.performed.carries
  | recovered _ hlog hbuild hexecute ih =>
    exact (keptByExecution_replannable (replannable_of_build ih hlog hbuild)).returns.interfered
      hexecute

end DataAgentSystem.Runtime
