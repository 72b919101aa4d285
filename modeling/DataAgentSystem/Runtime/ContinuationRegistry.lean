import DataAgentSystem.Runtime.CarriedMetadata
import DataAgentSystem.Runtime.ResumedTask
import DataAgentSystem.Runtime.TwinSessions

/-! Who carries on with a recovered task: the handler that is registered for its workload.
The name of the workload comes back from the log, whatever was done with the session. -/

namespace DataAgentSystem.Runtime

open Text Intent Cache Branch Storage Interaction Containers AgentTxn

/-- A handler gets the runtime, that is its configuration, and the execution. -/
abbrev TaskContinuationHandler :=
  FallbackCommitRuntimeConfig → TaskRecoveryExecution →
    Prog (Except Bytes Bool × TaskRecoveryExecution)

structure TaskContinuationRegistry where
  handlers : UnorderedMap TaskContinuationHandler := ∅

namespace TaskContinuationRegistry

def registerHandler (registry : TaskContinuationRegistry) (workloadName : Bytes)
    (handler : TaskContinuationHandler) :
    Bool × TaskContinuationRegistry :=
  if workloadName = [] then (false, registry)
  else (true, { handlers := registry.handlers.insert workloadName handler })

def findHandler (registry : TaskContinuationRegistry) (workloadName : Bytes) :
    Option TaskContinuationHandler :=
  registry.handlers.lookup workloadName

def continue_ (registry : TaskContinuationRegistry) (config : FallbackCommitRuntimeConfig)
    (execution : TaskRecoveryExecution) : Prog (Except Bytes Bool × TaskRecoveryExecution) :=
  let workloadName :=
    if execution.session.task.workloadName = [] then
      execution.recoveryPlan.task.workloadName
    else execution.session.task.workloadName
  match registry.findHandler workloadName with
  | none => return (.ok false, execution)
  | some handler => handler config execution

/-- The last handler that was registered for a workload is the one that is found. -/
theorem findHandler_registerHandler (registry : TaskContinuationRegistry)
    {name : Bytes} (hname : name ≠ []) (handler : TaskContinuationHandler) (workloadName : Bytes) :
    (registry.registerHandler name handler).2.findHandler workloadName =
      if workloadName = name then some handler else registry.findHandler workloadName := by
  rw [registerHandler, if_neg hname, findHandler]
  split
  next heq => rw [heq, AList.lookup_insert]
  next hne => exact AList.lookup_insert_ne hne

/-- A task with a workload that has a handler is carried on with by that handler. -/
theorem continue_of_findHandler {registry : TaskContinuationRegistry}
    {handler : TaskContinuationHandler} {execution : TaskRecoveryExecution}
    {name : Bytes} (hname : name ≠ []) (hworkload : execution.session.task.workloadName = name)
    (hfind : registry.findHandler name = some handler) (config : FallbackCommitRuntimeConfig) :
    registry.continue_ config execution = handler config execution := by
  rw [continue_, hworkload, if_neg hname, hfind]

end TaskContinuationRegistry

variable {kind : StoreKind} {config : FallbackCommitRuntimeConfig} {session : TaskSession}
  {w : World} {path : Bytes}

/-! ### What stays with the session -/

theorem operated_of_workStep {Allowed : SessionOp → World → Prop} {submitted : TaskSession}
    (h : Relation.ReflTransGen (WorkStep kind config Allowed) submitted session) :
    Operated submitted session := by
  induction h with
  | refl => exact .refl
  | tail _ hlast ih =>
    cases hlast with
    | perform _ _ => exact ih.tail ⟨config, kind, _, _, Program.interfered_run _ _⟩

/-- No operation changes the workload or the objects. -/
theorem workload_of_operated {session' : TaskSession} (h : Operated session session') :
    session'.task.workloadName = session.task.workloadName ∧ session'.task.inputObjects =
      session.task.inputObjects ∧
      session'.task.outputObjects = session.task.outputObjects := by
  induction h with
  | refl => exact ⟨rfl, rfl, rfl⟩
  | tail _ hlast ih =>
    rw [← ih.1, ← ih.2.1, ← ih.2.2]
    cases hlast.performed with
    | @concluded _ committed _ => cases committed <;> exact ⟨rfl, rfl, rfl⟩
    | @noted _ committed _ _ _ => cases committed <;> exact ⟨rfl, rfl, rfl⟩
    | _ => exact ⟨rfl, rfl, rfl⟩

/-! ### What comes back from the log -/

theorem workloadName_planEvents (events : List ParsedTaskEvent) (recoveryPlan : TaskRecoveryPlan) :
    (events.foldl planEvent recoveryPlan).task.workloadName = recoveryPlan.task.workloadName := by
  induction events generalizing recoveryPlan with
  | nil => rfl
  | cons event events ih =>
    rw [List.foldl_cons, ih]
    unfold planEvent
    simp only
    split
    · rfl
    · split
      · rfl
      · split
        · rfl
        · split <;> rfl

/-- Events add an object to a task that has none, and to no other. -/
theorem objects_planEvents (events : List ParsedTaskEvent) (recoveryPlan : TaskRecoveryPlan) :
    (recoveryPlan.task.inputObjects ≠ [] →
        (events.foldl planEvent recoveryPlan).task.inputObjects = recoveryPlan.task.inputObjects) ∧
      (recoveryPlan.task.outputObjects ≠ [] →
        (events.foldl planEvent recoveryPlan).task.outputObjects =
          recoveryPlan.task.outputObjects) := by
  induction events generalizing recoveryPlan with
  | nil => exact ⟨fun _ => rfl, fun _ => rfl⟩
  | cons event events ih =>
    have hinput : recoveryPlan.task.inputObjects ≠ [] →
        (planEvent recoveryPlan event).task.inputObjects = recoveryPlan.task.inputObjects := by
      intro hne
      unfold planEvent
      simp only [hne, and_false, if_false]
      split
      · rfl
      · split
        · rfl
        · split <;> rfl
    have houtput : recoveryPlan.task.outputObjects ≠ [] →
        (planEvent recoveryPlan event).task.outputObjects = recoveryPlan.task.outputObjects := by
      intro hne
      unfold planEvent
      simp only [hne, and_false, if_false]
      split
      · rfl
      · split
        · rfl
        · split <;> rfl
    rw [List.foldl_cons]
    constructor
    · intro hne
      rw [(ih _).1 (by rwa [hinput hne]), hinput hne]
    · intro hne
      rw [(ih _).2 (by rwa [houtput hne]), houtput hne]

theorem workloadName_buildTaskRecoveryPlan (path : Bytes) (metadata : List (Bytes × Bytes))
    (hname : session.task.workloadName ≠ []) :
    (buildTaskRecoveryPlan path (writtenArtifact session metadata)).task.workloadName =
      session.task.workloadName := by
  have hmem : (ascii "workload_name", escapeTaskEventLogText session.task.workloadName) ∈
      logFields session metadata := by
    simp [logFields]
  have hvalue := metadataValue_writtenArtifact session metadata hmem
  rw [unescape_escapeTaskEventLogText] at hvalue
  have htask : ∀ decision,
    (recoveredTask path (writtenArtifact session metadata) decision).workloadName =
      session.task.workloadName := by
    intro decision
    show (if (writtenArtifact session metadata).metadataValue (ascii "workload_name") = [] then _
      else (writtenArtifact session metadata).metadataValue (ascii "workload_name")) = _
    rw [hvalue, if_neg hname]
  unfold buildTaskRecoveryPlan
  simp only
  split <;> exact (workloadName_planEvents _ _).trans (htask _)

theorem taskId_recoverTaskSessionDecision (path : Bytes) (artifact : ParsedTaskEventLogArtifact) :
    (recoverTaskSessionDecision path artifact).taskId =
      artifact.metadataValue (ascii "task_id") := by
  unfold recoverTaskSessionDecision
  simp only
  repeat' split <;> try rfl

/-- Objects with names come back, unless there were none. -/
theorem objects_buildTaskRecoveryPlan (path : Bytes) (metadata : List (Bytes × Bytes))
    (hnamed : session.task.Named) :
    (session.task.inputObjects ≠ [] →
        (buildTaskRecoveryPlan path (writtenArtifact session metadata)).task.inputObjects =
          session.task.inputObjects) ∧
      (session.task.outputObjects ≠ [] →
        (buildTaskRecoveryPlan path (writtenArtifact session metadata)).task.outputObjects =
          session.task.outputObjects) := by
  obtain ⟨hinput, houtput, -⟩ := finds_writtenArtifact session metadata
  have hrestored : ∀ decision,
      (recoveredTask path (writtenArtifact session metadata) decision).inputObjects =
        session.task.inputObjects ∧
        (recoveredTask path (writtenArtifact session metadata) decision).outputObjects =
            session.task.outputObjects := by
    intro decision
    simp only [recoveredTask, TaskContext.setMetadata, restoreTaskContextFromArtifactMetadata,
      hinput.restoreObjects hnamed.inputObjects hnamed.inputSize,
      houtput.restoreObjects hnamed.outputObjects hnamed.outputSize,
      and_self]
  have hplanned := objects_planEvents (writtenArtifact session metadata).events {
    decision := recoverTaskSessionDecision path (writtenArtifact session metadata)
    task := recoveredTask path (writtenArtifact session metadata)
      (recoverTaskSessionDecision path (writtenArtifact session metadata)) }
  simp only [(hrestored _).1, (hrestored _).2] at hplanned
  unfold buildTaskRecoveryPlan
  simp only
  split <;> exact hplanned

/-- The execution that is built from the log of a session: the task is that of the plan, up
to its phase and to what the execution notes. -/
theorem exists_execution (config : FallbackCommitRuntimeConfig) (hrecoverable : Recoverable session)
    (hlog : HoldsLog w path session) : ∃ metadata execution phase command summary,
      UnorderedMap.Iterates session.task.metadata metadata ∧
      (buildRecoveryExecutionFromLog config path).run (handle kind) w = (.ok execution, w) ∧
      execution.recoveryPlan = buildTaskRecoveryPlan path (writtenArtifact session metadata) ∧
      execution.session.task =
        (({ execution.recoveryPlan.task with phase := phase } : TaskContext).setMetadata
          (ascii "recovery_command") command).setMetadata (ascii "recovery_summary") summary := by
  obtain ⟨metadata, submitted, hmetadata, hsubmitted, hrun⟩ :=
    @run_recoverSessionFromLog_of_holdsLog kind _ _ _ config hlog
    hrecoverable.taskId (hrecoverable.validate path)
  have hbuilt : ∀ recovered, (recoverSessionFromLog config path).run (handle kind) w =
    (.ok recovered, w) →
      (buildRecoveryExecutionFromLog config path).run (handle kind) w =
          (.ok (buildTaskRecoveryExecution recovered), w) := by
    intro recovered hrecovered
    rw [buildRecoveryExecutionFromLog, Program.run_bind, hrecovered]
    rfl
  obtain ⟨status, phase, branchStatus, hended⟩ := exists_withStatuses {
    recoveryPlan := buildTaskRecoveryPlan path (writtenArtifact session metadata)
    session := rebuiltSession kind w (writtenArtifact session metadata) submitted
      (decimal session.commitAttempts.toNat)
      (if session.committed then ascii "1" else ascii "0") }
  rw [hended] at hrun
  let command :=
    commandOf (buildTaskRecoveryPlan path (writtenArtifact session metadata)).decision.action
  refine ⟨metadata, _, phase, taskRecoveryCommandTypeName command.1, command.2,
    hmetadata, hbuilt _ hrun, rfl, ?_⟩
  show TaskContext.setMetadata
    (TaskContext.setMetadata { submitted.task with phase := phase } _ _) _ _ = _
  rw [hsubmitted.task]
  rfl

/-- Of the log of a session, an execution keeps the name of the workload and every key of
the metadata that neither recovery nor the execution sets. -/
theorem buildRecoveryExecutionFromLog_carries (config : FallbackCommitRuntimeConfig)
    (hrecoverable : Recoverable session) (hlog : HoldsLog w path session)
    (hworkload : session.task.workloadName ≠ [])
    (hnamed : ∀ key ∈ session.task.metadata.keys, key ≠ [])
    (hsize : session.task.metadata.keys.length < 2 ^ 64) :
    ∃ execution, (buildRecoveryExecutionFromLog config path).run (handle kind) w =
      (.ok execution, w) ∧
      execution.session.task.workloadName = session.task.workloadName ∧
      ∀ key, key ∉ recoveryKeys → key ≠ ascii "recovery_command" → key ≠ ascii "recovery_summary" →
        execution.session.task.metadata.lookup key = session.task.metadata.lookup key := by
  obtain ⟨metadata, execution, phase, command, summary, hmetadata, hrun, hplan, htask⟩ :=
    @exists_execution kind session w path config hrecoverable hlog
  refine ⟨execution, hrun, ?_, fun key hkey hcommand hsummary => ?_⟩
  · rw [← workloadName_buildTaskRecoveryPlan path metadata hworkload, htask, hplan]
    rfl
  · rw [htask, hplan]
    simp only [TaskContext.setMetadata]
    rw [AList.lookup_insert_ne hsummary, AList.lookup_insert_ne hcommand,
      metadata_buildTaskRecoveryPlan, lookup_recoveredTask path _ _ hkey,
      lookup_restoreMetadata hmetadata hnamed hsize]

/-- An execution keeps the name of the workload and the objects of the task, and knows its id. -/
theorem buildRecoveryExecutionFromLog_objects (config : FallbackCommitRuntimeConfig)
    (hrecoverable : Recoverable session) (hlog : HoldsLog w path session)
    (hworkload : session.task.workloadName ≠ []) (hnamed : session.task.Named)
    (hinput : session.task.inputObjects ≠ []) (houtput : session.task.outputObjects ≠ []) :
    ∃ execution, (buildRecoveryExecutionFromLog config path).run (handle kind) w =
      (.ok execution, w) ∧
      execution.session.task.workloadName = session.task.workloadName ∧
      execution.session.task.inputObjects = session.task.inputObjects ∧
      execution.session.task.outputObjects = session.task.outputObjects ∧
      execution.recoveryPlan.decision.taskId = session.task.taskId := by
  obtain ⟨metadata, execution, phase, command, summary, hmetadata, hrun, hplan, htask⟩ :=
    @exists_execution kind session w path config hrecoverable hlog
  have hobjects := objects_buildTaskRecoveryPlan path metadata hnamed
  refine ⟨execution, hrun, ?_, ?_, ?_, ?_⟩
  · rw [← workloadName_buildTaskRecoveryPlan path metadata hworkload, htask, hplan]
    rfl
  · rw [← hobjects.1 hinput, htask, hplan]
    rfl
  · rw [← hobjects.2 houtput, htask, hplan]
    rfl
  · rw [hplan, (isRecoveryPlan_buildTaskRecoveryPlan path _).decision]
    rw [taskId_recoverTaskSessionDecision, metadataValue_taskId]

end DataAgentSystem.Runtime
