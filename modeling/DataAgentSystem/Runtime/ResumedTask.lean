import DataAgentSystem.Runtime.RecoveredSession
import DataAgentSystem.Runtime.TaskContinuation

/-! Resuming a recovered task. The decision is read off the events, the last branch that
one of them names and the last savepoint that was set there; the branch rebuilt from the
log has only the savepoints that rollbacks have left. A task can be resumed exactly if
that branch exists and that savepoint is among those left. -/

namespace DataAgentSystem.Runtime

open Text Intent Cache Branch Storage Interaction Containers AgentTxn

variable {kind : StoreKind} {config config' : FallbackCommitRuntimeConfig} {session : TaskSession}
  {Allowed : SessionOp → World → Prop} {w : World} {path : Bytes}
    {execution : TaskRecoveryExecution}

/-! ### The decision -/

/-- The branch of the last event that names one; empty if none does. -/
def lastBranchId (events : List TaskEvent) : Bytes :=
  ((events.reverse.find? fun event => event.branchId ≠ []).map (·.branchId)).getD []

/-- The last savepoint that was set on the branch, whether or not it is left; empty if there is
none. -/
def lastSavepointId (events : List TaskEvent) (branchId : Bytes) : Bytes :=
  ((events.reverse.find? fun event => event.branchId = branchId ∧ event.type = .savepoint).map
    (·.detail)).getD []

theorem findLatestBranch_parsed (events : List TaskEvent) :
    findLatestBranch (events.map TaskEvent.parsed) = lastBranchId events := by
  rw [findLatestBranch, lastBranchId, ← List.map_reverse, List.find?_map, Option.map_map]
  rfl

theorem taskEventTypeName_eq_savepoint (type : TaskEventType) :
    taskEventTypeName type = ascii "SAVEPOINT" ↔ type = .savepoint := by cases type <;> decide

theorem findLatestSavepoint_parsed (events : List TaskEvent) (branchId : Bytes) :
    findLatestSavepoint (events.map TaskEvent.parsed) branchId =
      lastSavepointId events branchId := by
  have hsame :
    ((fun event : ParsedTaskEvent =>
      decide (event.branchId = branchId ∧ event.eventType = ascii "SAVEPOINT")) ∘
        TaskEvent.parsed) = fun event =>
          decide (event.branchId = branchId ∧ event.type = .savepoint) := by
    funext event
    apply decide_eq_decide.2
    show event.branchId = branchId ∧ taskEventTypeName event.type = ascii "SAVEPOINT" ↔ _
    rw [taskEventTypeName_eq_savepoint]
  rw [findLatestSavepoint, lastSavepointId, ← List.map_reverse,
    List.find?_map, hsame, Option.map_map]
  rfl

/-- A task in work is to be resumed, from a savepoint if its last branch has set one. -/
structure DecidedToResume (events : List TaskEvent) (decision : TaskRecoveryDecision) : Prop where
  branchId : decision.resumeBranchId = lastBranchId events
  action : decision.action = .resumeFromSavepoint ∧ decision.resumeSavepointId =
    lastSavepointId events (lastBranchId events) ∧
      lastSavepointId events (lastBranchId events) ≠ [] ∨
    decision.action = .resumeBranch ∧ lastSavepointId events (lastBranchId events) = []

def TaskEventType.ofOutcome : TaskEventType → Bool
  | .commitAttempt | .commitTask | .abortTask => true
  | _ => false

theorem ofOutcome_of_ofWork {type : TaskEventType} (h : type.ofWork = true) :
    type.ofOutcome = false := by
  cases type <;> first | rfl | cases h

theorem finalEventType_ne (metadata : List (Bytes × Bytes))
    (hlast : ∀ event, session.events.getLast? = some event → event.type.ofOutcome = false)
    {type : TaskEventType} (htype : type.ofOutcome = true) :
    finalEventType (writtenArtifact session metadata) ≠ some (taskEventTypeName type) := by
  intro hfinal
  rw [finalEventType, show (writtenArtifact session metadata).events =
    session.events.map TaskEvent.parsed from rfl, List.getLast?_map, Option.map_map,
    Option.map_eq_some_iff] at hfinal
  obtain ⟨event, hevent, hname⟩ := hfinal
  have heq : event.type = type := by
    rw [← taskEventTypeFromName_taskEventTypeName
      event.type, ← taskEventTypeFromName_taskEventTypeName type, ← hname]
    rfl
  have hother := hlast event hevent
  rw [heq, htype] at hother
  cases hother

/-- A running task whose log does not end with an outcome is to be resumed. -/
theorem decidedToResume (hcommitted : session.committed = false)
    (hphase : session.task.phase = .running)
    (hlast : ∀ event, session.events.getLast? = some event → event.type.ofOutcome = false)
    (path : Bytes) (metadata : List (Bytes × Bytes)) :
    DecidedToResume session.events
      (recoverTaskSessionDecision path (writtenArtifact session metadata)) := by
  have hcommitted : (writtenArtifact session metadata).metadataValue (ascii "committed") =
      ascii "0" := by
    rw [ParsedTaskEventLogArtifact.metadataValue, lookup_committed, hcommitted]
    rfl
  have hphase : (writtenArtifact session metadata).metadataValue (ascii "task_phase") =
      ascii "1" := by
    rw [metadataValue_taskPhase, hphase]
    decide
  have hcommit : finalEventType (writtenArtifact session metadata) ≠ some (ascii "COMMIT_TASK") :=
    @finalEventType_ne _ metadata hlast .commitTask rfl
  have habort : finalEventType (writtenArtifact session metadata) ≠ some (ascii "ABORT_TASK") :=
    @finalEventType_ne _ metadata hlast .abortTask rfl
  have hattempt : finalEventType (writtenArtifact session metadata) ≠
      some (ascii "COMMIT_ATTEMPT") :=
    @finalEventType_ne _ metadata hlast .commitAttempt rfl
  have hbranch : findLatestBranch (writtenArtifact session metadata).events =
      lastBranchId session.events :=
    findLatestBranch_parsed session.events
  have hsavepoint : findLatestSavepoint (writtenArtifact session metadata).events
    (lastBranchId session.events) =
      lastSavepointId session.events (lastBranchId session.events) :=
        findLatestSavepoint_parsed session.events _
  simp only [recoverTaskSessionDecision, hcommitted, hphase, hbranch, hsavepoint]
  rw [if_neg, if_neg habort, if_neg (by decide), if_neg hattempt]
  · split
    next hne => exact ⟨rfl, .inl ⟨rfl, rfl, hne⟩⟩
    next hnil => exact ⟨rfl, .inr ⟨rfl, by simpa using hnil⟩⟩
  · rintro (hone | htwo | hfinal)
    · exact absurd hone (by decide)
    · exact absurd htwo (by decide)
    · exact hcommit hfinal

theorem InWork.decided (h : InWork session) (path : Bytes) (metadata : List (Bytes × Bytes)) :
    DecidedToResume session.events
      (recoverTaskSessionDecision path (writtenArtifact session metadata)) := by
  apply decidedToResume h.committed h.phase
  intro event hevent
  rcases h.types event (List.mem_of_getLast? hevent) with htype | htype | htype
  · rw [htype]
    rfl
  · rw [htype]
    rfl
  · exact ofOutcome_of_ofWork htype

/-! ### The execution -/

/-- What is left of a branch when it is resumed. -/
def resumedBranch (execution : TaskRecoveryExecution) (branch : BranchContext) : BranchContext :=
  if execution.commandType = .resumeFromSavepoint then
    (RollbackManager.rollbackToSavepoint branch execution.targetSavepointId).2
  else branch

/-- The branch that is to be resumed is there, and so is the savepoint. -/
structure CanResume (execution : TaskRecoveryExecution) (branch : BranchContext) : Prop where
  found : execution.session.txn.findBranch execution.targetBranchId = some branch
  left : execution.commandType = .resumeFromSavepoint →
    ∃ savepoint ∈ branch.savepoints, savepoint.savepointId = execution.targetSavepointId

/-- The command resumes a branch. -/
def TaskRecoveryExecution.Resumes (execution : TaskRecoveryExecution) : Prop :=
  execution.commandType = .resumeBranch ∨ execution.commandType = .resumeFromSavepoint

theorem rollbackToSavepoint_fst (branch : BranchContext) (savepointId : Bytes) :
    (RollbackManager.rollbackToSavepoint branch savepointId).1 = true ↔
      ∃ savepoint ∈ branch.savepoints, savepoint.savepointId = savepointId := by
  have hfound := @List.find?_isSome _ branch.savepoints
    (fun savepoint => decide (savepoint.savepointId = savepointId))
  unfold RollbackManager.rollbackToSavepoint
  cases hfind : branch.savepoints.find? fun savepoint => savepoint.savepointId = savepointId with
  | none =>
    rw [hfind] at hfound
    simpa using hfound
  | some savepoint =>
    rw [hfind] at hfound
    simpa using hfound

theorem setBranch_setBranch (txn : AgentTxnContext) {branch branch' : BranchContext}
    (hid : branch'.branchId = branch.branchId) :
    (txn.setBranch branch).setBranch branch' = txn.setBranch branch' := by
  have hreplace : ∀ branches : List BranchContext,
      BranchManager.replaceBranch (BranchManager.replaceBranch branches branch) branch' =
        BranchManager.replaceBranch branches branch' := by
    intro branches
    induction branches with
    | nil => rfl
    | cons b branches ih =>
      rw [BranchManager.replaceBranch, BranchManager.replaceBranch, hid]
      by_cases hb : b.branchId = branch.branchId
      · rw [if_pos hb, if_pos hb, BranchManager.replaceBranch, if_pos hid.symm]
      · rw [if_neg hb, if_neg hb, BranchManager.replaceBranch, hid, if_neg hb, ih]
  rw [AgentTxnContext.setBranch, AgentTxnContext.setBranch, AgentTxnContext.setBranch, hreplace]

/-- The task goes on with the branch as it is left, and no event tells of that. -/
structure IsResumed (execution : TaskRecoveryExecution) (branch : BranchContext)
    (resumed : TaskRecoveryExecution) : Prop where
  txn : resumed.session.txn = execution.session.txn.setBranch
    { resumedBranch execution branch with status := .running }
  events : resumed.session.events = execution.session.events
  taskId : resumed.session.task.taskId = execution.session.task.taskId
  phase : resumed.session.task.phase = .running
  committed : resumed.session.committed = execution.session.committed

theorem run_executeRecoveryExecution {branch : BranchContext} (hresumes : execution.Resumes)
    (h : CanResume execution branch) (w : World) : ∃ resumed,
    (executeRecoveryExecution config execution).run (handle kind) w = ((.ok true, resumed), w) ∧
      IsResumed execution branch resumed := by
  rcases hresumes with hcommand | hcommand
  · refine ⟨execution.resume branch execution.session.txn (ascii "branch_resumed"), ?_, ?_⟩
    · simp only [executeRecoveryExecution, hcommand, h.found]
      rfl
    · refine ⟨?_, rfl, rfl, rfl, rfl⟩
      rw [resumedBranch, hcommand]
      rfl
  · have hrolled := (rollbackToSavepoint_fst branch execution.targetSavepointId).2 (h.left hcommand)
    have hid := RollbackManager.rollbackToSavepoint_branchId branch execution.targetSavepointId
    have hfind := BranchManager.branchId_of_findBranch h.found
    have hfound : (execution.session.txn.setBranch (RollbackManager.rollbackToSavepoint branch
        execution.targetSavepointId).2).findBranch execution.targetBranchId =
        some (RollbackManager.rollbackToSavepoint branch execution.targetSavepointId).2 := by
      refine (BranchManager.findBranch_replaceBranch _ _ _).trans ?_
      rw [hid, hfind, if_pos rfl, show BranchManager.findBranch _ _ = some branch from h.found]
      rfl
    refine ⟨execution.resume
      (RollbackManager.rollbackToSavepoint branch execution.targetSavepointId).2
      (execution.session.txn.setBranch
        (RollbackManager.rollbackToSavepoint branch execution.targetSavepointId).2)
      (ascii "savepoint_resumed"), ?_, ?_⟩
    · simp only [executeRecoveryExecution, hcommand, h.found, AgentTxnContext.rollbackToSavepoint,
        hrolled, hfound]
      rfl
    · refine ⟨?_, rfl, rfl, rfl, rfl⟩
      rw [resumedBranch, hcommand, if_pos rfl]
      exact setBranch_setBranch _ rfl

theorem run_executeRecoveryExecution_refused (hresumes : execution.Resumes)
    (h : ∀ branch, ¬CanResume execution branch) (w : World) :
    (executeRecoveryExecution config execution).run (handle kind) w =
    ((.ok false, execution), w) := by
  cases hfind : execution.session.txn.findBranch execution.targetBranchId with
  | none =>
    rcases hresumes with hcommand | hcommand <;>
      simp only [executeRecoveryExecution, hcommand, hfind] <;> rfl
  | some branch =>
    rcases hresumes with hcommand | hcommand
    · refine absurd ⟨hfind, fun hsavepoint => ?_⟩ (h branch)
      rw [hcommand] at hsavepoint
      cases hsavepoint
    · have hrolled : (RollbackManager.rollbackToSavepoint branch execution.targetSavepointId).1 =
          false := by
        by_contra hrolled
        exact h branch ⟨hfind, fun _ => (rollbackToSavepoint_fst _ _).1 (by simpa using hrolled)⟩
      simp only [executeRecoveryExecution, hcommand, hfind,
        AgentTxnContext.rollbackToSavepoint, hrolled]
      rfl

theorem events_executeRecoveryExecution (hresumes : execution.Resumes) (w : World) :
    ((executeRecoveryExecution config execution).run (handle kind) w).1.2.session.events =
      execution.session.events := by
  by_cases hcan : ∃ branch, CanResume execution branch
  · obtain ⟨branch, hcan⟩ := hcan
    obtain ⟨resumed, hrun, hresumed⟩ :=
      @run_executeRecoveryExecution kind config _ _ hresumes hcan w
    rw [hrun]
    exact hresumed.events
  · rw [run_executeRecoveryExecution_refused hresumes
      (fun branch hbranch => hcan ⟨branch, hbranch⟩)]

/-- The execution returns true and leaves its target branch running; the savepoint it goes back
to was left. -/
structure Executes (kind : StoreKind) (config : FallbackCommitRuntimeConfig)
    (execution : TaskRecoveryExecution) (w : World) : Prop where
  returns : ((executeRecoveryExecution config execution).run (handle kind) w).1.1 = .ok true
  running : ∃ branch,
    ((executeRecoveryExecution config execution).run (handle kind) w).1.2.session.txn.findBranch
    execution.targetBranchId = some branch ∧ branch.status = .running
  left : execution.commandType = .resumeFromSavepoint → ∃ branch,
    execution.session.txn.findBranch execution.targetBranchId = some branch ∧
      ∃ savepoint ∈ branch.savepoints, savepoint.savepointId = execution.targetSavepointId

theorem executes_iff (hresumes : execution.Resumes) :
    Executes kind config execution w ↔ ∃ branch, CanResume execution branch := by
  constructor
  · intro h
    by_contra hno
    have hreturns := h.returns
    rw [run_executeRecoveryExecution_refused hresumes
      (fun branch hbranch => hno ⟨branch, hbranch⟩)] at hreturns
    cases hreturns
  · rintro ⟨branch, h⟩
    obtain ⟨resumed, hrun, hresumed⟩ := @run_executeRecoveryExecution kind config _ _ hresumes h w
    refine ⟨by rw [hrun], ⟨{ resumedBranch execution branch with status := .running }, ?_, rfl⟩,
      fun hcommand => ⟨branch, h.found, h.left hcommand⟩⟩
    have hid : (resumedBranch execution branch).branchId = execution.targetBranchId := by
      rw [← BranchManager.branchId_of_findBranch h.found, resumedBranch]
      split
      · exact RollbackManager.rollbackToSavepoint_branchId branch _
      · rfl
    rw [hrun]
    show resumed.session.txn.findBranch execution.targetBranchId = _
    rw [hresumed.txn]
    refine (BranchManager.findBranch_replaceBranch _ _ _).trans ?_
    rw [if_pos hid.symm, show BranchManager.findBranch _ _ = some branch from h.found]
    rfl

/-- The last branch that an event names is one of the task, and the savepoint that was
set there last, if any, is still left. -/
def Resumable (session : TaskSession) : Prop :=
  ∃ branch, session.txn.findBranch (lastBranchId session.events) = some branch ∧
    (lastSavepointId session.events (lastBranchId session.events) = [] ∨
      ∃ savepoint ∈ branch.savepoints, savepoint.savepointId = lastSavepointId session.events
      (lastBranchId session.events))

/-- From the log of a task in work a resumption is always built. It can be executed
exactly if the task is resumable. -/
theorem buildRecoveryExecutionFromLog_executes_iff (config' : FallbackCommitRuntimeConfig)
    (hwork : WorkedOn kind config Allowed session) (hlog : HoldsLog w path session) :
    ∃ execution, ((buildRecoveryExecutionFromLog config' path).run (handle kind) w).1 =
      .ok execution ∧
      execution.Resumes ∧ ∀ w', Executes kind config' execution w' ↔ Resumable session := by
  obtain ⟨metadata, recovered, hrun, hrecovers⟩ :=
    @InWork.recovers kind _ _ _ hwork.inWork config' hlog
  have hmirrors := hwork.mirrors_writesAlone hrecovers
  have hdecision : recovered.recoveryPlan.decision = recoverTaskSessionDecision path
      (writtenArtifact session metadata) := by
    rw [hrecovers.recoveryPlan]
    exact (isRecoveryPlan_buildTaskRecoveryPlan path _).decision
  have hdecided := hwork.inWork.decided path metadata
  rw [← hdecision] at hdecided
  have hcommand : (buildTaskRecoveryExecution recovered).commandType =
      (commandOf recovered.recoveryPlan.decision.action).1 := rfl
  have hresumes : (buildTaskRecoveryExecution recovered).Resumes := by
    rcases hdecided.action with ⟨haction, -⟩ | ⟨haction, -⟩
    · exact .inr (hcommand.trans (by rw [haction]; rfl))
    · exact .inl (hcommand.trans (by rw [haction]; rfl))
  refine ⟨buildTaskRecoveryExecution recovered, ?_, hresumes, fun w' =>
    (executes_iff hresumes).trans ?_⟩
  · rw [buildRecoveryExecutionFromLog, Program.run_bind, hrun]
    rfl
  · have hbranchId : (buildTaskRecoveryExecution recovered).targetBranchId =
        lastBranchId session.events := hdecided.branchId
    constructor
    · rintro ⟨branch', hfound, hleft⟩
      rw [hbranchId] at hfound
      obtain ⟨branch, hbranch, hmirrored⟩ := hmirrors.exists_mirrored hfound
      refine ⟨branch, hbranch, ?_⟩
      rcases hdecided.action with ⟨haction, hsavepoint, -⟩ | ⟨-, hnone⟩
      · obtain ⟨savepoint, hmem, hid⟩ := hleft (hcommand.trans (by rw [haction]; rfl))
        rw [show branch.savepoints = branch'.savepoints from hmirrored.savepoints]
        exact .inr ⟨savepoint, hmem, hid.trans hsavepoint⟩
      · exact .inl hnone
    · rintro ⟨branch, hbranch, hleft⟩
      obtain ⟨branch', hfound, hmirrored⟩ := hmirrors.exists_mirror hbranch
      refine ⟨branch', by rw [hbranchId]; exact hfound, fun hresume => ?_⟩
      rcases hdecided.action with ⟨-, hsavepoint, hne⟩ | ⟨haction, -⟩
      · obtain ⟨savepoint, hmem, hid⟩ := hleft.resolve_left hne
        rw [show branch.savepoints = branch'.savepoints from hmirrored.savepoints] at hmem
        exact ⟨savepoint, hmem, hid.trans hsavepoint.symm⟩
      · rw [hcommand, haction] at hresume
        cases hresume

theorem buildRecoveryExecutionFromLog_executes_rivalsWorked :
    ∃ execution, ((buildRecoveryExecutionFromLog {} (ascii "log")).run (handle .memory)
        ((writeTaskEventLogArtifact rivalsWorked [] (ascii "log")).run (handle .memory) {}).2).1 =
          .ok execution ∧
      execution.Resumes ∧ ∀ w', Executes .memory {} execution w' ↔ Resumable rivalsWorked := by
  have hrivals : WorkedOn .memory {} (fun _ _ => True) rivals :=
    ⟨noteTask, rivalPlan, {}, rivals, rfl, .refl⟩
  have hworked : WorkedOn .memory {} (fun _ _ => True) rivalsWorked :=
    @WorkedOn.foldl .memory {} rivals _ rivalWorld hrivals rivalOps
      (by simp [rivalOps, SessionOp.works])
  exact buildRecoveryExecutionFromLog_executes_iff {} hworked
    (holdsLog_writeTaskEventLogArtifact (List.Perm.refl _) .memory (ascii "log") {})

/-- The task after it has set two savepoints and gone back to the first one. -/
def notedRollback : TaskSession :=
  (((noted.savepoint (ascii "b") (ascii "s1")).savepoint (ascii "b")
    (ascii "s2")).rollbackToSavepoint (ascii "b")
    (ascii "s1")).2

/-- The second savepoint is gone, and recovery means to go back to it. -/
theorem executeRecoveryExecution_not_executes :
    WorkedOn .memory {} (fun _ _ => True) notedRollback ∧
      ∃ execution, ((buildRecoveryExecutionFromLog {} (ascii "log")).run (handle .memory)
          ((writeTaskEventLogArtifact notedRollback [] (ascii "log")).run (handle .memory)
            {}).2).1 = .ok execution ∧
        execution.commandType = .resumeFromSavepoint ∧ execution.targetSavepointId = ascii "s2" ∧
        ¬Executes .memory {} execution {} := by
  have hset : Relation.ReflTransGen (WorkStep .memory {} fun _ _ => True) noted
      ((noted.savepoint (ascii "b") (ascii "s1")).savepoint (ascii "b") (ascii "s2")) :=
    .tail (.single (@WorkStep.perform _ _ _ _ (.savepoint (ascii "b") (ascii "s1")) {} rfl trivial))
      (@WorkStep.perform _ _ _ _ (.savepoint (ascii "b") (ascii "s2")) {} rfl trivial)
  have hrolled : WorkStep .memory {} (fun _ _ => True)
      ((noted.savepoint (ascii "b") (ascii "s1")).savepoint (ascii "b") (ascii "s2"))
          notedRollback :=
    @WorkStep.perform _ _ _ _ (.rollbackToSavepoint (ascii "b") (ascii "s1")) {} rfl trivial
  refine ⟨⟨noteTask, notePlan, {}, noted, rfl, hset.tail hrolled⟩, _, rfl, rfl, rfl, fun h => ?_⟩
  exact absurd h.returns (by decide)

end DataAgentSystem.Runtime
