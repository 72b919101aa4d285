import DataAgentSystem.Runtime.TaskWork

/-! Sessions recovered from their event logs. Recovery plans the branches that the log
says were created, submits the task anew, and plays the events. The log of a session
that has been worked on is always accepted, and what is rebuilt from it mirrors the
session; with the store unchanged nothing of the branch write state is lost. -/

namespace DataAgentSystem.Runtime

open Text Intent Cache Branch Storage Interaction Containers AgentTxn

variable {kind : StoreKind} {config : FallbackCommitRuntimeConfig} {session session' : TaskSession}
  {Allowed : SessionOp → World → Prop} {M : Mirroring} {w : World} {path : Bytes}

/-! ### The plan -/

/-- The branch an event of the log says was created. -/
def loggedBranchPlan (event : ParsedTaskEvent) : Option BranchPlan :=
  if event.eventType = ascii "CREATE_BRANCH" then some {
    branchId := event.branchId
    candidateId := event.detail
    rationale := ascii "recovered branch"
    initialPriority := .ofInt64 event.numericValue }
  else none

/-- What the events of a log make of a recovery plan. -/
structure Planned (begun planned : TaskRecoveryPlan) (branchPlans : List BranchPlan) : Prop where
  decision : planned.decision = begun.decision
  taskId : planned.task.taskId = begun.task.taskId
  objective : begun.task.objective ≠ [] → planned.task.objective ≠ []
  branchPlans : planned.plan.branchPlans = begun.plan.branchPlans ++ branchPlans

theorem planned_planEvent (recoveryPlan : TaskRecoveryPlan) (event : ParsedTaskEvent) :
    Planned recoveryPlan (planEvent recoveryPlan event) (loggedBranchPlan event).toList := by
  by_cases hcreate : event.eventType = ascii "CREATE_BRANCH"
  · have hevent : planEvent recoveryPlan event = { recoveryPlan with
        plan := recoveryPlan.plan.addBranchPlan event.branchId event.detail
          (ascii "recovered branch")
          (.ofInt64 event.numericValue) } := by
      have hsubmit : ascii "CREATE_BRANCH" ≠ ascii "SUBMIT_TASK" := by decide
      have hread : ascii "CREATE_BRANCH" ≠ ascii "READ" := by decide
      have hwrite : ascii "CREATE_BRANCH" ≠ ascii "WRITE" := by decide
      simp only [planEvent, hcreate, hsubmit, hread, hwrite, false_and, ↓reduceIte]
    rw [hevent, loggedBranchPlan, if_pos hcreate]
    exact ⟨rfl, rfl, id, rfl⟩
  · rw [loggedBranchPlan, if_neg hcreate]
    unfold planEvent
    simp only [hcreate, ↓reduceIte]
    split
    next hsubmit => exact ⟨rfl, rfl, fun _ => hsubmit.2, (List.append_nil _).symm⟩
    · split
      · exact ⟨rfl, rfl, id, (List.append_nil _).symm⟩
      · split
        · exact ⟨rfl, rfl, id, (List.append_nil _).symm⟩
        · exact ⟨rfl, rfl, id, (List.append_nil _).symm⟩

theorem planned_foldl (events : List ParsedTaskEvent) (recoveryPlan : TaskRecoveryPlan) :
    Planned recoveryPlan (events.foldl planEvent recoveryPlan)
      (events.filterMap loggedBranchPlan) := by
  induction events generalizing recoveryPlan with
  | nil => exact ⟨rfl, rfl, id, (List.append_nil _).symm⟩
  | cons event events ih =>
    have hhead := planned_planEvent recoveryPlan event
    have htail := ih (planEvent recoveryPlan event)
    refine ⟨htail.decision.trans hhead.decision, htail.taskId.trans hhead.taskId,
      fun hobjective => htail.objective (hhead.objective hobjective), ?_⟩
    rw [List.foldl_cons, htail.branchPlans, hhead.branchPlans, List.append_assoc]
    cases hlogged : loggedBranchPlan event with
    | none => rw [List.filterMap_cons_none hlogged]; rfl
    | some branchPlan => rw [List.filterMap_cons_some hlogged]; rfl

/-- The recovery plan of a log, with the branches it says were created, or one to go on with. -/
structure IsRecoveryPlan (path : Bytes) (artifact : ParsedTaskEventLogArtifact)
    (recoveryPlan : TaskRecoveryPlan) : Prop where
  decision : recoveryPlan.decision = recoverTaskSessionDecision path artifact
  taskId : recoveryPlan.task.taskId = artifact.metadataValue (ascii "task_id")
  objective : recoveryPlan.task.objective ≠ []
  logged : artifact.events.filterMap loggedBranchPlan ≠ [] →
    recoveryPlan.plan.branchPlans = artifact.events.filterMap loggedBranchPlan
  fallback : artifact.events.filterMap loggedBranchPlan = [] →
    recoveryPlan.decision.resumeBranchId ≠ [] →
    recoveryPlan.plan.branchPlans = [{
      branchId := recoveryPlan.decision.resumeBranchId
      candidateId := recoveryPlan.decision.resumeBranchId ++ ascii "_candidate"
      rationale := ascii "recovered fallback branch" }]
  nothing : artifact.events.filterMap loggedBranchPlan = [] →
    recoveryPlan.decision.resumeBranchId = [] →
    recoveryPlan.plan.branchPlans = []

theorem isRecoveryPlan_buildTaskRecoveryPlan (path : Bytes)
    (artifact : ParsedTaskEventLogArtifact) :
    IsRecoveryPlan path artifact (buildTaskRecoveryPlan path artifact) := by
  have hplanned := planned_foldl artifact.events {
    decision := recoverTaskSessionDecision path artifact
    task := recoveredTask path artifact (recoverTaskSessionDecision path artifact) }
  have hobjective :
      (recoveredTask path artifact (recoverTaskSessionDecision path artifact)).objective ≠ [] := by
    show ascii "recovered task session" ≠ []
    decide
  have hbranchPlans := hplanned.branchPlans
  rw [List.nil_append] at hbranchPlans
  simp only [buildTaskRecoveryPlan]
  rw [hbranchPlans]
  split
  next h =>
    refine ⟨hplanned.decision, hplanned.taskId, hplanned.objective hobjective,
      fun hne => absurd h.1 hne, fun _ _ => ?_, fun _ hnone =>
      absurd ((congrArg TaskRecoveryDecision.resumeBranchId hplanned.decision).symm.trans hnone)
      h.2⟩
    rw [ExecutionPlan.addBranchPlan, hbranchPlans, h.1, hplanned.decision]
    rfl
  next h =>
    refine ⟨hplanned.decision, hplanned.taskId, hplanned.objective hobjective, fun _ =>
      hbranchPlans, fun hnil hne => ?_, fun hnil _ => hbranchPlans.trans hnil⟩
    rw [hplanned.decision] at hne
    exact absurd ⟨hnil, hne⟩ h

/-! ### The session -/

/-- The session that recovery puts together from what it has read and submitted anew. -/
def rebuiltSession (kind : StoreKind) (w : World) (artifact : ParsedTaskEventLogArtifact)
    (submitted : TaskSession) (commitAttempts committed : Bytes) : TaskSession :=
  { submitted with
    txn := artifact.events.foldl (fun txn event => ((replayEvent txn event).run (handle kind) w).1)
      submitted.txn
    commitAttempts := strtoull commitAttempts
    committed := committed = ascii "1"
    events := artifact.events.map restoreEvent }

theorem run_rebuildRecoveredSessionState {artifact : ParsedTaskEventLogArtifact}
    {submitted : TaskSession} {commitAttempts committed : Bytes}
    (hsubmit : (submitTask config session.task session.plan).run (handle kind) w =
      (.ok submitted, w))
    (hattempts : artifact.metadata.lookup (ascii "commit_attempts") = some commitAttempts)
    (hcommitted : artifact.metadata.lookup (ascii "committed") = some committed) :
    (rebuildRecoveredSessionState config session artifact).run (handle kind) w =
      (.ok (rebuiltSession kind w artifact submitted commitAttempts committed), w) := by
  rw [rebuildRecoveredSessionState, Program.run_bind, hsubmit]
  show ((replayEvents artifact.events submitted.txn) >>= _).run (handle kind) w = _
  rw [Program.run_bind, run_replayEvents, hattempts, hcommitted]
  rfl

theorem run_rebuildRecoveredSessionState_error {artifact : ParsedTaskEventLogArtifact}
    {what : Bytes}
    (hsubmit : (submitTask config session.task session.plan).run (handle kind) w =
      (.error what, w)) :
    (rebuildRecoveredSessionState config session artifact).run (handle kind) w =
      (.error what, w) := by
  rw [rebuildRecoveredSessionState, Program.run_bind, hsubmit]
  rfl

/-- Recovery succeeds exactly on a log that can be read, has what it needs, and names a
task and a plan that can be submitted. It leaves the world alone. -/
theorem run_recoverSessionFromLog (config : FallbackCommitRuntimeConfig)
    (path : Bytes) (w : World) :
    (∃ artifact submitted commitAttempts committed,
      parseTaskEventLogArtifact (w.files.lookup path) = some artifact ∧
      artifact.metadata.lookup (ascii "commit_attempts") = some commitAttempts ∧
      artifact.metadata.lookup (ascii "committed") = some committed ∧
      (buildTaskRecoveryPlan path artifact).task.validate = .ok () ∧
      (buildTaskRecoveryPlan path artifact).plan.validate = .ok () ∧
      IsSubmitted (buildTaskRecoveryPlan path artifact).task
        (buildTaskRecoveryPlan path artifact).plan submitted ∧
      (recoverSessionFromLog config path).run (handle kind) w = (.ok (applyRecoveredTerminalState {
        recoveryPlan := buildTaskRecoveryPlan path artifact
        session := rebuiltSession kind w artifact submitted commitAttempts committed }), w)) ∨
    (∃ what, (recoverSessionFromLog config path).run (handle kind) w = (.error what, w)) ∧
      ∀ artifact, parseTaskEventLogArtifact (w.files.lookup path) = some artifact →
        artifact.metadata.lookup (ascii "commit_attempts") = none ∨
          artifact.metadata.lookup (ascii "committed") = none ∨
        ¬((buildTaskRecoveryPlan path artifact).task.validate = .ok () ∧
          (buildTaskRecoveryPlan path artifact).plan.validate = .ok ()) := by
  rw [recoverSessionFromLog, Files.read_bind, Program.run_call, handle_readFile]
  cases hparse : parseTaskEventLogArtifact (w.files.lookup path) with
  | none => exact .inr ⟨⟨_, rfl⟩, nofun⟩
  | some artifact =>
    simp only [recoverTaskSessionFromArtifact]
    cases hattempts : artifact.metadata.lookup (ascii "commit_attempts") with
    | none =>
      refine .inr ⟨⟨_, rfl⟩, ?_⟩
      rintro _ ⟨⟩
      exact .inl hattempts
    | some commitAttempts =>
      cases hcommitted : artifact.metadata.lookup (ascii "committed") with
      | none =>
        refine .inr ⟨⟨_, rfl⟩, ?_⟩
        rintro _ ⟨⟩
        exact .inr (.inl hcommitted)
      | some committed =>
        rcases run_submitTask config (buildTaskRecoveryPlan path artifact).task
          (buildTaskRecoveryPlan path artifact).plan w
          with ⟨htask, hplan, submitted, hrun, hsubmitted⟩ | ⟨hinvalid, what, hrun⟩
        · refine .inl ⟨artifact, submitted, commitAttempts, committed, rfl, hattempts, hcommitted,
            htask, hplan, hsubmitted, ?_⟩
          rw [Program.run_bind, run_rebuildRecoveredSessionState hrun hattempts hcommitted]
          rfl
        · refine .inr ⟨⟨what, ?_⟩, ?_⟩
          · rw [Program.run_bind, run_rebuildRecoveredSessionState_error hrun]
            rfl
          · rintro _ ⟨⟩
            exact .inr (.inr hinvalid)

/-- What recovery from an artifact gives: the branches planned anew, with the events played. -/
structure Recovers (kind : StoreKind) (w : World) (path : Bytes)
    (artifact : ParsedTaskEventLogArtifact) (recovered : RecoveredTaskSession) : Prop where
  recoveryPlan : recovered.recoveryPlan = buildTaskRecoveryPlan path artifact
  taskId : recovered.session.task.taskId = recovered.recoveryPlan.task.taskId
  events : recovered.session.events = artifact.events.map restoreEvent
  branches : ∃ (begun : AgentTxnContext) (status : BranchContext → BranchStatus),
    begun.branches = (recovered.recoveryPlan.plan.branchPlans.map fun branchPlan =>
      { branchId := branchPlan.branchId }) ∧
    recovered.session.txn.branches =
      (artifact.events.foldl (fun txn event => ((replayEvent txn event).run (handle kind) w).1)
        begun).branches.map
        fun branch => { branch with status := status branch }

theorem recovers_rebuiltSession {artifact : ParsedTaskEventLogArtifact} {submitted : TaskSession}
    (hsubmitted : IsSubmitted (buildTaskRecoveryPlan path artifact).task
      (buildTaskRecoveryPlan path artifact).plan submitted)
    (commitAttempts committed : Bytes) :
    Recovers kind w path artifact (applyRecoveredTerminalState {
      recoveryPlan := buildTaskRecoveryPlan path artifact
      session := rebuiltSession kind w artifact submitted commitAttempts committed }) := by
  have htask : submitted.task.taskId = (buildTaskRecoveryPlan path artifact).task.taskId := by
    rw [hsubmitted.task]
  obtain ⟨status, phase, branchStatus, hended⟩ := exists_withStatuses {
    recoveryPlan := buildTaskRecoveryPlan path artifact
    session := rebuiltSession kind w artifact submitted commitAttempts committed }
  rw [hended]
  exact ⟨rfl, htask, rfl, submitted.txn, branchStatus, hsubmitted.branches, rfl⟩

/-- A written log is accepted if it names a task and plans branches that can be submitted. -/
theorem run_recoverSessionFromLog_of_holdsLog (config : FallbackCommitRuntimeConfig)
    (hlog : HoldsLog w path session) (htask : session.task.taskId ≠ [])
    (hplan : ∀ metadata,
      (buildTaskRecoveryPlan path (writtenArtifact session metadata)).plan.validate = .ok ()) :
    ∃ metadata submitted, UnorderedMap.Iterates session.task.metadata metadata ∧
      IsSubmitted (buildTaskRecoveryPlan path (writtenArtifact session metadata)).task
        (buildTaskRecoveryPlan path (writtenArtifact session metadata)).plan submitted ∧
      (recoverSessionFromLog config path).run (handle kind) w = (.ok (applyRecoveredTerminalState {
        recoveryPlan := buildTaskRecoveryPlan path (writtenArtifact session metadata)
        session := rebuiltSession kind w (writtenArtifact session metadata) submitted
          (decimal session.commitAttempts.toNat)
          (if session.committed then ascii "1" else ascii "0") }), w) := by
  obtain ⟨metadata, hmetadata, hfile⟩ := hlog
  have hparse : parseTaskEventLogArtifact (w.files.lookup path) =
      some (writtenArtifact session metadata) := by
    rw [hfile, parseTaskEventLogArtifact_text]
  have hisPlan := isRecoveryPlan_buildTaskRecoveryPlan path (writtenArtifact session metadata)
  have htaskId : (buildTaskRecoveryPlan path (writtenArtifact session metadata)).task.taskId =
      session.task.taskId := by
    rw [hisPlan.taskId, metadataValue_taskId]
  have hvalidate : (buildTaskRecoveryPlan path (writtenArtifact session metadata)).task.validate =
      .ok () := by
    rw [TaskContext.validate, htaskId, if_neg htask, if_neg hisPlan.objective]
  rcases @run_recoverSessionFromLog kind config path w with
    ⟨artifact, submitted, commitAttempts, committed, hparse', hattempts, hcommitted, -, -,
      hsubmitted, hrun⟩ | ⟨-, hrefused⟩
  · rw [hparse] at hparse'
    cases hparse'
    rw [lookup_commitAttempts] at hattempts
    rw [lookup_committed] at hcommitted
    cases hattempts
    cases hcommitted
    exact ⟨metadata, submitted, hmetadata, hsubmitted, hrun⟩
  · rcases hrefused _ hparse with h | h | h
    · rw [lookup_commitAttempts] at h
      cases h
    · rw [lookup_committed] at h
      cases h
    · exact absurd ⟨hvalidate, hplan metadata⟩ h

theorem recovers_of_holdsLog (config : FallbackCommitRuntimeConfig) (hlog : HoldsLog w path session)
    (htask : session.task.taskId ≠ [])
    (hplan : ∀ metadata,
      (buildTaskRecoveryPlan path (writtenArtifact session metadata)).plan.validate = .ok ()) :
    ∃ metadata recovered, (recoverSessionFromLog config path).run (handle kind) w =
      (.ok recovered, w) ∧
      Recovers kind w path (writtenArtifact session metadata) recovered := by
  obtain ⟨metadata, submitted, -, hsubmitted, hrun⟩ :=
    run_recoverSessionFromLog_of_holdsLog config hlog htask hplan
  exact ⟨metadata, _, hrun, recovers_rebuiltSession hsubmitted _ _⟩

/-! ### Sessions in work -/

/-- A branch plan as the log keeps it. -/
def BranchPlan.asLogged (branchPlan : BranchPlan) : BranchPlan :=
  { branchPlan with
    rationale := ascii "recovered branch"
    initialPriority := .ofInt64 branchPlan.initialPriority.toInt64 }

/-- What makes the log of a session one that recovery accepts. -/
structure Recoverable (session : TaskSession) : Prop where
  taskId : session.task.taskId ≠ []
  valid : session.plan.validate = .ok ()
  logged : (session.events.map TaskEvent.parsed).filterMap loggedBranchPlan =
    session.plan.branchPlans.map BranchPlan.asLogged

/-- What holds of a submitted session as long as work on it goes on. -/
structure InWork (session : TaskSession) : Prop where
  taskId : session.task.taskId ≠ []
  phase : session.task.phase = .running
  committed : session.committed = false
  valid : session.plan.validate = .ok ()
  branchIds : session.txn.branches.map (·.branchId) = session.plan.branchPlans.map (·.branchId)
  logged : (session.events.map TaskEvent.parsed).filterMap loggedBranchPlan =
    session.plan.branchPlans.map BranchPlan.asLogged
  types : ∀ event ∈ session.events, event.type = .submitTask ∨ event.type = .createBranch ∨
    event.type.ofWork = true

theorem validateBranches_map_asLogged (branchPlans : List BranchPlan) (branchIds : List Bytes) :
    ExecutionPlan.validateBranches (branchPlans.map BranchPlan.asLogged) branchIds =
      ExecutionPlan.validateBranches branchPlans branchIds := by
  induction branchPlans generalizing branchIds with
  | nil => rfl
  | cons branchPlan branchPlans ih =>
    simp only [List.map_cons, ExecutionPlan.validateBranches, ih]
    rfl

/-- The loop over the branch plans logs each of them once. -/
theorem exists_created (branchPlans : List BranchPlan) (session : TaskSession) :
    ∃ created, (branchPlans.foldl TaskSession.createBranch session).events =
      session.events ++ created ∧
      (created.map TaskEvent.parsed).filterMap loggedBranchPlan =
        branchPlans.map BranchPlan.asLogged ∧
      ∀ event ∈ created, event.type = .createBranch := by
  induction branchPlans generalizing session with
  | nil => exact ⟨[], (List.append_nil _).symm, rfl, fun _ h => absurd h List.not_mem_nil⟩
  | cons branchPlan branchPlans ih =>
    obtain ⟨created, hevents, hlogged, htypes⟩ := ih (session.createBranch branchPlan)
    refine ⟨{ sequenceNumber := UInt64.ofNat session.events.length, type := .createBranch,
              branchId := branchPlan.branchId, detail := branchPlan.candidateId,
              numericValue := branchPlan.initialPriority.toInt64 } :: created, ?_, ?_, ?_⟩
    · rw [List.foldl_cons, hevents, ← List.singleton_append, ← List.append_assoc]
      rfl
    · have hcreated : loggedBranchPlan (TaskEvent.parsed {
          sequenceNumber := UInt64.ofNat session.events.length
          type := .createBranch
          branchId := branchPlan.branchId
          detail := branchPlan.candidateId
          numericValue := branchPlan.initialPriority.toInt64 }) = some branchPlan.asLogged := rfl
      rw [List.map_cons, List.filterMap_cons_some hcreated, hlogged]
      rfl
    · exact List.forall_mem_cons.2 ⟨rfl, htypes⟩

theorem taskId_of_validate {task : TaskContext} (h : task.validate = .ok ()) :
    task.taskId ≠ [] := by
  intro hnil
  rw [TaskContext.validate, if_pos hnil] at h
  cases h

theorem returns_inWork (config : FallbackCommitRuntimeConfig)
    (task : TaskContext) (plan : ExecutionPlan) :
    (submitTask config task plan).Returns fun r => ∀ session, r = .ok session → InWork session := by
  refine (returns_isSubmitted config task plan).mono fun r hr session hsession => ?_
  obtain ⟨htask, hplan, hsubmitted⟩ := hr session hsession
  obtain ⟨created, hevents, hlogged, htypes⟩ := exists_created plan.branchPlans
    (TaskSession.recordEvent {} .submitTask [] [] task.objective 0)
  rw [← hsubmitted.events] at hevents
  refine ⟨?_, ?_, hsubmitted.committed, ?_, ?_, ?_, ?_⟩
  · rw [hsubmitted.task]
    exact taskId_of_validate htask
  · rw [hsubmitted.task]
  · rw [hsubmitted.plan]
    exact hplan
  · rw [hsubmitted.branches, hsubmitted.plan, List.map_map]
    rfl
  · rw [hevents, List.map_append, List.filterMap_append, hlogged, hsubmitted.plan]
    rfl
  · intro event hevent
    rw [hevents, List.mem_append] at hevent
    rcases hevent with hfirst | hcreated
    · exact .inl (by rw [List.mem_singleton.1 hfirst])
    · exact .inr (.inl (htypes event hcreated))

theorem inWork_of_submitTask {task : TaskContext} {plan : ExecutionPlan}
    (h : ((submitTask config task plan).run (handle kind) w).1 = .ok session) : InWork session :=
  (returns_inWork config task plan).interfered (Program.interfered_run _ w) session h

/-- An event of work creates no branch. -/
theorem loggedBranchPlan_of_work {event : TaskEvent} (h : event.type.ofWork = true) :
    loggedBranchPlan event.parsed = none := by
  have hname : taskEventTypeName event.type ≠ ascii "CREATE_BRANCH" := by
    cases htype : event.type <;> rw [htype] at h <;> first | (cases h; done) | decide
  rw [loggedBranchPlan, if_neg]
  exact hname

theorem InWork.continues (h : InWork session) (hcontinues : Continues session session') :
    InWork session' := by
  obtain ⟨recorded, hevents, hwork⟩ := hcontinues.events
  refine ⟨?_, ?_, hcontinues.committed.trans h.committed, ?_, ?_, ?_, ?_⟩
  · rw [hcontinues.task]
    exact h.taskId
  · rw [hcontinues.task]
    exact h.phase
  · rw [hcontinues.plan]
    exact h.valid
  · rw [hcontinues.branchIds, hcontinues.plan]
    exact h.branchIds
  · have hnone : (recorded.map TaskEvent.parsed).filterMap loggedBranchPlan = [] := by
      rw [List.filterMap_map, List.filterMap_eq_nil_iff]
      exact fun event hevent => loggedBranchPlan_of_work (hwork event hevent)
    rw [hevents, List.map_append, List.filterMap_append, hnone, List.append_nil, hcontinues.plan]
    exact h.logged
  · intro event hevent
    rw [hevents, List.mem_append] at hevent
    rcases hevent with hold | hnew
    · exact h.types event hold
    · exact .inr (.inr (hwork event hnew))

theorem WorkedOn.inWork (h : WorkedOn kind config Allowed session) : InWork session := by
  obtain ⟨task, plan, w, submitted, hsubmit, hrun⟩ := h
  exact (inWork_of_submitTask hsubmit).continues (continues_of_work hrun)

theorem InWork.recoverable (h : InWork session) :
    Recoverable session := ⟨h.taskId, h.valid, h.logged⟩

/-- The log plans the branches of the session. -/
theorem Recoverable.branchPlans (h : Recoverable session) (path : Bytes)
    (metadata : List (Bytes × Bytes)) :
    (buildTaskRecoveryPlan path (writtenArtifact session metadata)).plan.branchPlans =
      session.plan.branchPlans.map BranchPlan.asLogged := by
  have hne : session.plan.branchPlans.map BranchPlan.asLogged ≠ [] := by
    rw [Ne, List.map_eq_nil_iff]
    exact (ExecutionPlan.validate_ok h.valid).nonempty
  rw [(isRecoveryPlan_buildTaskRecoveryPlan path (writtenArtifact session metadata)).logged
    (h.logged ▸ hne)]
  exact h.logged

theorem Recoverable.validate (h : Recoverable session) (path : Bytes)
    (metadata : List (Bytes × Bytes)) :
    (buildTaskRecoveryPlan path (writtenArtifact session metadata)).plan.validate = .ok () := by
  have hvalid := h.valid
  rw [ExecutionPlan.validate, h.branchPlans, validateBranches_map_asLogged]
  rw [ExecutionPlan.validate] at hvalid
  simpa only [List.map_eq_nil_iff] using hvalid

theorem InWork.branchPlans (h : InWork session) (path : Bytes) (metadata : List (Bytes × Bytes)) :
    (buildTaskRecoveryPlan path (writtenArtifact session metadata)).plan.branchPlans =
      session.plan.branchPlans.map BranchPlan.asLogged := h.recoverable.branchPlans path metadata

theorem InWork.recovers (h : InWork session) (config : FallbackCommitRuntimeConfig)
    (hlog : HoldsLog w path session) :
    ∃ metadata recovered, (recoverSessionFromLog config path).run (handle kind) w =
      (.ok recovered, w) ∧
      Recovers kind w path (writtenArtifact session metadata) recovered :=
  recovers_of_holdsLog config hlog h.taskId (h.recoverable.validate path)

/-! ### What is rebuilt -/

/-- Playing the events of a submission does nothing. -/
theorem replay_of_submission {submitted : TaskSession}
    (h : ∀ event ∈ submitted.events, event.type = .submitTask ∨ event.type = .createBranch)
    (txn : AgentTxnContext) :
    (taskJournal kind w).replay txn submitted = txn := by
  have hplay : ∀ events : List TaskEvent,
    (∀ event ∈ events, event.type = .submitTask ∨ event.type = .createBranch) →
      events.foldl (taskJournal kind w).play txn = txn := by
    intro events hevents
    induction events with
    | nil => rfl
    | cons event events ih =>
      rw [List.forall_mem_cons] at hevents
      have hevent : (taskJournal kind w).play txn event = txn := by
        show ((replayEvent txn event.parsed).run (handle kind) w).1 = txn
        rw [replayEvent_parsed]
        rcases hevents.1 with htype | htype <;> rw [htype] <;> rfl
      rw [List.foldl_cons, hevent]
      exact ih hevents.2
  exact hplay submitted.events h

theorem types_of_submitTask {task : TaskContext} {plan : ExecutionPlan}
    (h : ((submitTask config task plan).run (handle kind) w).1 = .ok session) :
    ∀ event ∈ session.events, event.type = .submitTask ∨ event.type = .createBranch := by
  obtain ⟨-, -, hsubmitted⟩ := isSubmitted_of_submitTask h
  obtain ⟨created, hevents, -, htypes⟩ := exists_created plan.branchPlans
    (TaskSession.recordEvent {} .submitTask [] [] task.objective 0)
  rw [hsubmitted.events, hevents]
  intro event hevent
  rcases List.mem_append.1 hevent with hfirst | hcreated
  · exact .inl (by rw [List.mem_singleton.1 hfirst])
  · exact .inr (htypes event hcreated)

/-- The branches of a session in work are mirrored by those rebuilt from its log. -/
theorem WorkedOn.mirrors_recovered (h : WorkedOn kind config Allowed session)
    (hallowed : ∀ op v, Allowed op v → op.Mirrored M w v) {metadata : List (Bytes × Bytes)}
    {recovered : RecoveredTaskSession}
    (hrecovers : Recovers kind w path (writtenArtifact session metadata) recovered) :
    MirrorsTxn M session.txn recovered.session.txn := by
  have hinWork := h.inWork
  obtain ⟨task, plan, v, submitted, hsubmit, hrun⟩ := h
  obtain ⟨begun, status, hbegun, hbranches⟩ := hrecovers.branches
  obtain ⟨-, -, hsubmitted⟩ := isSubmitted_of_submitTask hsubmit
  have hsame : submitted.txn.branches = begun.branches := by
    rw [hsubmitted.branches, hbegun, hrecovers.recoveryPlan, hinWork.branchPlans,
      (continues_of_work hrun).plan, hsubmitted.plan, List.map_map]
    rfl
  have hfresh : MirrorsTxn M submitted.txn begun := by
    show List.Forall₂ (Mirrors M) submitted.txn.branches begun.branches
    rw [← hsame, hsubmitted.branches]
    refine List.forall₂_map_left_iff.2 (List.forall₂_map_right_iff.2 ?_)
    exact List.forall₂_same.2 fun branchPlan _ => mirrors_new M branchPlan.branchId
  rw [← replay_of_submission (types_of_submitTask hsubmit) begun] at hfresh
  have hreplayed := (keepsUp_of_work hrun hallowed).replay hfresh
  have hset := hreplayed.map_right fun b =>
      (⟨rfl, rfl, rfl, rfl, rfl⟩ : SameWork b { b with status := status b })
  show List.Forall₂ (Mirrors M) session.txn.branches recovered.session.txn.branches
  rw [hbranches]
  show List.Forall₂ (Mirrors M) session.txn.branches
    (((session.events.map TaskEvent.parsed).foldl _ begun).branches.map _)
  rw [List.foldl_map]
  exact hset

/-- Of the writes only the types and payloads are mirrored, whatever the stores were. -/
def writesAlone : Mirroring := .following (fun _ => False) False (fun _ _ => True) trivial

theorem WorkedOn.mirrors_writesAlone (h : WorkedOn kind config Allowed session)
    {metadata : List (Bytes × Bytes)} {recovered : RecoveredTaskSession}
    (hrecovers : Recovers kind w path (writtenArtifact session metadata) recovered) :
    MirrorsTxn writesAlone session.txn recovered.session.txn := by
  refine h.mirrors_recovered (fun op v _ => ?_) hrecovers
  cases op with
  | write branchId objectId objectType intent => exact ⟨False.elim, False.elim⟩
  | _ => trivial

/-! ### The store unchanged -/

/-- What a buffered entry says of its object, but for its type and what undoing needs. -/
def bufferedState (entry : ObjectCacheEntry) : Bytes × Bytes × UInt64 × Bytes × Bool × IntentType :=
  (entry.objectId, entry.baseValue, entry.baseVersion, entry.currentValue,
    entry.dirty, entry.intentType)

/-- The branches hold the same live intents, and the same of every object. -/
structure SameWrites (branch branch' : BranchContext) : Prop where
  branchId : branch.branchId = branch'.branchId
  entries : branch.writeBuffer.orderedEntries.map bufferedState =
    branch'.writeBuffer.orderedEntries.map bufferedState
  intents : branch.intentLog.entries.map
    (fun intent => (intent.objectId, intent.intentType, intent.payload)) =
    branch'.intentLog.entries.map fun intent => (intent.objectId, intent.intentType, intent.payload)

theorem sameWrites_of_mirrors {branch branch' : BranchContext} (h : Mirrors M branch branch')
    (hbase : ∀ k, M.sameBase k) (hnamed : M.named) : SameWrites branch branch' := by
  obtain ⟨records, records', hwritten, hwritten', hrecords⟩ := h.records
  refine ⟨h.branchId, map_eq_of_forall₂ h.orderedEntries fun e e' he => ?_, ?_⟩
  · simp only [bufferedState, he.objectId, he.dirty, he.intentType, he.baseValue (hbase _),
      he.baseVersion (hbase _), he.currentValue (hbase _)]
  · rw [hwritten.intents, hwritten'.intents, List.map_map, List.map_map]
    refine map_eq_of_forall₂ hrecords fun r r' hr => ?_
    show (r.intent.objectId, r.intent.intentType, r.intent.payload) = _
    rw [hr.named hnamed, hr.entry.objectId, hr.intentType, hr.payload, ← hr.objectId]
    rfl

/-- The branches have written the same and can go back to the same savepoints. -/
structure SameWriteState (branch branch' : BranchContext) : Prop where
  branchId : branch.branchId = branch'.branchId
  entries : branch.writeBuffer.orderedEntries.map bufferedState =
    branch'.writeBuffer.orderedEntries.map bufferedState
  savepoints : branch.savepoints = branch'.savepoints
  intents : branch.intentLog.entries.map
    (fun intent => (intent.objectId, intent.intentType, intent.payload)) =
    branch'.intentLog.entries.map fun intent => (intent.objectId, intent.intentType, intent.payload)

/-- Everything of the write state is mirrored. -/
def wholeState : Mirroring := .following (fun _ => True) True (fun _ _ => True) trivial

theorem sameWriteState_of_mirrors {branch branch' : BranchContext}
    (h : Mirrors wholeState branch branch') :
    SameWriteState branch branch' := by
  have hwrites := sameWrites_of_mirrors h (fun _ => trivial) trivial
  exact ⟨h.branchId, hwrites.entries, h.savepoints, hwrites.intents⟩

/-- A write whose intent names the object it is written to; and any other operation. -/
def SessionOp.NamesObject : SessionOp → Prop
  | .write _ objectId _ intent => intent.objectId = objectId
  | _ => True

/-- With the store unchanged from the first operation on, recovery from the log of a
session rebuilds the write state of all its branches. -/
theorem recoverSessionFromLog_rebuilds (kind : StoreKind)
    (config config' : FallbackCommitRuntimeConfig) (w : World) (session : TaskSession)
    (hwork : WorkedOn kind config (fun op v => v.store = w.store ∧ op.NamesObject) session)
    (metadata : List (Bytes × Bytes))
    (hmetadata : UnorderedMap.Iterates session.task.metadata metadata) (path : Bytes) :
    ∃ recovered, ((writeTaskEventLogArtifact session metadata path >>= fun _ =>
        recoverSessionFromLog config' path).run (handle kind) w).1 = .ok recovered ∧
      List.Forall₂ SameWriteState session.txn.branches recovered.session.txn.branches := by
  have hlog := holdsLog_writeTaskEventLogArtifact hmetadata kind path w
  obtain ⟨metadata', recovered, hrun, hrecovers⟩ :=
    @InWork.recovers kind _ _ _ hwork.inWork config' hlog
  refine ⟨recovered, ?_, ?_⟩
  · rw [Program.run_bind, hrun]
  · refine (hwork.mirrors_recovered (M := wholeState) ?_ hrecovers).imp fun b b' =>
      sameWriteState_of_mirrors
    rintro op v ⟨hstore, hnames⟩
    cases op with
    | write branchId objectId objectType intent =>
      exact ⟨fun _ => hnames, fun _ => congrArg (·.get objectId) hstore⟩
    | _ => trivial

def noteTask : TaskContext where
  taskId := ascii "1"
  objective := ascii "o"

def notePlan : ExecutionPlan where
  branchPlans := [{ branchId := ascii "b", candidateId := ascii "c", rationale := [] }]

/-- A task with one branch, submitted. -/
def noted : TaskSession :=
  match ((submitTask {} noteTask notePlan).run (handle .memory) {}).1 with
  | .ok session => session
  | .error _ => {}

/-- The intent to append a text to `k`. -/
def appendToK (text : Bytes) : WriteIntent where
  objectId := ascii "k"
  intentType := .append
  payload := text

/-- The task after it has appended `x` to `k`. -/
def notedAppend : TaskSession :=
  (((SessionOp.write (ascii "b") (ascii "k") .text (appendToK (ascii "x"))).perform {} noted).run
    (handle .memory) {}).1

/-- The world once the log of the session has been written. -/
def loggedIn (w : World) (session : TaskSession) : World :=
  ((writeTaskEventLogArtifact session [] (ascii "log")).run (handle .memory) w).2

def rivalPlan : ExecutionPlan where
  branchPlans := [{ branchId := ascii "a", candidateId := ascii "c", rationale := [] },
    { branchId := ascii "b", candidateId := ascii "c", rationale := [] }]

/-- A task with two branches, submitted. -/
def rivals : TaskSession :=
  match ((submitTask {} noteTask rivalPlan).run (handle .memory) {}).1 with
  | .ok session => session
  | .error _ => {}

/-- A world in which `k` holds a text. -/
def rivalWorld : World where
  store := MemoryKVStore.write {} (ascii "k") (ascii "abc")

/-- Both branches write, and the first one goes back to a savepoint. -/
def rivalOps : List SessionOp := [
  .read (ascii "a") (ascii "k"),
  .write (ascii "a") (ascii "k") .text (appendToK (ascii "x")),
  .savepoint (ascii "a") (ascii "s"),
  .write (ascii "b") (ascii "l") .generic
    { objectId := ascii "l", intentType := .overwrite, payload := ascii "y" },
  .write (ascii "a") (ascii "k") .text (appendToK (ascii "z")),
  .stageBranch (ascii "b") (.finite 1) [],
  .rollbackToSavepoint (ascii "a") (ascii "s")]

/-- The task after this. -/
def rivalsWorked : TaskSession :=
  rivalOps.foldl (fun session op => ((op.perform {} session).run (handle .memory) rivalWorld).1)
    rivals

theorem recoverSessionFromLog_rebuilds_rivalsWorked :
    ∃ recovered, ((writeTaskEventLogArtifact rivalsWorked [] (ascii "log") >>= fun _ =>
        recoverSessionFromLog {} (ascii "log")).run (handle .memory) rivalWorld).1 = .ok recovered ∧
      List.Forall₂ SameWriteState rivalsWorked.txn.branches recovered.session.txn.branches := by
  have hrivals : WorkedOn .memory {}
      (fun op v => v.store = rivalWorld.store ∧ op.NamesObject) rivals :=
    ⟨noteTask, rivalPlan, {}, rivals, rfl, .refl⟩
  have hworked := @WorkedOn.foldl .memory {} rivals _ rivalWorld hrivals rivalOps (by
    simp [rivalOps, SessionOp.works, SessionOp.NamesObject, appendToK])
  exact recoverSessionFromLog_rebuilds .memory {} {} rivalWorld rivalsWorked hworked []
    (List.Perm.refl _) (ascii "log")

end DataAgentSystem.Runtime
