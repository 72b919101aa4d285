import DataAgentSystem.Runtime.PerformedOperations
import DataAgentSystem.Runtime.RecoveredSession
import DataAgentSystem.Runtime.TaskContinuation

/-! The records a session keeps of its outcome: whether it has committed, the phase of
its task, the status of its transaction, and its events with the number of attempts.
Each operation brings them up to date together, and recovery rebuilds three of them
from the first, so they agree in every session that is ever reached. -/

namespace DataAgentSystem.Runtime

open Text Intent Cache Branch Storage Interaction AgentTxn

/-- The flag, the phase and the status tell of one outcome. -/
structure OutcomeAgrees (committed : Bool) (phase : TaskPhase) (status : TxnStatus) : Prop where
  committedPhase : committed = true ↔ phase = .committed
  committedStatus : committed = true ↔ status = .committed
  aborted : phase = .aborted ↔ status = .aborted

/-- The events are numbered, the first one is the submission, and the attempts are counted. -/
structure EventsAgree (events : List TaskEvent) (commitAttempts : UInt64) : Prop where
  numbered : ∀ i event, events[i]? = some event → event.sequenceNumber = UInt64.ofNat i
  begun : events.head?.map TaskEvent.type = some .submitTask
  attempts : commitAttempts = UInt64.ofNat (events.countP fun event => event.type = .commitAttempt)

structure RecordsAgree (session : TaskSession) : Prop where
  outcome : OutcomeAgrees session.committed session.task.phase session.txn.status
  events : EventsAgree session.events session.commitAttempts

/-- The sessions that submission, operations and rounds of recovery lead to, on whatever
stores and among whatever other writers; only the log that a round reads is left alone. -/
inductive SessionReached : TaskSession → Prop
  | submitted {config : FallbackCommitRuntimeConfig} {kind : StoreKind}
      {task : TaskContext} {plan : ExecutionPlan}
      {calls : List (Event Call World)} {session : TaskSession} :
      (submitTask config task plan).Interfered (handle kind) calls (.ok session) →
        SessionReached session
  | operated {session session' : TaskSession} : SessionReached session →
      OperationStep session session' → SessionReached session'
  | recovered {session : TaskSession} {config config' : FallbackCommitRuntimeConfig}
      {kind kind' : StoreKind} {path : Bytes}
      {building executing : List (Event Call World)} {execution : TaskRecoveryExecution}
      {out : Except Bytes Bool × TaskRecoveryExecution} : SessionReached session →
        (∀ e ∈ building, HoldsLog e.before path session) →
      (buildRecoveryExecutionFromLog config path).Interfered (handle kind)
        building (.ok execution) →
      (executeRecoveryExecution config' execution).Interfered (handle kind') executing out →
        SessionReached out.2.session

variable {config : FallbackCommitRuntimeConfig} {session session' : TaskSession}
  {events : List TaskEvent} {commitAttempts : UInt64}

/-! ### Operations -/

/-- One more event, which is counted if it is an attempt. -/
theorem EventsAgree.append (h : EventsAgree events commitAttempts) {event : TaskEvent}
    (hnumber : event.sequenceNumber = UInt64.ofNat events.length) :
    EventsAgree (events ++ [event]) (if event.type = .commitAttempt then commitAttempts + 1
      else commitAttempts) where
  numbered := by
    intro i e he
    rw [List.getElem?_append] at he
    split at he
    next => exact h.numbered i e he
    next hi =>
      rw [List.getElem?_singleton, Option.ite_none_right_eq_some, Option.some.injEq] at he
      obtain ⟨hzero, rfl⟩ := he
      obtain rfl : i = events.length := by omega
      exact hnumber
  begun := by
    have hbegun := h.begun
    cases events with
    | nil => cases hbegun
    | cons first rest => exact hbegun
  attempts := by
    rw [List.countP_append, List.countP_singleton, h.attempts]
    by_cases htype : event.type = .commitAttempt
    · simp only [htype, ↓reduceIte, decide_true, UInt64.ofNat_add]
      rfl
    · simp only [htype, ↓reduceIte, decide_false, Bool.false_eq_true, Nat.add_zero]

theorem EventsAgree.recordEvent (h : EventsAgree session.events session.commitAttempts)
    {type : TaskEventType} (htype : type ≠ .commitAttempt) (branchId objectId detail : Bytes)
    (n : Int64) :
    EventsAgree (session.recordEvent type branchId objectId detail n).events
      session.commitAttempts := by
  let event : TaskEvent := {
    sequenceNumber := UInt64.ofNat session.events.length
    type, branchId, objectId, detail
    numericValue := n }
  have happend := @EventsAgree.append _ _ h event rfl
  rwa [if_neg htype] at happend

theorem EventsAgree.attempt (h : EventsAgree session.events session.commitAttempts) :
    EventsAgree session.attempt.events session.attempt.commitAttempts := by
  let event : TaskEvent := {
    sequenceNumber := UInt64.ofNat session.events.length
    type := .commitAttempt
    detail := ascii "commit_attempt"
    numericValue := (session.commitAttempts + 1).toInt64 }
  exact @EventsAgree.append _ _ h event rfl

theorem recordsAgree_conclude {txn : AgentTxnContext} {committed : Bool}
    (h : EventsAgree session.events session.commitAttempts)
    (hstatus : txn.status = AgentTxnManager.statusAfter session.txn (.ok committed)) :
    RecordsAgree (({ session.attempt with txn } : TaskSession).conclude committed) := by
  have hattempt := @EventsAgree.attempt _ h
  cases committed with
  | true =>
    have hcommitted : txn.status = .committed := hstatus
    have hended := @EventsAgree.recordEvent
      ({ session.attempt with txn } : TaskSession).markCommitted hattempt .commitTask
      (by decide) txn.winnerBranchId [] txn.validationResult.reason 0
    refine ⟨?_, hended⟩
    show OutcomeAgrees true .committed txn.status
    rw [hcommitted]
    exact ⟨by decide, by decide, by decide⟩
  | false =>
    have haborted : txn.status = .aborted := hstatus
    have hended := @EventsAgree.recordEvent ({ session.attempt with txn } : TaskSession).markAborted
      hattempt .abortTask
      (by decide) txn.winnerBranchId [] txn.validationResult.reason 0
    refine ⟨?_, hended⟩
    show OutcomeAgrees false .aborted txn.status
    rw [haborted]
    exact ⟨by decide, by decide, by decide⟩

theorem TaskEventType.ne_of_ofWork {type : TaskEventType} (h : type.ofWork = true) :
    type ≠ .commitAttempt := by
  rintro rfl
  cases h

/-- An operation keeps the records in agreement. -/
theorem Performed.recordsAgree (h : Performed session session') (hagree : RecordsAgree session) :
    RecordsAgree session' := by
  obtain ⟨houtcome, hevents⟩ := hagree
  cases h with
  | unrecorded hsame => exact ⟨hsame.status ▸ houtcome, hevents⟩
  | @recorded txn type branchId objectId detail n hsame hwork =>
    exact ⟨hsame.status ▸ houtcome,
      @EventsAgree.recordEvent ({ session with txn } : TaskSession) hevents _
      (TaskEventType.ne_of_ofWork hwork) branchId objectId detail n⟩
  | thrown hstatus => exact ⟨hstatus ▸ houtcome, hevents.attempt⟩
  | concluded hstatus => exact recordsAgree_conclude hevents hstatus
  | noted artifactPath maintenance hstatus =>
    obtain ⟨hconcluded, hrecorded⟩ := recordsAgree_conclude hevents hstatus
    exact ⟨hconcluded, hrecorded⟩
  | aborted =>
    have hended := @EventsAgree.recordEvent
        ({ session with txn := session.txn.abortTask } : TaskSession).markAborted hevents
      .abortTask (by decide) [] [] (ascii "abort_requested") 0
    refine ⟨?_, hended⟩
    show OutcomeAgrees false .aborted .aborted
    exact ⟨by decide, by decide, by decide⟩

/-! ### Submission -/

/-- A new session, before it is marked as running. -/
structure Begins (session : TaskSession) : Prop where
  committed : session.committed = false
  status : session.txn.status = .running
  events : EventsAgree session.events session.commitAttempts

theorem Begins.createBranches (h : Begins session) (branchPlans : List BranchPlan) :
    Begins (branchPlans.foldl TaskSession.createBranch session) := by
  induction branchPlans generalizing session with
  | nil => exact h
  | cons branchPlan branchPlans ih =>
    have hevents := @EventsAgree.recordEvent
        { session with txn := AgentTxnManager.createBranch session.txn branchPlan.branchId }
      h.events .createBranch (by decide) branchPlan.branchId [] branchPlan.candidateId
        branchPlan.initialPriority.toInt64
    exact ih ⟨h.committed, h.status, hevents⟩

theorem recordsAgree_submitTask (config : FallbackCommitRuntimeConfig)
    (task : TaskContext) (plan : ExecutionPlan) :
    (submitTask config task plan).Returns fun r => ∀ session, r = .ok session →
      RecordsAgree session ∧ session.txn.status = .running := by
  unfold submitTask
  cases task.validate with
  | error what => exact nofun
  | ok _ =>
    cases plan.validate with
    | error what => exact nofun
    | ok _ =>
      refine (returns_configureFallbackCommit config _).bind ?_
      rintro txn ⟨artifactPath, hbegun⟩ _ ⟨⟩
      have hstatus : txn.status = .running := by rw [hbegun]; rfl
      have hbegins : Begins
          (TaskSession.recordEvent { task, plan, txn } .submitTask [] [] task.objective 0) := by
        refine ⟨rfl, hstatus, ?_, rfl, rfl⟩
        intro i event hevent
        have hfirst := (List.getElem?_singleton).symm.trans hevent
        rw [Option.ite_none_right_eq_some, Option.some.injEq] at hfirst
        obtain ⟨rfl, rfl⟩ := hfirst
        rfl
      obtain ⟨hcommitted, hrunning, hevents⟩ := hbegins.createBranches plan.branchPlans
      refine ⟨⟨?_, hevents⟩, hrunning⟩
      show OutcomeAgrees (plan.branchPlans.foldl TaskSession.createBranch _).committed .running
        (plan.branchPlans.foldl TaskSession.createBranch _).txn.status
      rw [hcommitted, hrunning]
      exact ⟨by decide, by decide, by decide⟩

/-! ### Recovery -/

/-- The rebuilt session has the events of the other one, its attempts and its flag. -/
structure Rebuilds (session rebuilt : TaskSession) : Prop where
  events : rebuilt.events = session.events
  commitAttempts : rebuilt.commitAttempts = session.commitAttempts
  committed : rebuilt.committed = session.committed

/-- The task is submitted anew, so it has an id. -/
theorem returns_rebuildRecoveredSessionState (config : FallbackCommitRuntimeConfig)
    (session submitted : TaskSession) (metadata : List (Bytes × Bytes)) :
    (rebuildRecoveredSessionState config submitted (writtenArtifact session metadata)).Returns
      fun r =>
      ∀ rebuilt, r = .ok rebuilt → Rebuilds session rebuilt ∧ rebuilt.task.taskId ≠ [] := by
  refine (returns_isSubmitted config submitted.task submitted.plan).bind
    fun resubmitted hresubmitted => ?_
  cases resubmitted with
  | error what => exact nofun
  | ok resubmitted =>
    obtain ⟨htask, -, hsubmitted⟩ := hresubmitted resubmitted rfl
    refine (Program.returns_true _).bind fun txn _ => ?_
    rw [lookup_commitAttempts, lookup_committed]
    rintro _ ⟨⟩
    refine ⟨⟨?_, strtoull_decimal session.commitAttempts, ?_⟩, ?_⟩
    · show (session.events.map TaskEvent.parsed).map restoreEvent = session.events
      rw [List.map_map]
      exact List.map_id'' TaskEvent.restoreEvent_parsed session.events
    · cases session.committed <;> rfl
    · show resubmitted.task.taskId ≠ []
      rw [hsubmitted.task]
      exact taskId_of_validate htask

/-- What is built from the log of a session, among other writers, is rebuilt from it. -/
theorem exists_rebuilt_of_build {path : Bytes} {calls : List (Event Call World)} {kind : StoreKind}
    {execution : TaskRecoveryExecution} (hlog : ∀ e ∈ calls, HoldsLog e.before path session)
    (h : (buildRecoveryExecutionFromLog config path).Interfered
      (handle kind) calls (.ok execution)) :
    ∃ metadata recovered,
      execution = buildTaskRecoveryExecution (applyRecoveredTerminalState recovered) ∧
      recovered.recoveryPlan = buildTaskRecoveryPlan path (writtenArtifact session metadata) ∧
      Rebuilds session recovered.session ∧ recovered.session.task.taskId ≠ [] := by
  obtain ⟨recovering, r, rest, rfl, hrecover, h⟩ := Program.interfered_bind.1 h
  cases r with
  | error what =>
    obtain ⟨-, heq⟩ := Program.interfered_ret.1 h
    cases heq
  | ok recovered =>
    obtain ⟨-, heq⟩ := Program.interfered_ret.1 h
    obtain rfl : buildTaskRecoveryExecution recovered = execution := Except.ok.inj heq
    rw [recoverSessionFromLog, Files.read_bind, Program.interfered_call] at hrecover
    obtain ⟨w, rest', rfl, hrecover⟩ := hrecover
    obtain ⟨metadata, -, hfile⟩ := hlog ⟨.readFile path, w⟩ (by simp)
    have hparse : parseTaskEventLogArtifact (handle kind (.readFile path) w).1 =
        some (writtenArtifact session metadata) := by
      show parseTaskEventLogArtifact (w.files.lookup path) = _
      rw [hfile, parseTaskEventLogArtifact_text]
    rw [hparse] at hrecover
    simp only [recoverTaskSessionFromArtifact, lookup_commitAttempts, lookup_committed] at hrecover
    obtain ⟨rebuilding, r, rest'', rfl, hrebuild, hrecover⟩ := Program.interfered_bind.1 hrecover
    have hrebuilds :=
      (returns_rebuildRecoveredSessionState config session _ metadata).interfered hrebuild
    cases r with
    | error what =>
      obtain ⟨-, heq⟩ := Program.interfered_ret.1 hrecover
      cases heq
    | ok rebuilt =>
      obtain ⟨-, heq⟩ := Program.interfered_ret.1 hrecover
      obtain rfl := Except.ok.inj heq
      exact ⟨metadata, _, rfl, rfl, hrebuilds rebuilt rfl⟩

/-- A resumption starts from a session that has not ended. -/
structure ExecutionAgrees (execution : TaskRecoveryExecution) : Prop where
  records : RecordsAgree execution.session
  resumes : execution.commandType = .resumeBranch ∨ execution.commandType = .resumeFromSavepoint →
    execution.session.committed = false ∧ execution.session.txn.status = .running

/-- What a decision to resume a branch says about the flag in the log. -/
theorem committed_of_resumes {path : Bytes} {metadata : List (Bytes × Bytes)}
    (h : (commandOf (recoverTaskSessionDecision path (writtenArtifact session metadata)).action).1 =
      .resumeBranch ∨
      (commandOf (recoverTaskSessionDecision path (writtenArtifact session metadata)).action).1 =
        .resumeFromSavepoint) :
    session.committed = false ∧
      (recoverTaskSessionDecision path (writtenArtifact session metadata)).action ≠
        .retryFromScratch := by
  constructor
  · by_contra hne
    have hcommitted : session.committed = true := Bool.of_not_eq_false hne
    have hflag : (writtenArtifact session metadata).metadataValue (ascii "committed") =
        ascii "1" := by
      rw [ParsedTaskEventLogArtifact.metadataValue, lookup_committed, hcommitted]
      rfl
    have haction : (recoverTaskSessionDecision path (writtenArtifact session metadata)).action =
        .skipCommitted := by
      simp only [recoverTaskSessionDecision, hflag, true_or, ↓reduceIte]
    rw [haction] at h
    rcases h with h | h <;> cases h
  · intro haction
    rw [haction] at h
    rcases h with h | h <;> cases h

theorem recordsAgree_applyRecoveredTerminalState {recovered : RecoveredTaskSession}
    (hrebuilds : Rebuilds session recovered.session) (hagree : RecordsAgree session) :
    RecordsAgree (applyRecoveredTerminalState recovered).session := by
  have hevents : EventsAgree recovered.session.events recovered.session.commitAttempts := by
    rw [hrebuilds.events, hrebuilds.commitAttempts]
    exact hagree.events
  unfold applyRecoveredTerminalState
  simp only
  split
  next hcommitted =>
    refine ⟨?_, hevents⟩
    show OutcomeAgrees recovered.session.committed .committed .committed
    rw [hcommitted]
    exact ⟨by decide, by decide, by decide⟩
  next hcommitted =>
    have hflag : recovered.session.committed = false := Bool.of_not_eq_true hcommitted
    split
    · refine ⟨?_, hevents⟩
      show OutcomeAgrees recovered.session.committed .aborted .aborted
      rw [hflag]
      exact ⟨by decide, by decide, by decide⟩
    · refine ⟨?_, hevents⟩
      show OutcomeAgrees recovered.session.committed .running .running
      rw [hflag]
      exact ⟨by decide, by decide, by decide⟩

theorem executionAgrees_buildTaskRecoveryExecution {recovered : RecoveredTaskSession} {path : Bytes}
    {metadata : List (Bytes × Bytes)} (hrebuilds : Rebuilds session recovered.session)
    (hagree : RecordsAgree session)
    (hdecision : recovered.recoveryPlan.decision = recoverTaskSessionDecision path
      (writtenArtifact session metadata)) :
    ExecutionAgrees (buildTaskRecoveryExecution (applyRecoveredTerminalState recovered)) := by
  obtain ⟨houtcome, hevents⟩ := recordsAgree_applyRecoveredTerminalState hrebuilds hagree
  refine ⟨⟨houtcome, hevents⟩, fun hresumes => ?_⟩
  have hcommand :
    (commandOf (recoverTaskSessionDecision path (writtenArtifact session metadata)).action).1 =
    .resumeBranch ∨
      (commandOf (recoverTaskSessionDecision path (writtenArtifact session metadata)).action).1 =
          .resumeFromSavepoint := by
    rw [← hdecision]
    exact hresumes
  obtain ⟨hcommitted, haction⟩ := committed_of_resumes hcommand
  have hflag : ¬recovered.session.committed = true := by
    rw [hrebuilds.committed, hcommitted]
    decide
  have hsession : (applyRecoveredTerminalState recovered).session =
      withStatuses recovered.session .running .running fun branch =>
        if branch.branchId = recovered.recoveryPlan.decision.resumeBranchId then .running
            else branch.status := by
    rw [applyRecoveredTerminalState, if_neg hflag, if_neg (hdecision ▸ haction)]
  constructor
  · show (applyRecoveredTerminalState recovered).session.committed = false
    rw [hsession]
    exact Bool.of_not_eq_true hflag
  · show (applyRecoveredTerminalState recovered).session.txn.status = .running
    rw [hsession]
    rfl

/-- What is built from the log of a session whose records agree can be executed. -/
theorem executionAgrees_of_build {path : Bytes} {calls : List (Event Call World)} {kind : StoreKind}
    {execution : TaskRecoveryExecution} (hlog : ∀ e ∈ calls, HoldsLog e.before path session)
    (hagree : RecordsAgree session)
    (h : (buildRecoveryExecutionFromLog config path).Interfered
      (handle kind) calls (.ok execution)) :
    ExecutionAgrees execution := by
  obtain ⟨metadata, recovered, rfl, hplan, hrebuilds, -⟩ := exists_rebuilt_of_build hlog h
  have hdecision : recovered.recoveryPlan.decision = recoverTaskSessionDecision path
      (writtenArtifact session metadata) := by
    rw [hplan]
    exact (isRecoveryPlan_buildTaskRecoveryPlan path (writtenArtifact session metadata)).decision
  exact executionAgrees_buildTaskRecoveryExecution hrebuilds hagree hdecision

/-- The execution of a command leaves records that agree, also where it throws or fails. -/
theorem ExecutionAgrees.kept {execution : TaskRecoveryExecution} (h : ExecutionAgrees execution)
    (config : FallbackCommitRuntimeConfig) : KeptByExecution config execution RecordsAgree := by
  obtain ⟨⟨houtcome, hevents⟩, hresumes⟩ := h
  have hnoted : ∀ status, RecordsAgree (execution.setStatus status).session :=
    fun _ => ⟨houtcome, hevents⟩
  refine ⟨⟨houtcome, hevents⟩, hnoted, ?_, fun hcommand branch txn status htxn _ => ?_, ?_⟩
  · refine (recordsAgree_submitTask config execution.freshTask execution.recoveryPlan.plan).mono
      fun r hfresh session hsession _ => ?_
    obtain ⟨⟨hstarted, hrecorded⟩, -⟩ := hfresh session hsession
    exact ⟨hstarted, hrecorded⟩
  · obtain ⟨hcommitted, hrunning⟩ := hresumes hcommand
    have hstatus : txn.status = .running := by
      rcases htxn with rfl | rfl
      · exact hrunning
      · rw [(AgentTxnContext.sameBesideBranches_rollbackToSavepoint
          execution.session.txn execution.targetBranchId
          execution.targetSavepointId).status, hrunning]
    refine ⟨?_, hevents⟩
    show OutcomeAgrees execution.session.committed .running txn.status
    rw [hcommitted, hstatus]
    exact ⟨by decide, by decide, by decide⟩
  · exact (returns_commitTask config _).mono fun out hperformed =>
      hperformed.recordsAgree (hnoted _)

/-! ### Runs -/

/-- In every session that is reached the records of its outcome agree. -/
theorem recordsAgree_of_reached (h : SessionReached session) : RecordsAgree session := by
  induction h with
  | submitted hsubmit => exact ((recordsAgree_submitTask _ _ _).interfered hsubmit _ rfl).1
  | operated _ hstep ih => exact hstep.performed.recordsAgree ih
  | recovered _ hlog hbuild hexecute ih =>
    exact ((executionAgrees_of_build hlog ih hbuild).kept _).returns.interfered hexecute

theorem reached_noted : SessionReached noted :=
  .submitted (Program.interfered_run (h := handle .memory) (submitTask {} noteTask notePlan) {})

/-- A new task, recovered from its log, resumed and committed. -/
theorem recordsAgree_of_reached_noted :
    ∃ execution,
      ((buildRecoveryExecutionFromLog {} (ascii "log")).run
        (handle .memory) (loggedIn {} noted)).1 =
        .ok execution ∧
      RecordsAgree ((SessionOp.commitTask.perform {}
        ((executeRecoveryExecution {} execution).run (handle .memory) {}).1.2.session).run
          (handle .memory) {}).1 := by
  have hlog : HoldsLog (loggedIn {} noted) (ascii "log") noted :=
    holdsLog_writeTaskEventLogArtifact (List.Perm.refl _) .memory (ascii "log") {}
  have hbuilding :=
      Program.interfered_run (h := handle .memory) (buildRecoveryExecutionFromLog {} (ascii "log"))
    (loggedIn {} noted)
  have htrace : (buildRecoveryExecutionFromLog {} (ascii "log")).trace
    (handle .memory) (loggedIn {} noted) =
      [⟨.readFile (ascii "log"), loggedIn {} noted⟩] := rfl
  obtain ⟨execution, hbuilt⟩ : ∃ execution,
    ((buildRecoveryExecutionFromLog {} (ascii "log")).run (handle .memory)
      (loggedIn {} noted)).1 = .ok execution := ⟨_, rfl⟩
  rw [htrace, hbuilt] at hbuilding
  have hresumed :=
    SessionReached.recovered reached_noted (List.forall_mem_singleton.2 hlog) hbuilding
    (Program.interfered_run (h := handle .memory) (executeRecoveryExecution {} execution) {})
  have hcommit := Program.interfered_run (h := handle .memory) (SessionOp.commitTask.perform {}
    ((executeRecoveryExecution {} execution).run (handle .memory) {}).1.2.session) {}
  exact ⟨execution, hbuilt,
    recordsAgree_of_reached (.operated hresumed ⟨{}, .memory, .commitTask, _, hcommit⟩)⟩

end DataAgentSystem.Runtime
