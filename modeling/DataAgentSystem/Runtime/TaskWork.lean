import DataAgentSystem.AgentTxn.MirroredBranch
import DataAgentSystem.Interaction.Journal
import DataAgentSystem.Runtime.CommitFinality
import DataAgentSystem.Runtime.TaskEventLog

/-! Work on a task: what is done with a session from its submission on, short of
committing or aborting it. The events of the session are a journal of that work;
playing them on a transaction that has just begun leaves branches that mirror
those of the session. -/

namespace DataAgentSystem.Runtime

open Text Intent Cache Branch Storage Interaction AgentTxn

/-- The operations that neither commit nor abort. -/
def SessionOp.works : SessionOp → Bool
  | .commitTask | .abortTask => false
  | _ => true

/-- One operation of such work, in a world of its own. -/
inductive WorkStep (kind : StoreKind) (config : FallbackCommitRuntimeConfig)
    (Allowed : SessionOp → World → Prop) :
    TaskSession → TaskSession → Prop
  | perform {session : TaskSession} {op : SessionOp} {w : World} : op.works = true → Allowed op w →
      WorkStep kind config Allowed session ((op.perform config session).run (handle kind) w).1

/-- A session that has been submitted and then worked on. -/
def WorkedOn (kind : StoreKind) (config : FallbackCommitRuntimeConfig)
    (Allowed : SessionOp → World → Prop) (session : TaskSession) : Prop :=
  ∃ task plan w submitted, ((submitTask config task plan).run (handle kind) w).1 = .ok submitted ∧
    Relation.ReflTransGen (WorkStep kind config Allowed) submitted session

variable {kind : StoreKind} {config : FallbackCommitRuntimeConfig} {session session' : TaskSession}
  {Allowed : SessionOp → World → Prop} {M : Mirroring} {w w' : World}

/-- Work goes on with any operations of work. -/
theorem WorkedOn.foldl (h : WorkedOn kind config Allowed session) {ops : List SessionOp}
    (hops : ∀ op ∈ ops, op.works = true ∧ Allowed op w) :
    WorkedOn kind config Allowed
      (ops.foldl (fun session op => ((op.perform config session).run (handle kind) w).1)
        session) := by
  induction ops generalizing session with
  | nil => exact h
  | cons op ops ih =>
    rw [List.forall_mem_cons] at hops
    obtain ⟨task, plan, v, submitted, hsubmit, hworked⟩ := h
    exact ih ⟨task, plan, v, submitted, hsubmit, hworked.tail (.perform hops.1.1 hops.1.2)⟩ hops.2

/-! ### Submission -/

/-- What a task that has just been submitted looks like. -/
structure IsSubmitted (given : TaskContext) (planned : ExecutionPlan)
    (session : TaskSession) : Prop where
  task : session.task = { given with phase := .running }
  plan : session.plan = planned
  branches : session.txn.branches = planned.branchPlans.map fun branchPlan =>
    { branchId := branchPlan.branchId }
  committed : session.committed = false
  events : session.events = (planned.branchPlans.foldl TaskSession.createBranch
    (TaskSession.recordEvent {} .submitTask [] [] given.objective 0)).events

theorem run_configureFallbackCommit (config : FallbackCommitRuntimeConfig)
    (txn : AgentTxnContext) (w : World) :
    ∃ txn', (configureFallbackCommit config txn).run (handle kind) w = (txn', w) := by
  unfold configureFallbackCommit
  split
  · exact ⟨txn, rfl⟩
  · cases kind with
    | memory => exact ⟨txn, rfl⟩
    | nonBatchMemory => exact ⟨_, rfl⟩

/-- What the loop over the branch plans does to a session. -/
theorem foldl_createBranch (branchPlans : List BranchPlan) (session : TaskSession) :
    (branchPlans.foldl TaskSession.createBranch session).task = session.task ∧
    (branchPlans.foldl TaskSession.createBranch session).plan = session.plan ∧
    (branchPlans.foldl TaskSession.createBranch session).committed = session.committed ∧
    (branchPlans.foldl TaskSession.createBranch session).txn.branches =
      session.txn.branches ++ branchPlans.map fun branchPlan =>
        { branchId := branchPlan.branchId } := by
  induction branchPlans generalizing session with
  | nil => exact ⟨rfl, rfl, rfl, (List.append_nil _).symm⟩
  | cons branchPlan branchPlans ih =>
    obtain ⟨htask, hplan, hcommitted, hbranches⟩ := ih (session.createBranch branchPlan)
    refine ⟨htask, hplan, hcommitted, hbranches.trans ?_⟩
    rw [List.map_cons, ← List.singleton_append, ← List.append_assoc]
    rfl

/-- The events of the loop depend on those recorded before it only. -/
theorem events_foldl_createBranch (branchPlans : List BranchPlan) {s s' : TaskSession}
    (h : s.events = s'.events) :
    (branchPlans.foldl TaskSession.createBranch s).events =
      (branchPlans.foldl TaskSession.createBranch s').events := by
  induction branchPlans generalizing s s' with
  | nil => exact h
  | cons branchPlan branchPlans ih =>
    apply ih
    simp only [TaskSession.createBranch, TaskSession.recordEvent, h]

/-- A submission that returns has checked the task and the plan, whatever its call answers. -/
theorem returns_isSubmitted (config : FallbackCommitRuntimeConfig)
    (task : TaskContext) (plan : ExecutionPlan) :
    (submitTask config task plan).Returns fun r => ∀ session, r = .ok session →
      task.validate = .ok () ∧ plan.validate = .ok () ∧ IsSubmitted task plan session := by
  unfold submitTask
  cases htask : task.validate with
  | error what => exact nofun
  | ok _ =>
    cases hplan : plan.validate with
    | error what => exact nofun
    | ok _ =>
      refine (returns_configureFallbackCommit config _).bind ?_
      rintro txn ⟨artifactPath, hbegun⟩ _ ⟨⟩
      obtain ⟨htask', hplan', hcommitted, hcreated⟩ := foldl_createBranch plan.branchPlans
        (TaskSession.recordEvent { task, plan, txn } .submitTask [] [] task.objective 0)
      refine ⟨rfl, rfl, ?_, hplan', ?_, hcommitted, events_foldl_createBranch _ rfl⟩
      · show { TaskSession.task _ with phase := .running } = { task with phase := .running }
        rw [htask']
        rfl
      · refine hcreated.trans ?_
        show txn.branches ++ _ = _
        rw [hbegun]
        rfl

theorem isSubmitted_of_submitTask {task : TaskContext} {plan : ExecutionPlan}
    (h : ((submitTask config task plan).run (handle kind) w).1 = .ok session) :
    task.validate = .ok () ∧ plan.validate = .ok () ∧ IsSubmitted task plan session :=
  (returns_isSubmitted config task plan).interfered (Program.interfered_run _ w) session h

/-- A task is submitted exactly if it and its plan are valid. -/
theorem run_submitTask (config : FallbackCommitRuntimeConfig) (task : TaskContext)
    (plan : ExecutionPlan) (w : World) :
    (task.validate = .ok () ∧ plan.validate = .ok () ∧ ∃ session,
      (submitTask config task plan).run (handle kind) w = (.ok session, w) ∧
      IsSubmitted task plan session) ∨
    (¬(task.validate = .ok () ∧ plan.validate = .ok ()) ∧
      ∃ what, (submitTask config task plan).run (handle kind) w = (.error what, w)) := by
  cases htask : task.validate with
  | error what =>
    refine .inr ⟨nofun, what, ?_⟩
    rw [submitTask, htask]
    rfl
  | ok _ =>
    cases hplan : plan.validate with
    | error what =>
      refine .inr ⟨nofun, what, ?_⟩
      rw [submitTask, htask, hplan]
      rfl
    | ok _ =>
      obtain ⟨txn, hrun⟩ := @run_configureFallbackCommit kind config
        (AgentTxnManager.begin_ (ascii "txn:" ++ task.taskId) task.taskId) w
      have hsubmit : ∃ session, (submitTask config task plan).run (handle kind) w =
          (.ok session, w) := by
        rw [submitTask, htask, hplan]
        simp only [Program.run_bind, hrun]
        exact ⟨_, rfl⟩
      obtain ⟨session, hsubmit⟩ := hsubmit
      exact .inl ⟨rfl, rfl, session, hsubmit,
        (isSubmitted_of_submitTask (congrArg Prod.fst hsubmit)).2.2⟩

/-! ### What work leaves alone -/

theorem run_perform_read (session : TaskSession) (branchId objectId : Bytes) (w : World) :
    (((SessionOp.read branchId objectId).perform config session).run (handle kind) w).1 =
      { session with
        txn := ((session.txn.read branchId objectId).run (handle kind) w).1.2 }.recordEvent
        .read branchId objectId ((session.txn.read branchId objectId).run (handle kind) w).1.1.value
        ((session.txn.read branchId objectId).run (handle kind) w).1.1.version.toInt64 := by
  simp only [SessionOp.perform, TaskSession.read, Program.run_bind,
    Program.pure_eq_ret, Program.run_ret]

theorem run_perform_write (session : TaskSession) (branchId objectId : Bytes)
    (objectType : ObjectType) (intent : WriteIntent) (w : World) :
    (((SessionOp.write branchId objectId objectType intent).perform config session).run
      (handle kind) w).1 =
      { session with
        txn := ((session.txn.write branchId objectId objectType intent).run
          (handle kind) w).1 }.recordEvent
        .write branchId objectId intent.payload (intentTypeValue intent.intentType) := by
  simp only [SessionOp.perform, TaskSession.write, Program.run_bind,
    Program.pure_eq_ret, Program.run_ret]

/-- The branch an operation works on. -/
def SessionOp.branchId : SessionOp → Bytes
  | .read branchId _ | .write branchId _ _ _ | .savepoint branchId
      _ | .rollbackToSavepoint branchId _
  | .stageBranch branchId _ _ => branchId
  | .commitTask | .abortTask => []

/-- What an operation makes of its branch. -/
def SessionOp.onBranch (kind : StoreKind) (w : World) (branch : BranchContext) :
    SessionOp → BranchContext
  | .read _ objectId => ((BranchManager.readObject branch objectId).run (handle kind) w).1.2
  | .write _ objectId objectType intent =>
    ((BranchManager.bufferWrite branch objectId objectType intent).run (handle kind) w).1
  | .savepoint _ savepointId => BranchManager.createSavepoint branch savepointId
  | .rollbackToSavepoint _ savepointId => (RollbackManager.rollbackToSavepoint branch savepointId).2
  | .stageBranch _ score summary => BranchManager.stageBranch branch score summary
  | .commitTask | .abortTask => branch

/-- An operation works on its branch, if there is one of that name. -/
theorem txn_perform {op : SessionOp} (hworks : op.works = true)
    (session : TaskSession) (w : World) :
    ((op.perform config session).run (handle kind) w).1.txn =
      (session.txn.findBranch op.branchId).elim session.txn
      fun branch => session.txn.setBranch (op.onBranch kind w branch) := by
  cases op with
  | commitTask => cases hworks
  | abortTask => cases hworks
  | read branchId objectId =>
    rw [run_perform_read]
    exact MirrorsTxn.run_read_eq session.txn branchId objectId w
  | write branchId objectId objectType intent =>
    rw [run_perform_write]
    exact MirrorsTxn.run_write_eq session.txn branchId objectId objectType intent w
  | savepoint branchId savepointId => exact MirrorsTxn.savepoint_eq session.txn branchId savepointId
  | stageBranch branchId score summary =>
    exact MirrorsTxn.stageBranch_eq session.txn branchId score summary
  | rollbackToSavepoint branchId savepointId =>
    exact (session.txn_rollbackToSavepoint branchId savepointId).trans
      (MirrorsTxn.rollbackToSavepoint_eq session.txn branchId savepointId)

theorem branchId_onBranch (op : SessionOp) (branch : BranchContext) (w : World) :
    (op.onBranch kind w branch).branchId = branch.branchId := by
  cases op with
  | read branchId objectId => exact (sameWork_readObject branch objectId w).branchId
  | write branchId objectId objectType intent =>
    show ((BranchManager.bufferWrite branch objectId objectType intent).run (handle kind)
      w).1.branchId = branch.branchId
    unfold BranchManager.bufferWrite
    cases branch.writeBuffer.find objectId <;> rfl
  | rollbackToSavepoint branchId savepointId =>
    exact RollbackManager.rollbackToSavepoint_branchId branch savepointId
  | _ => rfl

/-- What is done to the branch of a name is seen by who looks for that name. -/
theorem findBranch_elim_setBranch (txn : AgentTxnContext) {f : BranchContext → BranchContext}
    (hf : ∀ branch, (f branch).branchId = branch.branchId) (changedId branchId : Bytes) :
    ((txn.findBranch changedId).elim txn fun branch => txn.setBranch (f branch)).findBranch
      branchId =
      if branchId = changedId then (txn.findBranch branchId).map f
        else txn.findBranch branchId := by
  cases hfind : txn.findBranch changedId with
  | none =>
    split
    next heq =>
      subst heq
      rw [hfind]
      exact hfind
    next => rfl
  | some branch =>
    have hid : (f branch).branchId = changedId := by
      rw [hf, BranchManager.branchId_of_findBranch hfind]
    have hfound := BranchManager.findBranch_replaceBranch txn.branches (f branch) branchId
    rw [hid] at hfound
    refine hfound.trans ?_
    split
    next heq =>
      subst heq
      rw [show BranchManager.findBranch txn.branches branchId = some branch from hfind, hfind]
      rfl
    next => rfl

theorem findBranch_perform {op : SessionOp} (hworks : op.works = true) (session : TaskSession)
    (w : World) (branchId : Bytes) :
    ((op.perform config session).run (handle kind) w).1.txn.findBranch branchId =
      if branchId = op.branchId then
        (session.txn.findBranch branchId).map fun branch => op.onBranch kind w branch
      else session.txn.findBranch branchId := by
  rw [txn_perform hworks]
  exact findBranch_elim_setBranch session.txn (fun branch => branchId_onBranch op branch w)
    op.branchId branchId

def TaskEventType.ofWork : TaskEventType → Bool
  | .read | .write | .savepoint | .rollbackToSavepoint | .stageBranch => true
  | _ => false

/-- The second session carries on with the first one. -/
structure Continues (session session' : TaskSession) : Prop where
  task : session'.task = session.task
  plan : session'.plan = session.plan
  committed : session'.committed = session.committed
  branchIds : session'.txn.branches.map (·.branchId) = session.txn.branches.map (·.branchId)
  events : ∃ recorded, session'.events = session.events ++ recorded ∧
    ∀ event ∈ recorded, event.type.ofWork = true

theorem Continues.refl (session : TaskSession) : Continues session session :=
  ⟨rfl, rfl, rfl, rfl, [], (List.append_nil _).symm, fun _ h => absurd h List.not_mem_nil⟩

theorem Continues.trans {session'' : TaskSession} (h : Continues session session')
    (h' : Continues session' session'') :
    Continues session session'' := by
  obtain ⟨recorded, hevents, hwork⟩ := h.events
  obtain ⟨recorded', hevents', hwork'⟩ := h'.events
  refine ⟨h'.task.trans h.task, h'.plan.trans h.plan, h'.committed.trans h.committed,
    h'.branchIds.trans h.branchIds, recorded ++ recorded', ?_, ?_⟩
  · rw [hevents', hevents, List.append_assoc]
  · exact fun event hmem => (List.mem_append.1 hmem).elim (hwork event) (hwork' event)

theorem map_branchId_perform {op : SessionOp} (hworks : op.works = true)
    (session : TaskSession) (w : World) :
    ((op.perform config session).run (handle kind) w).1.txn.branches.map (·.branchId) =
      session.txn.branches.map (·.branchId) := by
  rw [txn_perform hworks]
  cases session.txn.findBranch op.branchId with
  | none => rfl
  | some branch => exact BranchManager.map_branchId_replaceBranch _ _

/-- The type of the event that tells of the operation. -/
def SessionOp.eventType : SessionOp → TaskEventType
  | .read _ _ => .read
  | .write _ _ _ _ => .write
  | .savepoint _ _ => .savepoint
  | .rollbackToSavepoint _ _ => .rollbackToSavepoint
  | .stageBranch _ _ _ => .stageBranch
  | .commitTask => .commitTask
  | .abortTask => .abortTask

theorem ofWork_eventType {op : SessionOp} (hworks : op.works = true) :
    op.eventType.ofWork = true := by
  cases op <;> first | rfl | cases hworks

/-- An operation of work records at most one event, of its own and on its branch. -/
theorem exists_recorded_perform {op : SessionOp} (hworks : op.works = true)
    (session : TaskSession) (w : World) :
    ∃ recorded, ((op.perform config session).run (handle kind) w).1.events =
      session.events ++ recorded ∧
      ∀ event ∈ recorded, event.type = op.eventType ∧ event.branchId = op.branchId := by
  cases op with
  | commitTask => cases hworks
  | abortTask => cases hworks
  | read branchId objectId =>
    rw [run_perform_read]
    exact ⟨_, rfl, List.forall_mem_singleton.2 ⟨rfl, rfl⟩⟩
  | write branchId objectId objectType intent =>
    rw [run_perform_write]
    exact ⟨_, rfl, List.forall_mem_singleton.2 ⟨rfl, rfl⟩⟩
  | savepoint branchId savepointId => exact ⟨_, rfl, List.forall_mem_singleton.2 ⟨rfl, rfl⟩⟩
  | stageBranch branchId score summary => exact ⟨_, rfl, List.forall_mem_singleton.2 ⟨rfl, rfl⟩⟩
  | rollbackToSavepoint branchId savepointId =>
    show ∃ recorded, (session.rollbackToSavepoint branchId savepointId).2.events =
      session.events ++ recorded ∧
      ∀ event ∈ recorded, event.type = .rollbackToSavepoint ∧ event.branchId = branchId
    rcases session.rollbackToSavepoint_cases branchId savepointId with ⟨-, hsession⟩ | ⟨-, hsession⟩
    · rw [hsession]
      exact ⟨[], (List.append_nil _).symm, fun _ h => absurd h List.not_mem_nil⟩
    · rw [hsession]
      exact ⟨_, rfl, List.forall_mem_singleton.2 ⟨rfl, rfl⟩⟩

theorem continues_perform {op : SessionOp} (hworks : op.works = true) (w : World) :
    Continues session ((op.perform config session).run (handle kind) w).1 := by
  have hkeeps : ((op.perform config session).run (handle kind) w).1.task = session.task ∧
      ((op.perform config session).run (handle kind) w).1.plan = session.plan ∧
      ((op.perform config session).run (handle kind) w).1.committed = session.committed := by
    cases op with
    | commitTask => cases hworks
    | abortTask => cases hworks
    | read branchId objectId =>
      rw [run_perform_read]
      exact ⟨rfl, rfl, rfl⟩
    | write branchId objectId objectType intent =>
      rw [run_perform_write]
      exact ⟨rfl, rfl, rfl⟩
    | savepoint branchId savepointId => exact ⟨rfl, rfl, rfl⟩
    | stageBranch branchId score summary => exact ⟨rfl, rfl, rfl⟩
    | rollbackToSavepoint branchId savepointId =>
      show (session.rollbackToSavepoint branchId savepointId).2.task = session.task ∧
        (session.rollbackToSavepoint branchId savepointId).2.plan = session.plan ∧
        (session.rollbackToSavepoint branchId savepointId).2.committed = session.committed
      rcases session.rollbackToSavepoint_cases branchId
        savepointId with ⟨-, hsession⟩ | ⟨-, hsession⟩
      · rw [hsession]
        exact ⟨rfl, rfl, rfl⟩
      · rw [hsession]
        exact ⟨rfl, rfl, rfl⟩
  obtain ⟨htask, hplan, hcommitted⟩ := hkeeps
  obtain ⟨recorded, hevents, hrecorded⟩ := @exists_recorded_perform kind config _ hworks session w
  exact ⟨htask, hplan, hcommitted, map_branchId_perform hworks session w, recorded, hevents,
    fun event hevent => by rw [(hrecorded event hevent).1, ofWork_eventType hworks]⟩

theorem continues_of_work
    (hwork : Relation.ReflTransGen (WorkStep kind config Allowed) session session') :
    Continues session session' := by
  induction hwork with
  | refl => exact Continues.refl session
  | tail _ hlast ih =>
    obtain ⟨hworks, -⟩ := hlast
    exact ih.trans (continues_perform hworks _)

/-! ### The journal -/

/-- The events of a session, played as recovery plays what it has read of them. -/
def taskJournal (kind : StoreKind) (w : World) : Journal TaskSession TaskEvent AgentTxnContext where
  events := TaskSession.events
  play txn event := ((replayEvent txn event.parsed).run (handle kind) w).1

theorem run_replayEvent (txn : AgentTxnContext) (event : ParsedTaskEvent) (w : World) :
    ((replayEvent txn event).run (handle kind) w).2 = w := by
  unfold replayEvent
  cases taskEventTypeFromName event.eventType with
  | write => exact AgentTxnContext.run_write kind txn _ _ _ _ w
  | _ => rfl

theorem run_replayEvents (events : List ParsedTaskEvent) (txn : AgentTxnContext) (w : World) :
    (replayEvents events txn).run (handle kind) w =
      (events.foldl (fun txn event => ((replayEvent txn event).run (handle kind) w).1) txn, w) := by
  induction events generalizing txn with
  | nil => rfl
  | cons event events ih =>
    have hworld := @run_replayEvent kind txn event w
    rw [replayEvents, Program.run_bind, hworld, ih]
    rfl

/-- The operation does what its event can do again: it names its object if that counts,
and meets the base its replay will meet if that is to be the same. -/
def SessionOp.Mirrored (M : Mirroring) (w' : World) (op : SessionOp) (w : World) : Prop :=
  match op with
  | .write _ objectId _ intent => (M.named → intent.objectId = objectId) ∧
      (M.sameBase objectId → w.store.get objectId = w'.store.get objectId)
  | .rollbackToSavepoint branchId savepointId => M.restorable branchId savepointId
  | .stageBranch _ score _ => M.scores score (.ofInt64 score.toInt64)
  | _ => True

theorem intentTypeFromPersistedValue_intentTypeValue (type : IntentType) :
    intentTypeFromPersistedValue (intentTypeValue type) = type := by cases type <;> decide

section Replay

variable (txn : AgentTxnContext) {event : TaskEvent}

theorem replayEvent_parsed (event : TaskEvent) :
    replayEvent txn event.parsed = match event.type with
    | .read => return replayRead txn event.parsed
    | .write => txn.write event.branchId event.objectId .generic (replayedIntent event.parsed)
    | .savepoint => return txn.savepoint event.branchId event.detail
    | .rollbackToSavepoint => return (txn.rollbackToSavepoint event.branchId event.detail).2
    | .stageBranch =>
      return txn.stageBranch event.branchId (.ofInt64 event.numericValue) event.detail
    | _ => return txn := by
  rw [replayEvent, show event.parsed.eventType = taskEventTypeName event.type from rfl,
    taskEventTypeFromName_taskEventTypeName]
  cases event.type <;> rfl

theorem replayRead_eq (event : ParsedTaskEvent) :
    replayRead txn event = (txn.findBranch event.branchId).elim txn fun b =>
      txn.setBranch { b with
        status := .running
        readSet := b.readSet.record event.objectId event.numericValue.toUInt64 } := by
  unfold replayRead
  cases txn.findBranch event.branchId <;> rfl

end Replay

/-- Each operation of work on a session is done again by playing the event it records. -/
theorem keepsUp_perform {op : SessionOp} (hworks : op.works = true) (hop : op.Mirrored M w' w) :
    (taskJournal kind w').KeepsUp (fun session txn => MirrorsTxn M session.txn txn) session
      ((op.perform config session).run (handle kind) w).1 := by
  cases op with
  | commitTask => cases hworks
  | abortTask => cases hworks
  | read branchId objectId =>
    rw [run_perform_read]
    refine Journal.keepsUp_of_event rfl fun txn htxn => ?_
    show MirrorsTxn M _ ((replayEvent txn (TaskEvent.parsed _)).run (handle kind) w').1
    rw [replayEvent_parsed]
    show MirrorsTxn M ((session.txn.read branchId objectId).run (handle kind) w).1.2
      (replayRead txn _)
    rw [replayRead_eq]
    exact htxn.read branchId objectId fun b => ⟨rfl, rfl, rfl, rfl, rfl⟩
  | write branchId objectId objectType intent =>
    rw [run_perform_write]
    refine Journal.keepsUp_of_event rfl fun txn htxn => ?_
    show MirrorsTxn M _ ((replayEvent txn (TaskEvent.parsed _)).run (handle kind) w').1
    rw [replayEvent_parsed]
    have hintent : SameIntent M objectId intent {
        objectId
        intentType := intentTypeFromPersistedValue (intentTypeValue intent.intentType)
        payload := intent.payload } :=
      ⟨(intentTypeFromPersistedValue_intentTypeValue intent.intentType).symm, rfl, rfl, rfl, hop.1⟩
    exact htxn.write branchId hintent objectType .generic hop.2
  | savepoint branchId savepointId =>
    refine Journal.keepsUp_of_event rfl fun txn htxn => ?_
    show MirrorsTxn M _ ((replayEvent txn (TaskEvent.parsed _)).run (handle kind) w').1
    rw [replayEvent_parsed]
    exact htxn.savepoint branchId savepointId
  | stageBranch branchId score summary =>
    refine Journal.keepsUp_of_event rfl fun txn htxn => ?_
    show MirrorsTxn M _ ((replayEvent txn (TaskEvent.parsed _)).run (handle kind) w').1
    rw [replayEvent_parsed]
    exact htxn.stageBranch branchId hop summary summary
  | rollbackToSavepoint branchId savepointId =>
    show (taskJournal kind w').KeepsUp _ session
      (session.rollbackToSavepoint branchId savepointId).2
    rcases session.rollbackToSavepoint_cases branchId
      savepointId with ⟨-, hsession⟩ | ⟨hrolled, hsession⟩
    · rw [hsession]
      exact Journal.keepsUp_refl _ session
    · rw [hsession]
      refine Journal.keepsUp_of_event rfl fun txn htxn => ?_
      show MirrorsTxn M _ ((replayEvent txn (TaskEvent.parsed _)).run (handle kind) w').1
      rw [replayEvent_parsed]
      exact htxn.rollbackToSavepoint hop hrolled

theorem keepsUp_of_work
    (hwork : Relation.ReflTransGen (WorkStep kind config Allowed) session session')
    (hallowed : ∀ op w, Allowed op w → op.Mirrored M w' w) :
    (taskJournal kind w').KeepsUp (fun session txn => MirrorsTxn M session.txn txn) session
      session' := by
  refine Journal.KeepsUp.of_run hwork ?_
  rintro session _ ⟨hworks, hop⟩
  exact keepsUp_perform hworks (hallowed _ _ hop)

end DataAgentSystem.Runtime
