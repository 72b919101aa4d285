import DataAgentSystem.Containers.ThinnedLists
import DataAgentSystem.Runtime.ResumedTask

/-! A task that is recovered, resumed, worked on, and lost once more. The resumption goes
back to a savepoint without an event, so the second recovery sets what it has undone
anew: writes, and savepoints to which a later rollback may then go. As long as neither
matters, the second recovery rebuilds what the task had written. -/

namespace DataAgentSystem.Runtime

open Text Intent Cache Branch Storage Interaction Containers AgentTxn

variable {kind : StoreKind} {config config' : FallbackCommitRuntimeConfig}
  {session session' : TaskSession} {w w' : World} {path : Bytes} {execution : TaskRecoveryExecution}
  {txn txn' : AgentTxnContext}
  {branch branch' : BranchContext} {artifact : ParsedTaskEventLogArtifact}

/-! ### Events restored -/

theorem of_ite {α : Type} {c : Prop} [Decidable c] {x y z : α} (h : (if c then x else y) = z) :
    c ∧ x = z ∨ y = z := by
  by_cases hc : c
  · rw [if_pos hc] at h
    exact .inl ⟨hc, h⟩
  · rw [if_neg hc] at h
    exact .inr h

/-- Every name but those of no known event is the one that the event is written with. -/
theorem taskEventTypeFromName_iff {name : Bytes} {type : TaskEventType} (hne : type ≠ .submitTask) :
    taskEventTypeFromName name = type ↔ name = taskEventTypeName type := by
  constructor
  · intro h
    unfold taskEventTypeFromName at h
    repeat
      rcases of_ite h with ⟨hname, rfl⟩ | h
      · exact hname
    exact absurd h.symm hne
  · rintro rfl
    exact taskEventTypeFromName_taskEventTypeName type

/-- An event that has been restored does the same once more. -/
theorem replayEvent_restoreEvent (txn : AgentTxnContext) (event : ParsedTaskEvent) :
    replayEvent txn (restoreEvent event).parsed = replayEvent txn event := by
  have htype : (restoreEvent event).type = taskEventTypeFromName event.eventType := rfl
  rw [replayEvent_parsed, replayEvent, htype]
  cases taskEventTypeFromName event.eventType <;> rfl

theorem loggedBranchPlan_restoreEvent (event : ParsedTaskEvent) :
    loggedBranchPlan (restoreEvent event).parsed = loggedBranchPlan event := by
  have hiff : (restoreEvent event).parsed.eventType = ascii "CREATE_BRANCH" ↔
      event.eventType = ascii "CREATE_BRANCH" := by
    have hname : event.eventType = ascii "CREATE_BRANCH" ↔
        taskEventTypeFromName event.eventType = .createBranch :=
      (@taskEventTypeFromName_iff event.eventType .createBranch nofun).symm
    rw [hname]
    show taskEventTypeName (taskEventTypeFromName event.eventType) =
      taskEventTypeName .createBranch ↔ _
    constructor
    · intro h
      rw [← taskEventTypeFromName_taskEventTypeName (taskEventTypeFromName event.eventType), h]
      rfl
    · intro h
      rw [h]
  by_cases hcreate : event.eventType = ascii "CREATE_BRANCH"
  · rw [loggedBranchPlan, loggedBranchPlan, if_pos hcreate, if_pos (hiff.2 hcreate)]
    rfl
  · rw [loggedBranchPlan, loggedBranchPlan, if_neg hcreate, if_neg fun h => hcreate (hiff.1 h)]

theorem lastBranchId_map_restoreEvent (events : List ParsedTaskEvent) :
    lastBranchId (events.map restoreEvent) = findLatestBranch events := by
  rw [lastBranchId, findLatestBranch, ← List.map_reverse, List.find?_map, Option.map_map]
  rfl

/-- Events that name the last branch or none do not change which one is the last. -/
theorem lastBranchId_append {events recorded : List TaskEvent} {branchId : Bytes}
    (h : lastBranchId events = branchId)
    (hrecorded : ∀ event ∈ recorded, event.branchId = branchId ∨ event.branchId = []) :
    lastBranchId (events ++ recorded) = branchId := by
  induction recorded using List.reverseRecOn with
  | nil => rw [List.append_nil, h]
  | append_singleton recorded event ih =>
    have hbefore := ih fun e he => hrecorded e (List.mem_append_left _ he)
    rw [lastBranchId] at hbefore
    rw [← List.append_assoc, lastBranchId, List.reverse_append,
      List.reverse_singleton, List.singleton_append]
    by_cases hnone : event.branchId = []
    · rw [List.find?_cons_of_neg (by simpa using hnone)]
      exact hbefore
    · rw [List.find?_cons_of_pos (by simpa using hnone)]
      exact (hrecorded event (by simp)).resolve_right hnone

/-! ### Resumptions that leave nothing out -/

/-- Going back to the savepoint drops the later ones; these ids are gone with them. -/
def DroppedBy (branch : BranchContext) (savepointId id : Bytes) : Prop :=
  (∃ savepoint ∈ branch.savepoints, savepoint.savepointId = id) ∧ id ≠ savepointId ∧
    ∀ savepoint ∈ branch.savepoints.takeWhile fun s => s.savepointId ≠ savepointId,
      savepoint.savepointId ≠ id

namespace TaskRecoveryExecution

/-- Nothing has been written to the branch since the savepoint that it is taken back to. -/
def UndoesNothing (execution : TaskRecoveryExecution) : Prop :=
  execution.commandType = .resumeFromSavepoint → ∀ branch savepoint,
    execution.session.txn.findBranch execution.targetBranchId = some branch →
    branch.savepoints.find? (fun s => s.savepointId = execution.targetSavepointId) =
      some savepoint →
      branch.intentLog.size ≤ savepoint.intentLogPosition

/-- The savepoints of this id are gone from the branch. -/
def Drops (execution : TaskRecoveryExecution) (branchId savepointId : Bytes) : Prop :=
  branchId = execution.targetBranchId ∧ execution.commandType = .resumeFromSavepoint ∧ ∃ branch,
    execution.session.txn.findBranch execution.targetBranchId = some branch ∧
      DroppedBy branch execution.targetSavepointId savepointId

end TaskRecoveryExecution

/-- All of the write state is mirrored, but of the savepoints some may be missing. -/
def thinning (D : Bytes → Bytes → Prop) : Mirroring where
  sameBase _ := True
  named := True
  scores _ _ := True
  savepoints b := Thinned Savepoint.savepointId (D b)
  restorable b id := ¬D b id
  unstaged := trivial
  nil _ := .nil
  append s h := .keep s h
  find h hid hfind := (h.find? hid).symm.trans hfind
  cut h hid _ := .keep _ (h.takeWhile hid)

theorem mirrors_thinning {D : Bytes → Bytes → Prop} (h : Mirrors wholeState branch branch') :
    Mirrors (thinning D) branch branch' := by
  have hsame : branch.savepoints = branch'.savepoints := h.savepoints
  refine h.mono (fun _ _ => trivial) (fun _ => trivial) (fun _ _ _ => trivial) ?_
  show Thinned Savepoint.savepointId (D branch.branchId) branch.savepoints branch'.savepoints
  rw [hsame]
  exact .refl _ _ _

/-- The savepoints that are left, beside all of them. -/
theorem thinned_resumed {savepoint : Savepoint}
    (hcommand : execution.commandType = .resumeFromSavepoint)
    (hfound : execution.session.txn.findBranch execution.targetBranchId = some branch)
    (hfind : branch.savepoints.find? (fun s => s.savepointId = execution.targetSavepointId) =
      some savepoint) :
    Thinned Savepoint.savepointId (execution.Drops branch.branchId)
      (branch.savepoints.takeWhile (fun s => s.savepointId ≠ execution.targetSavepointId) ++
        [savepoint]) branch.savepoints := by
  obtain ⟨hid, front, rest, heq, hfront⟩ := List.find?_eq_some_iff_append.1 hfind
  have htake : branch.savepoints.takeWhile (fun s => s.savepointId ≠ execution.targetSavepointId) =
      front := by
    rw [heq, List.takeWhile_append_of_pos (by simpa using hfront),
      List.takeWhile_cons_of_neg (by simpa using hid), List.append_nil]
  have hsplit : branch.savepoints = (front ++ [savepoint]) ++ rest := by
    rw [heq, List.append_assoc]
    rfl
  rw [htake, hsplit]
  refine (Thinned.refl _ _ _).append fun s hs => ?_
  by_cases hkept : ∃ kept ∈ front ++ [savepoint], kept.savepointId = s.savepointId
  · exact .inr hkept
  · refine .inl ⟨BranchManager.branchId_of_findBranch hfound, hcommand, branch, hfound,
      ⟨s, ?_, rfl⟩, fun hself => ?_, ?_⟩
    · rw [hsplit]
      exact List.mem_append_right _ hs
    · exact hkept ⟨savepoint, by simp, (of_decide_eq_true hid).trans hself.symm⟩
    · intro kept hmem hsame
      rw [htake] at hmem
      exact hkept ⟨kept, List.mem_append_left _ hmem, hsame⟩

/-- A branch that is resumed with nothing undone is still mirrored by what it was before. -/
theorem mirrors_resumedBranch (hundoes : execution.UndoesNothing)
    (hfound : execution.session.txn.findBranch execution.targetBranchId = some branch)
    (h : Mirrors wholeState branch branch') :
    Mirrors (thinning execution.Drops) (resumedBranch execution branch) branch' := by
  have hthin : Mirrors (thinning execution.Drops) branch branch' := mirrors_thinning h
  have hsame : branch.savepoints = branch'.savepoints := h.savepoints
  rw [resumedBranch]
  split
  next hcommand =>
    cases hfind : branch.savepoints.find? fun s => s.savepointId = execution.targetSavepointId with
    | none =>
      rw [RollbackManager.rollbackToSavepoint, hfind]
      exact hthin
    | some savepoint =>
      obtain ⟨records, records', hwritten, hwritten', hrecords⟩ := hthin.records
      have hposition : records.length ≤ savepoint.writeLogPosition := by
        have hle := hundoes hcommand branch savepoint hfound hfind
        rw [IntentLog.size, hwritten.intents, List.length_map] at hle
        rw [hwritten.positions savepoint (List.mem_of_find?_eq_some hfind)]
        exact hle
      have hall := hwritten.restored hfind
      rw [List.take_of_length_le hposition] at hall
      refine ⟨?_, trivial, ?_, records, records', hall, hwritten', hrecords⟩
      · rw [RollbackManager.rollbackToSavepoint_branchId, h.branchId]
      · rw [RollbackManager.rollbackToSavepoint_branchId, ← hsame,
          RollbackManager.rollbackToSavepoint, hfind]
        exact thinned_resumed hcommand hfound hfind
  · exact hthin

/-! ### The log played twice -/

/-- A rollback succeeds on the mirror exactly if it does on the transaction. -/
theorem rollbackToSavepoint_fst_of_mirrors (h : MirrorsTxn wholeState txn txn')
    (branchId savepointId : Bytes) :
    (txn'.rollbackToSavepoint branchId savepointId).1 =
      (txn.rollbackToSavepoint branchId savepointId).1 := by
  unfold AgentTxnContext.rollbackToSavepoint
  cases hfind : txn.findBranch branchId with
  | none =>
    cases hfind' : txn'.findBranch branchId with
    | none => rfl
    | some b' =>
      obtain ⟨b, hb, -⟩ := h.exists_mirrored hfind'
      rw [hfind] at hb
      cases hb
  | some b =>
    obtain ⟨b', hb', hmirrors⟩ := h.exists_mirror hfind
    have hsame : b.savepoints = b'.savepoints := hmirrors.savepoints
    rw [hb']
    show (RollbackManager.rollbackToSavepoint b' savepointId).1 =
      (RollbackManager.rollbackToSavepoint b savepointId).1
    unfold RollbackManager.rollbackToSavepoint
    rw [hsame]
    cases b'.savepoints.find? fun s => s.savepointId = savepointId <;> rfl

/-- With the same store, playing an event twice gives the same write state. -/
theorem mirrors_replayEvent (hstore : w.store = w'.store) (h : MirrorsTxn wholeState txn txn')
    (event : ParsedTaskEvent) :
    MirrorsTxn wholeState ((replayEvent txn event).run (handle kind) w).1
      ((replayEvent txn' event).run (handle kind) w').1 := by
  unfold replayEvent
  cases taskEventTypeFromName event.eventType with
  | read =>
    show MirrorsTxn wholeState (replayRead txn event) (replayRead txn' event)
    rw [replayRead_eq, replayRead_eq]
    refine h.onBranch event.branchId fun b b' hb _ => h.setBranch (hb.congr ?_ ?_)
    · exact ⟨rfl, rfl, rfl, rfl, rfl⟩
    · exact ⟨rfl, rfl, rfl, rfl, rfl⟩
  | write =>
    have hintent : SameIntent wholeState event.objectId (replayedIntent event)
        (replayedIntent event) :=
      ⟨rfl, rfl, rfl, rfl, fun _ => rfl⟩
    exact h.write event.branchId hintent .generic .generic fun _ =>
      congrArg (fun s => s.get event.objectId) hstore
  | savepoint => exact h.savepoint event.branchId event.detail
  | stageBranch => exact h.stageBranch event.branchId trivial event.detail event.detail
  | rollbackToSavepoint =>
    show MirrorsTxn wholeState (txn.rollbackToSavepoint event.branchId event.detail).2
      (txn'.rollbackToSavepoint event.branchId event.detail).2
    have hfst := rollbackToSavepoint_fst_of_mirrors h event.branchId event.detail
    cases hrolled : (txn.rollbackToSavepoint event.branchId event.detail).1 with
    | true => exact h.rollbackToSavepoint trivial hrolled
    | false =>
      rw [AgentTxnContext.rollbackToSavepoint_failed hrolled,
        AgentTxnContext.rollbackToSavepoint_failed (hfst.trans hrolled)]
      exact h
  | _ => exact h

theorem mirrors_replay (hstore : w.store = w'.store) (events : List ParsedTaskEvent)
    (h : MirrorsTxn wholeState txn txn') :
    MirrorsTxn wholeState
      (events.foldl (fun txn event => ((replayEvent txn event).run (handle kind) w).1) txn)
      (events.foldl (fun txn event => ((replayEvent txn event).run (handle kind) w').1) txn') := by
  induction events generalizing txn txn' with
  | nil => exact h
  | cons event events ih => exact ih (mirrors_replayEvent hstore h event)

/-- The restored events are played as the log was. -/
theorem replay_map_restoreEvent (events : List ParsedTaskEvent) (txn : AgentTxnContext) :
    (events.map restoreEvent).foldl (taskJournal kind w).play txn =
      events.foldl (fun txn event => ((replayEvent txn event).run (handle kind) w).1) txn := by
  rw [List.foldl_map]
  congr 1
  funext txn event
  show ((replayEvent txn (restoreEvent event).parsed).run (handle kind) w).1 = _
  rw [replayEvent_restoreEvent]

/-- A recovered session after its resumption, beside the log played once more. -/
theorem mirrors_resumed {recovered : RecoveredTaskSession}
    (hrecovers : Recovers kind w path artifact recovered)
    (hexecution : execution = buildTaskRecoveryExecution recovered) (hresumes : execution.Resumes)
    (hundoes : execution.UndoesNothing) (hstore : w.store = w'.store) {begun : AgentTxnContext}
    (hbegun : begun.branches = recovered.recoveryPlan.plan.branchPlans.map fun branchPlan =>
      { branchId := branchPlan.branchId })
    (v : World) :
    MirrorsTxn (thinning execution.Drops)
      ((executeRecoveryExecution config execution).run (handle kind) v).1.2.session.txn
      ((artifact.events.map restoreEvent).foldl (taskJournal kind w').play begun) := by
  obtain ⟨first, status, hfirst, hbranches⟩ := hrecovers.branches
  have hfresh : MirrorsTxn wholeState first begun := by
    show List.Forall₂ (Mirrors wholeState) first.branches begun.branches
    rw [hfirst, hbegun]
    refine List.forall₂_map_left_iff.2 (List.forall₂_map_right_iff.2 ?_)
    exact List.forall₂_same.2 fun branchPlan _ => mirrors_new wholeState branchPlan.branchId
  have hplayed := @mirrors_replay kind _ _ _ _ hstore artifact.events hfresh
  rw [replay_map_restoreEvent]
  have hwhole : MirrorsTxn wholeState execution.session.txn
      (artifact.events.foldl (fun txn event => ((replayEvent txn event).run (handle kind) w').1)
          begun) := by
    rw [hexecution]
    refine hplayed.map_left (fun b => ?_) hbranches
    exact ⟨rfl, rfl, rfl, rfl, rfl⟩
  have hthin : MirrorsTxn (thinning execution.Drops) execution.session.txn
      (artifact.events.foldl
          (fun txn event => ((replayEvent txn event).run (handle kind) w').1) begun) :=
    List.Forall₂.imp (fun b b' hb => mirrors_thinning hb) hwhole
  by_cases hcan : ∃ branch, CanResume execution branch
  · obtain ⟨branch, hcan⟩ := hcan
    obtain ⟨resumed, hrun, hresumed⟩ :=
      @run_executeRecoveryExecution kind config _ _ hresumes hcan v
    obtain ⟨branch', hbranch', hmirrors⟩ := hwhole.exists_mirror hcan.found
    rw [hrun]
    show MirrorsTxn (thinning execution.Drops) resumed.session.txn _
    rw [hresumed.txn, ← AgentTxnContext.setBranch_of_findBranch hbranch']
    apply hthin.setBranch
    refine (mirrors_resumedBranch hundoes hcan.found hmirrors).congr ?_ (SameWork.refl branch')
    exact ⟨rfl, rfl, rfl, rfl, rfl⟩
  · rw [run_executeRecoveryExecution_refused hresumes
      (fun branch hbranch => hcan ⟨branch, hbranch⟩)]
    exact hthin

/-! ### Work after the resumption -/

/-- A rollback that finds nothing to go back to. -/
def SessionOp.Refused (session : TaskSession) : SessionOp → Prop
  | .rollbackToSavepoint branchId savepointId =>
    (session.txn.rollbackToSavepoint branchId savepointId).1 = false
  | _ => False

/-- The operation is not misled in the second recovery: its intent names its object, it
goes back to no savepoint that the resumption has dropped, and if the log does not say
which branches there are, it names no other one than the branch resumed. -/
structure SessionOp.Replayable (execution : TaskRecoveryExecution) (op : SessionOp) : Prop where
  named : op.NamesObject
  restores : ∀ branchId savepointId, op = .rollbackToSavepoint branchId savepointId →
    ¬execution.Drops branchId savepointId
  stays : (∃ event ∈ execution.session.events, event.type = .createBranch) ∨
    op.branchId = execution.targetBranchId ∨
    op.branchId = []

/-- One operation after the resumption, with the store as it is. -/
inductive GoesOn (kind : StoreKind) (config : FallbackCommitRuntimeConfig) (s : MemoryKVStore)
    (execution : TaskRecoveryExecution) : TaskSession → TaskSession → Prop
  | perform {session : TaskSession} {op : SessionOp} {w : World} : op.works = true → w.store = s →
      op.Refused session ∨ op.Replayable execution →
      GoesOn kind config s execution session ((op.perform config session).run (handle kind) w).1

theorem goesOn_foldl {w : World} {s : MemoryKVStore} (hw : w.store = s)
    (session : TaskSession) {ops : List SessionOp}
    (hops : ∀ op ∈ ops, op.works = true ∧ op.Replayable execution) :
    Relation.ReflTransGen (GoesOn kind config s execution) session
      (ops.foldl (fun session op => ((op.perform config session).run (handle kind) w).1)
        session) := by
  induction ops generalizing session with
  | nil => exact .refl
  | cons op ops ih =>
    rw [List.forall_mem_cons] at hops
    exact .head (.perform hops.1.1 hw (.inr hops.1.2)) (ih _ hops.2)

theorem perform_refused {op : SessionOp} (h : op.Refused session) (w : World) :
    ((op.perform config session).run (handle kind) w).1 = session := by
  cases op with
  | rollbackToSavepoint branchId savepointId =>
    have hrolled : (session.txn.rollbackToSavepoint branchId savepointId).1 = false := h
    rcases session.rollbackToSavepoint_cases branchId savepointId with ⟨-, hsession⟩ | ⟨hrolled', -⟩
    · exact hsession
    · cases hrolled.symm.trans hrolled'
  | _ => exact h.elim

theorem keepsUp_goesOn (hstore : w'.store = w.store)
    (h : GoesOn kind config w.store execution session session') :
    (taskJournal kind w').KeepsUp
      (fun session txn => MirrorsTxn (thinning execution.Drops) session.txn txn) session
      session' := by
  cases h with
  | @perform op v hworks hv hcase =>
    rcases hcase with hrefused | hreplayable
    · rw [perform_refused hrefused]
      exact Journal.keepsUp_refl _ session
    · apply keepsUp_perform hworks
      cases op with
      | write branchId objectId objectType intent =>
        refine ⟨fun _ => hreplayable.named, fun _ => ?_⟩
        rw [hv, hstore]
      | rollbackToSavepoint branchId savepointId =>
        exact hreplayable.restores branchId savepointId rfl
      | _ => trivial

/-- What holds of the session from its resumption on. -/
structure Resumed (execution : TaskRecoveryExecution) (artifact : ParsedTaskEventLogArtifact)
    (session : TaskSession) : Prop where
  taskId : session.task.taskId ≠ []
  phase : session.task.phase = .running
  committed : session.committed = false
  events : ∃ recorded, session.events = artifact.events.map restoreEvent ++ recorded ∧
    (∀ event ∈ recorded, event.type.ofWork = true) ∧
      (artifact.events.filterMap loggedBranchPlan = [] →
        ∀ event ∈ recorded, event.branchId = execution.targetBranchId ∨ event.branchId = [])

theorem Resumed.goesOn (h : Resumed execution artifact session)
    (hevents : execution.session.events = artifact.events.map restoreEvent) {s : MemoryKVStore}
    (hstep : GoesOn kind config s execution session session') :
    Resumed execution artifact session' := by
  cases hstep with
  | @perform op v hworks hv hcase =>
    rcases hcase with hrefused | hreplayable
    · rw [perform_refused hrefused]
      exact h
    · obtain ⟨recorded, heq, hwork, hnames⟩ := h.events
      have hcontinues := @continues_perform kind config session op hworks v
      obtain ⟨new, hnew, htypes⟩ := @exists_recorded_perform kind config op hworks session v
      refine ⟨?_, ?_, hcontinues.committed.trans h.committed,
        recorded ++ new, ?_, ?_, fun hnone => ?_⟩
      · rw [hcontinues.task]
        exact h.taskId
      · rw [hcontinues.task]
        exact h.phase
      · rw [hnew, heq, List.append_assoc]
      · exact List.forall_mem_append.2
          ⟨hwork, fun event hevent => by rw [(htypes event hevent).1, ofWork_eventType hworks]⟩
      · refine List.forall_mem_append.2 ⟨hnames hnone, fun event hevent => ?_⟩
        rw [(htypes event hevent).2]
        refine hreplayable.stays.resolve_left ?_
        rintro ⟨created, hcreated, htype⟩
        rw [hevents, List.mem_map] at hcreated
        obtain ⟨logged, hlogged, rfl⟩ := hcreated
        have hname : logged.eventType = ascii "CREATE_BRANCH" :=
          (@taskEventTypeFromName_iff logged.eventType .createBranch nofun).1 htype
        have hplanned := List.filterMap_eq_nil_iff.1 hnone logged hlogged
        rw [loggedBranchPlan, if_pos hname] at hplanned
        cases hplanned

theorem Resumed.of_run (h : Resumed execution artifact session)
    (hevents : execution.session.events = artifact.events.map restoreEvent) {s : MemoryKVStore}
    (hrun : Relation.ReflTransGen (GoesOn kind config s execution) session session') :
    Resumed execution artifact session' := by
  induction hrun with
  | refl => exact h
  | tail _ hstep ih => exact ih.goesOn hevents hstep

/-- A log does not end with an outcome if none of the names of outcomes is its last one. -/
theorem ofOutcome_restoreEvent (hattempt : finalEventType artifact ≠ some (ascii "COMMIT_ATTEMPT"))
    (hcommit : finalEventType artifact ≠ some (ascii "COMMIT_TASK"))
    (habort : finalEventType artifact ≠ some (ascii "ABORT_TASK")) :
    ∀ event, (artifact.events.map restoreEvent).getLast? = some event →
      event.type.ofOutcome = false := by
  intro event hevent
  rw [List.getLast?_map, Option.map_eq_some_iff] at hevent
  obtain ⟨logged, hlogged, rfl⟩ := hevent
  have hname : ∀ type : TaskEventType, type ≠ .submitTask → (restoreEvent logged).type = type →
      finalEventType artifact = some (taskEventTypeName type) := by
    intro type hne htype
    rw [finalEventType, hlogged, ← (taskEventTypeFromName_iff hne).1 htype]
    rfl
  cases htype : (restoreEvent logged).type with
  | commitAttempt => exact absurd (hname .commitAttempt (by decide) htype) hattempt
  | commitTask => exact absurd (hname .commitTask (by decide) htype) hcommit
  | abortTask => exact absurd (hname .abortTask (by decide) htype) habort
  | _ => rfl

/-- A task that is to be resumed has not ended, and the last branch named is the one to be
resumed. -/
structure DecidedOnLog (artifact : ParsedTaskEventLogArtifact)
    (decision : TaskRecoveryDecision) : Prop where
  committed : artifact.metadataValue (ascii "committed") ≠ ascii "1"
  action : decision.action ≠ .retryFromScratch
  last : ∀ event, (artifact.events.map restoreEvent).getLast? = some event →
    event.type.ofOutcome = false
  branchId : decision.resumeBranchId = findLatestBranch artifact.events

theorem decidedOnLog
    (h : (commandOf (recoverTaskSessionDecision path artifact).action).1 = .resumeBranch ∨
      (commandOf (recoverTaskSessionDecision path artifact).action).1 = .resumeFromSavepoint) :
    DecidedOnLog artifact (recoverTaskSessionDecision path artifact) := by
  simp only [recoverTaskSessionDecision] at h ⊢
  split at h
  next => rcases h with h | h <;> cases h
  next hended =>
    rw [if_neg hended]
    push Not at hended
    split at h
    next => rcases h with h | h <;> cases h
    next habort =>
      rw [if_neg habort]
      split at h
      next => rcases h with h | h <;> cases h
      next hphase =>
        rw [if_neg hphase]
        split at h
        next => rcases h with h | h <;> cases h
        next hattempt =>
          rw [if_neg hattempt]
          have hlast := ofOutcome_restoreEvent hattempt hended.2.2 habort
          split
          · refine ⟨hended.1, fun h => ?_, hlast, rfl⟩
            cases h
          · refine ⟨hended.1, fun h => ?_, hlast, rfl⟩
            cases h

theorem committed_applyRecoveredTerminalState (recovered : RecoveredTaskSession) :
    (applyRecoveredTerminalState recovered).session.committed = recovered.session.committed := by
  obtain ⟨status, phase, branchStatus, hended⟩ := exists_withStatuses recovered
  rw [hended]
  rfl

theorem phase_applyRecoveredTerminalState {recovered : RecoveredTaskSession}
    (hcommitted : recovered.session.committed = false)
    (haction : recovered.recoveryPlan.decision.action ≠ .retryFromScratch) :
    (applyRecoveredTerminalState recovered).session.task.phase = .running := by
  simp only [applyRecoveredTerminalState, hcommitted, Bool.false_eq_true,
    ↓reduceIte, if_neg haction]
  rfl

/-- The execution was built from this log, and goes on with the task. -/
structure BuiltFrom (kind : StoreKind) (w : World) (path : Bytes)
    (artifact : ParsedTaskEventLogArtifact) (recovered : RecoveredTaskSession)
    (execution : TaskRecoveryExecution) : Prop where
  recovers : Recovers kind w path artifact recovered
  execution : execution = buildTaskRecoveryExecution recovered
  valid : (buildTaskRecoveryPlan path artifact).plan.validate = .ok ()
  decided : DecidedOnLog artifact (buildTaskRecoveryPlan path artifact).decision
  taskId : recovered.session.task.taskId ≠ []
  committed : recovered.session.committed = false
  phase : recovered.session.task.phase = .running

theorem exists_builtFrom
    (h : ((buildRecoveryExecutionFromLog config path).run (handle kind) w).1 = .ok execution)
    (hresumes : execution.Resumes) :
    ∃ artifact recovered, BuiltFrom kind w path artifact recovered execution := by
  rw [buildRecoveryExecutionFromLog, Program.run_bind] at h
  rcases @run_recoverSessionFromLog kind config path w with
    ⟨artifact, submitted, commitAttempts, committed, -, -, hlookup, htask, hplan, hsubmitted,
      hrun⟩ | ⟨⟨what, hrun⟩, -⟩
  · rw [hrun] at h
    have hrecovers := @recovers_rebuiltSession kind w path artifact submitted
      hsubmitted commitAttempts committed
    have hexecution := (Except.ok.inj h).symm
    have hdecision := (isRecoveryPlan_buildTaskRecoveryPlan path artifact).decision
    have hdecided : DecidedOnLog artifact (buildTaskRecoveryPlan path artifact).decision := by
      rw [hdecision]
      apply decidedOnLog
      rw [← hdecision, ← hrecovers.recoveryPlan]
      rw [hexecution] at hresumes
      exact hresumes
    have hcommitted :
        (rebuiltSession kind w artifact submitted commitAttempts committed).committed = false := by
      have hvalue := hdecided.committed
      rw [ParsedTaskEventLogArtifact.metadataValue, hlookup] at hvalue
      exact decide_eq_false hvalue
    refine ⟨artifact, _, hrecovers, hexecution, hplan, hdecided, ?_, ?_, ?_⟩
    · rw [hrecovers.taskId, hrecovers.recoveryPlan]
      exact taskId_of_validate htask
    · rw [committed_applyRecoveredTerminalState]
      exact hcommitted
    · exact phase_applyRecoveredTerminalState hcommitted hdecided.action
  · rw [hrun] at h
    cases h

theorem BuiltFrom.events {recovered : RecoveredTaskSession}
    (h : BuiltFrom kind w path artifact recovered execution) :
    execution.session.events = artifact.events.map restoreEvent := by
  rw [h.execution]
  exact h.recovers.events

theorem BuiltFrom.resumed {recovered : RecoveredTaskSession}
    (h : BuiltFrom kind w path artifact recovered execution) (hresumes : execution.Resumes)
    (v : World) :
    Resumed execution artifact
      ((executeRecoveryExecution config execution).run (handle kind) v).1.2.session := by
  have hevents :
    ((executeRecoveryExecution config execution).run (handle kind) v).1.2.session.events =
      artifact.events.map restoreEvent ++ [] := by
    rw [events_executeRecoveryExecution hresumes, h.events, List.append_nil]
  have htaskId : execution.session.task.taskId ≠ [] := by
    rw [h.execution]
    exact h.taskId
  have hcommitted : execution.session.committed = false := by
    rw [h.execution]
    exact h.committed
  have hphase : execution.session.task.phase = .running := by
    rw [h.execution]
    exact h.phase
  by_cases hcan : ∃ branch, CanResume execution branch
  · obtain ⟨branch, hcan⟩ := hcan
    obtain ⟨resumed, hrun, hresumed⟩ :=
      @run_executeRecoveryExecution kind config _ _ hresumes hcan v
    rw [hrun] at hevents ⊢
    refine ⟨?_, hresumed.phase, hresumed.committed.trans hcommitted, [], hevents, by simp, by simp⟩
    show resumed.session.task.taskId ≠ []
    rw [hresumed.taskId]
    exact htaskId
  · rw [run_executeRecoveryExecution_refused hresumes
      (fun branch hbranch => hcan ⟨branch, hbranch⟩)] at hevents ⊢
    exact ⟨htaskId, hphase, hcommitted, [], hevents, by simp, by simp⟩

/-- The second log plans the branches that the first one did. -/
theorem Resumed.branchPlans {recovered : RecoveredTaskSession}
    (h : Resumed execution artifact session)
    (hbuilt : BuiltFrom kind w path artifact recovered execution) (path' : Bytes)
    (metadata : List (Bytes × Bytes)) :
    (buildTaskRecoveryPlan path' (writtenArtifact session metadata)).plan.branchPlans =
      (buildTaskRecoveryPlan path artifact).plan.branchPlans := by
  obtain ⟨recorded, hevents, hwork, hnames⟩ := h.events
  have hfirst := isRecoveryPlan_buildTaskRecoveryPlan path artifact
  have hsecond := isRecoveryPlan_buildTaskRecoveryPlan path' (writtenArtifact session metadata)
  have hlogged : (writtenArtifact session metadata).events.filterMap loggedBranchPlan =
      artifact.events.filterMap loggedBranchPlan := by
    have hrestored : loggedBranchPlan ∘ TaskEvent.parsed ∘ restoreEvent = loggedBranchPlan := by
      funext event
      exact loggedBranchPlan_restoreEvent event
    have hnone : (recorded.map TaskEvent.parsed).filterMap loggedBranchPlan = [] := by
      rw [List.filterMap_map, List.filterMap_eq_nil_iff]
      exact fun event hevent => loggedBranchPlan_of_work (hwork event hevent)
    show (session.events.map TaskEvent.parsed).filterMap loggedBranchPlan = _
    rw [hevents, List.map_append, List.filterMap_append, hnone, List.append_nil, List.map_map,
      List.filterMap_map, hrestored]
  by_cases hnil : artifact.events.filterMap loggedBranchPlan = []
  · have hne : (buildTaskRecoveryPlan path artifact).decision.resumeBranchId ≠ [] := by
      intro hnone
      exact (ExecutionPlan.validate_ok hbuilt.valid).nonempty (hfirst.nothing hnil hnone)
    have hlast : ∀ event, session.events.getLast? = some event → event.type.ofOutcome = false := by
      rw [hevents]
      intro event hevent
      rcases List.eq_nil_or_concat recorded with rfl | ⟨front, last, rfl⟩
      · rw [List.append_nil] at hevent
        exact hbuilt.decided.last event hevent
      · rw [List.concat_eq_append, ← List.append_assoc, List.getLast?_concat] at hevent
        apply ofOutcome_of_ofWork
        rw [← Option.some.inj hevent]
        exact hwork last (by simp)
    have htarget : execution.targetBranchId =
        (buildTaskRecoveryPlan path artifact).decision.resumeBranchId := by
      rw [hbuilt.execution, ← hbuilt.recovers.recoveryPlan]
      rfl
    have hsame :
      (buildTaskRecoveryPlan path' (writtenArtifact session metadata)).decision.resumeBranchId =
        (buildTaskRecoveryPlan path artifact).decision.resumeBranchId := by
      rw [hsecond.decision,
        (decidedToResume h.committed h.phase hlast path' metadata).branchId, hevents]
      apply lastBranchId_append
      · rw [lastBranchId_map_restoreEvent, hbuilt.decided.branchId]
      · rw [← htarget]
        exact hnames hnil
    rw [hfirst.fallback hnil hne,
      hsecond.fallback (hlogged.trans hnil) (by rw [hsame]; exact hne), hsame]
  · rw [hfirst.logged hnil, hsecond.logged (by rw [hlogged]; exact hnil), hlogged]

/-- A task that goes on after a resumption that undoes nothing survives a second crash:
with the store unchanged, recovery from its log rebuilds what all its branches hold. -/
theorem recoverSessionFromLog_resumed_rebuilds (kind : StoreKind)
    (config config' : FallbackCommitRuntimeConfig) (w : World) (path : Bytes)
    (execution : TaskRecoveryExecution)
    (hbuilt : ((buildRecoveryExecutionFromLog config path).run (handle kind) w).1 = .ok execution)
    (hresumes : execution.Resumes) (hundoes : execution.UndoesNothing)
    (v : World) (session : TaskSession)
    (hrun : Relation.ReflTransGen (GoesOn kind config w.store execution)
      ((executeRecoveryExecution config execution).run (handle kind) v).1.2.session session)
    (w' : World) (hstore : w'.store = w.store) (metadata : List (Bytes × Bytes))
    (hmetadata : UnorderedMap.Iterates session.task.metadata metadata) (path' : Bytes) :
    ∃ recovered, ((writeTaskEventLogArtifact session metadata path' >>= fun _ =>
        recoverSessionFromLog config' path').run (handle kind) w').1 = .ok recovered ∧
      List.Forall₂ SameWrites session.txn.branches recovered.session.txn.branches := by
  obtain ⟨artifact, first, hfirst⟩ := exists_builtFrom hbuilt hresumes
  have hsession : Resumed execution artifact session :=
    (@BuiltFrom.resumed kind config w path execution artifact first hfirst hresumes v).of_run
      hfirst.events hrun
  have hlog := holdsLog_writeTaskEventLogArtifact hmetadata kind path' w'
  obtain ⟨metadata', recovered, hsecond, hrecovers⟩ :=
    @recovers_of_holdsLog kind _ _ _ config' hlog hsession.taskId
    fun metadata => by
      rw [ExecutionPlan.validate, hsession.branchPlans hfirst]
      exact hfirst.valid
  refine ⟨recovered, by rw [Program.run_bind, hsecond], ?_⟩
  obtain ⟨begun, status, hbegun, hbranches⟩ := hrecovers.branches
  rw [hrecovers.recoveryPlan, hsession.branchPlans hfirst, ← hfirst.recovers.recoveryPlan] at hbegun
  have hworld : ((writeTaskEventLogArtifact session metadata path').run (handle kind) w').2.store =
      w.store := hstore
  have hresumed := @mirrors_resumed kind config w _ path execution artifact first hfirst.recovers
    hfirst.execution hresumes
    hundoes hworld.symm begun hbegun v
  rw [← hfirst.events, ← @events_executeRecoveryExecution kind config
    execution hresumes v] at hresumed
  have hreplayed :=
    (Journal.KeepsUp.of_run hrun fun s s' hstep => keepsUp_goesOn hworld hstep).replay hresumed
  have hset := hreplayed.map_right fun b =>
      (⟨rfl, rfl, rfl, rfl, rfl⟩ : SameWork b { b with status := status b })
  have hall : List.Forall₂ (Mirrors (thinning execution.Drops)) session.txn.branches
      recovered.session.txn.branches := by
    rw [hbranches]
    show List.Forall₂ _ session.txn.branches
      (((session.events.map TaskEvent.parsed).foldl _ begun).branches.map _)
    rw [List.foldl_map]
    exact hset
  exact List.Forall₂.imp (fun b b' hb => sameWrites_of_mirrors hb (fun _ => trivial) trivial) hall

/-- The resumption built from the log of a session. -/
def resumptionOf (session : TaskSession) : TaskRecoveryExecution :=
  match ((buildRecoveryExecutionFromLog {} (ascii "log")).run (handle .memory)
      (loggedIn {} session)).1 with
  | .ok execution => execution
  | .error _ => {}

/-- The session as it goes on from there. -/
def resumedSession (session : TaskSession) : TaskSession :=
  ((executeRecoveryExecution {} (resumptionOf session)).run (handle .memory) {}).1.2.session

/-- The task of the two branches once both have written, and the second one has set a savepoint. -/
def rivalsSaved : TaskSession :=
  [.write (ascii "a") (ascii "k") .text (appendToK (ascii "x")),
    .write (ascii "b") (ascii "k") .text (appendToK (ascii "y")),
    .savepoint (ascii "b") (ascii "s")].foldl
      (fun session op => ((SessionOp.perform {} session op).run (handle .memory) {}).1) rivals

theorem undoesNothing_rivalsSaved : (resumptionOf rivalsSaved).UndoesNothing := by
  intro _ branch savepoint hbranch hsavepoint
  cases hbranch
  cases hsavepoint
  decide

/-- The other branch is staged after the resumption, and the resumed one writes once more. -/
def afterResumption : List SessionOp := [
  .stageBranch (ascii "a") (.finite 1) [],
  .write (ascii "b") (ascii "k") .text (appendToK (ascii "z")),
  .savepoint (ascii "b") (ascii "t"),
  .rollbackToSavepoint (ascii "b") (ascii "t")]

theorem replayable_afterResumption :
    ∀ op ∈ afterResumption, op.works = true ∧ op.Replayable (resumptionOf rivalsSaved) := by
  have hcreates : ∃ event ∈ (resumptionOf rivalsSaved).session.events,
      event.type = .createBranch := by decide
  have hkept : ¬(resumptionOf rivalsSaved).Drops (ascii "b") (ascii "t") := by
    rintro ⟨-, -, branch, hbranch, hdropped⟩
    cases hbranch
    exact absurd hdropped.1 (by decide)
  intro op hop
  simp only [afterResumption, List.mem_cons, List.not_mem_nil, or_false] at hop
  rcases hop with rfl | rfl | rfl | rfl
  · exact ⟨rfl, trivial, (fun _ _ hop => by cases hop), .inl hcreates⟩
  · exact ⟨rfl, rfl, (fun _ _ hop => by cases hop), .inl hcreates⟩
  · exact ⟨rfl, trivial, (fun _ _ hop => by cases hop), .inl hcreates⟩
  · refine ⟨rfl, trivial, fun branchId savepointId hop => ?_, .inl hcreates⟩
    cases hop
    exact hkept

theorem recoverSessionFromLog_resumed_rebuilds_rivalsSaved :
    let session :=
  afterResumption.foldl (fun session op => ((op.perform {} session).run (handle .memory) {}).1)
      (resumedSession rivalsSaved)
    ∃ recovered,
      ((writeTaskEventLogArtifact session
        (session.task.metadata.entries.map fun entry => (entry.1, entry.2))
            (ascii "log") >>= fun _ => recoverSessionFromLog {} (ascii "log")).run (handle .memory)
          (loggedIn {} rivalsSaved)).1 = .ok recovered ∧
      List.Forall₂ SameWrites session.txn.branches recovered.session.txn.branches := by
  intro session
  have hrun := @goesOn_foldl .memory {} (resumptionOf rivalsSaved) {}
    (loggedIn {} rivalsSaved).store rfl
    (resumedSession rivalsSaved) afterResumption replayable_afterResumption
  exact recoverSessionFromLog_resumed_rebuilds .memory {} {} (loggedIn {} rivalsSaved) (ascii "log")
    (resumptionOf rivalsSaved) rfl (.inr rfl) undoesNothing_rivalsSaved {} session hrun
      (loggedIn {} rivalsSaved) rfl _
    (List.Perm.refl _) (ascii "log")

/-- A task that has set a savepoint and then appended to `k`. -/
def appendAfterSavepoint : TaskSession :=
  (((SessionOp.write (ascii "b") (ascii "k") .text (appendToK (ascii "x"))).perform {}
    (noted.savepoint (ascii "b") (ascii "s1"))).run (handle .memory) {}).1

/-- The resumption undoes the append, and the second recovery does it again. -/
theorem recoverSessionFromLog_not_rebuilds_resumed :
    ((buildRecoveryExecutionFromLog {} (ascii "log")).run (handle .memory)
      (loggedIn {} appendAfterSavepoint)).1 =
        .ok (resumptionOf appendAfterSavepoint) ∧
      (resumptionOf appendAfterSavepoint).commandType = .resumeFromSavepoint ∧
      ((executeRecoveryExecution {} (resumptionOf appendAfterSavepoint)).run
        (handle .memory) {}).1.1 = .ok true ∧
      ∃ recovered, ((writeTaskEventLogArtifact (resumedSession appendAfterSavepoint)
            ((resumedSession appendAfterSavepoint).task.metadata.entries.map fun entry =>
              (entry.1, entry.2)) (ascii "log") >>=
          fun _ => recoverSessionFromLog {} (ascii "log")).run (handle .memory) {}).1 =
            .ok recovered ∧
        ¬List.Forall₂ SameWrites (resumedSession appendAfterSavepoint).txn.branches
          recovered.session.txn.branches := by
  refine ⟨rfl, rfl, rfl, _, rfl, fun h => ?_⟩
  cases h with
  | cons hsame _ => exact absurd hsame.intents (by decide)

end DataAgentSystem.Runtime
