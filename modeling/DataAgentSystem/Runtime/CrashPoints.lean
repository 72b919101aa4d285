import DataAgentSystem.Runtime.CrashTransparency
import DataAgentSystem.Runtime.LatestSavepoint
import DataAgentSystem.Runtime.SecondCrash

/-! Where a task stands when it is lost. The branch that was last at work, the savepoint it
would go back to, and whether that one is still left, can be read off the operations that
have been performed. -/

namespace DataAgentSystem.Runtime

open Text Intent Cache Branch Storage Interaction Containers AgentTxn

variable {kind : StoreKind} {config : FallbackCommitRuntimeConfig}
  {task : TaskContext} {plan : ExecutionPlan} {submitted session : TaskSession} {v w : World}
  {branchId : Bytes} {ops : List (SessionOp × World)}

/-! ### The branch that was last at work -/

theorem lastBranchId_snoc {events : List TaskEvent} {event : TaskEvent} (h : event.branchId ≠ []) :
    lastBranchId (events ++ [event]) = event.branchId := by
  simp [lastBranchId, h]

/-- At first it is the last branch of the plan. -/
theorem lastBranchId_submitted
    (hsubmit : ((submitTask config task plan).run (handle kind) v).1 = .ok submitted)
    {front : List BranchPlan} {last : BranchPlan} (hplan : plan.branchPlans = front ++ [last]) :
    lastBranchId submitted.events = last.branchId := by
  obtain ⟨-, hvalid, hsubmitted⟩ := isSubmitted_of_submitTask hsubmit
  have hnamed : last.branchId ≠ [] :=
    (ExecutionPlan.validate_ok hvalid).named last (by simp [hplan])
  rw [hsubmitted.events, hplan, List.foldl_concat]
  exact lastBranchId_snoc hnamed

/-- An operation that is recorded makes its branch the last one. -/
theorem lastBranchId_perform {op : SessionOp} (hworks : op.works = true) (hnamed : op.branchId ≠ [])
    (h : op.eventType ≠ .rollbackToSavepoint ∨ lastBranchId session.events = op.branchId) :
    lastBranchId ((op.perform config session).run (handle kind) w).1.events = op.branchId := by
  cases op with
  | commitTask => cases hworks
  | abortTask => cases hworks
  | read branchId objectId =>
    rw [run_perform_read]
    exact lastBranchId_snoc hnamed
  | write branchId objectId objectType intent =>
    rw [run_perform_write]
    exact lastBranchId_snoc hnamed
  | savepoint branchId savepointId => exact lastBranchId_snoc hnamed
  | stageBranch branchId score summary => exact lastBranchId_snoc hnamed
  | rollbackToSavepoint branchId savepointId =>
    obtain ⟨recorded, hevents, hrecorded⟩ :=
      @exists_recorded_perform kind config (.rollbackToSavepoint branchId savepointId) rfl session w
    rw [hevents]
    exact lastBranchId_append (h.resolve_left fun hne => hne rfl) fun event hevent =>
      .inl (hrecorded event hevent).2

/-- Work on one branch makes it the last one, unless it is nothing but rollbacks. -/
theorem lastBranchId_performedOn (hnamed : branchId ≠ []) (hworks : ∀ op ∈ ops, op.1.works = true)
    (hbranch : ∀ op ∈ ops, op.1.branchId = branchId)
    (h : lastBranchId session.events = branchId ∨ ∃ op rest, ops = op :: rest ∧
      op.1.eventType ≠ .rollbackToSavepoint) :
    lastBranchId (performedOn kind config session ops).events = branchId := by
  induction ops generalizing session with
  | nil =>
    rcases h with h | ⟨op, rest, hnil, -⟩
    · exact h
    · cases hnil
  | cons op ops ih =>
    rw [List.forall_mem_cons] at hworks hbranch
    refine ih hworks.2 hbranch.2 (.inl ?_)
    rw [← hbranch.1]
    refine lastBranchId_perform hworks.1 (hbranch.1 ▸ hnamed) ?_
    rcases h with h | ⟨op', rest, hcons, hrecorded⟩
    · exact .inr (h.trans hbranch.1.symm)
    · obtain ⟨rfl, -⟩ := List.cons.inj hcons
      exact .inl hrecorded

/-- The last branch is one of those that have been planned or worked on. -/
theorem lastBranchId_mem {ids : List Bytes} (hstart : lastBranchId session.events ∈ ids)
    (hworks : ∀ op ∈ ops, op.1.works = true) (hbranch : ∀ op ∈ ops, op.1.branchId ∈ ids) :
    lastBranchId (performedOn kind config session ops).events ∈ ids := by
  induction ops generalizing session with
  | nil => exact hstart
  | cons op ops ih =>
    rw [List.forall_mem_cons] at hworks hbranch
    refine ih ?_ hworks.2 hbranch.2
    obtain ⟨recorded, hevents, hrecorded⟩ :=
      @exists_recorded_perform kind config _ hworks.1 session op.2
    rw [hevents]
    clear hevents ih
    induction recorded using List.reverseRecOn with
    | nil =>
      rw [List.append_nil]
      exact hstart
    | append_singleton recorded event ih =>
      rw [List.forall_mem_append, List.forall_mem_singleton] at hrecorded
      rw [← List.append_assoc]
      by_cases hnone : event.branchId = []
      · rw [lastBranchId_append rfl (List.forall_mem_singleton.2 (.inr hnone))]
        exact ih hrecorded.1
      · rw [lastBranchId_snoc hnone, hrecorded.2.2]
        exact hbranch.1

/-! ### The savepoint it would go back to -/

/-- The savepoint that was set last; empty if there is none. -/
def lastSaved (history : List BranchOp) : Bytes :=
  history.foldl (fun saved op => match op with | .savepoint savepointId => savepointId | _ => saved)
    []

/-- The names of the savepoints that are left. -/
def savedNames (history : List BranchOp) : List Bytes :=
  ((history.map BranchOp.edit).foldl SnapshotLog.edit {}).saved.map Prod.fst

theorem historyOn_snoc (branchId : Bytes) (ops : List SessionOp) (op : SessionOp) :
    historyOn branchId (ops ++ [op]) =
      historyOn branchId ops ++
        (if op.branchId = branchId then op.toBranchOp else none).toList := by
  rw [historyOn_append]
  rfl

/-- The events tell of the savepoint that was set last. -/
theorem lastSavepointId_performedOn
    (hsubmit : ((submitTask config task plan).run (handle kind) v).1 = .ok submitted)
    (hworks : ∀ op ∈ ops, op.1.works = true) (branchId : Bytes) :
    lastSavepointId (performedOn kind config submitted ops).events branchId =
      lastSaved (historyOn branchId (ops.map Prod.fst)) := by
  induction ops using List.reverseRecOn with
  | nil =>
    refine @lastSavepointId_append branchId [] submitted.events fun event hevent hsave => ?_
    rcases types_of_submitTask hsubmit event hevent with htype | htype <;>
      rw [htype] at hsave <;> cases hsave.2
  | append_singleton ops op ih =>
    rw [List.forall_mem_append, List.forall_mem_singleton] at hworks
    have hbefore := ih hworks.1
    rw [performedOn_snoc, List.map_append, List.map_singleton, historyOn_snoc]
    generalize performedOn kind config submitted ops = session at hbefore ⊢
    obtain ⟨op, w⟩ := op
    have hkept : ¬(op.branchId = branchId ∧ op.eventType = .savepoint) →
        lastSavepointId ((op.perform config session).run (handle kind) w).1.events branchId =
          lastSaved (historyOn branchId (ops.map Prod.fst)) := by
      intro hother
      obtain ⟨recorded, hevents, hrecorded⟩ :=
        @exists_recorded_perform kind config op hworks.2 session w
      rw [hevents, ← hbefore]
      refine lastSavepointId_append fun event hevent hsame => hother ?_
      rw [← (hrecorded event hevent).1, ← (hrecorded event hevent).2]
      exact hsame
    by_cases hbranch : op.branchId = branchId
    · rw [if_pos hbranch]
      cases op with
      | commitTask => cases hworks.2
      | abortTask => cases hworks.2
      | savepoint id savepointId =>
        rw [show (SessionOp.savepoint id savepointId).toBranchOp =
          some (.savepoint savepointId) from rfl, Option.toList_some, lastSaved, List.foldl_concat]
        exact lastSavepointId_snoc hbranch rfl
      | _ =>
        rw [hkept (by simp [SessionOp.eventType]), SessionOp.toBranchOp,
          Option.toList_some, lastSaved, lastSaved, List.foldl_concat]
    · rw [if_neg hbranch, Option.toList_none, List.append_nil]
      exact hkept fun hsame => hbranch hsame.1

theorem map_savepointId_worked (kind : StoreKind) (branchId : Bytes)
    (history : List (BranchOp × World)) :
    (worked kind branchId history).savepoints.map (·.savepointId) =
      savedNames (history.map Prod.fst) := by
  have htracks := tracks_worked kind branchId history
  rw [savedNames, List.map_map]
  show _ = (List.foldl SnapshotLog.edit {} (history.map fun op => op.1.edit)).saved.map Prod.fst
  rw [htracks.saved, List.map_map]
  rfl

/-- A task that has been worked on can be resumed if the savepoint is left. -/
theorem resumable_performedOn
    (hsubmit : ((submitTask config task plan).run (handle kind) v).1 = .ok submitted)
    (hworks : ∀ op ∈ ops, op.1.works = true)
    (hlast : lastBranchId (performedOn kind config submitted ops).events ∈ plan.branchPlans.map
      (·.branchId))
    (hleft :
      let history := historyOn (lastBranchId (performedOn kind config submitted ops).events)
        (ops.map Prod.fst)
      lastSaved history = [] ∨ lastSaved history ∈ savedNames history) :
    Resumable (performedOn kind config submitted ops) := by
  obtain ⟨-, hvalid, hsubmitted⟩ := isSubmitted_of_submitTask hsubmit
  have hbranches : submitted.txn.branches = (plan.branchPlans.map (·.branchId)).map fun id =>
      { branchId := id } := by
    rw [hsubmitted.branches, List.map_map]
    rfl
  have hnodup : (plan.branchPlans.map (·.branchId)).Nodup :=
    (ExecutionPlan.validate_ok hvalid).nodup
  have hworked := @branches_performedOn kind config _ _ _ hworks hnodup hbranches
  rw [Resumable, lastSavepointId_performedOn hsubmit hworks]
  generalize lastBranchId (performedOn kind config submitted ops).events = lastId at hlast hleft ⊢
  have hids : ((performedOn kind config submitted ops).txn.branches.map (·.branchId)).Nodup := by
    rw [hworked, List.map_map]
    simpa only [Function.comp_def, branchId_worked, List.map_id'] using hnodup
  have hfound := findBranch_of_mem hids (hworked ▸ List.mem_map_of_mem hlast)
  rw [branchId_worked] at hfound
  refine ⟨_, hfound, hleft.imp_right fun hmem => ?_⟩
  rw [← map_fst_branchHistory, ← map_savepointId_worked kind lastId] at hmem
  obtain ⟨savepoint, hsavepoint, hid⟩ := List.mem_map.1 hmem
  refine ⟨savepoint, hsavepoint, hid.trans ?_⟩
  rw [map_fst_branchHistory]

/-- Recovery means to go back if a savepoint has been set on the branch that was last at work. -/
theorem commandType_of_inWork {config' : FallbackCommitRuntimeConfig} {path : Bytes}
    {execution : TaskRecoveryExecution} (hwork : InWork session) (hlog : HoldsLog w path session)
    (hbuilt : (buildRecoveryExecutionFromLog config' path).run (handle kind) w =
      (.ok execution, w)) :
    execution.commandType =
      if lastSavepointId session.events (lastBranchId session.events) = [] then .resumeBranch
        else .resumeFromSavepoint := by
  obtain ⟨metadata, recovered, hrun, hrecovers⟩ := @InWork.recovers kind _ _ _ hwork config' hlog
  rw [buildRecoveryExecutionFromLog, Program.run_bind, hrun] at hbuilt
  obtain rfl : buildTaskRecoveryExecution recovered = execution :=
    Except.ok.inj (congrArg Prod.fst hbuilt)
  have hdecided := hwork.decided path metadata
  rw [← (isRecoveryPlan_buildTaskRecoveryPlan path
    _).decision, ← hrecovers.recoveryPlan] at hdecided
  show (commandOf recovered.recoveryPlan.decision.action).1 = _
  rcases hdecided.action with ⟨haction, -, hne⟩ | ⟨haction, hnone⟩
  · rw [haction, if_neg hne]
    rfl
  · rw [haction, if_pos hnone]
    rfl

/-! ### How it ends -/

theorem workSteps_performedOn {Allowed : SessionOp → World → Prop}
    (hworks : ∀ op ∈ ops, op.1.works = true) (hallowed : ∀ op ∈ ops, Allowed op.1 op.2) :
    Relation.ReflTransGen (WorkStep kind config Allowed) submitted
      (performedOn kind config submitted ops) := by
  induction ops using List.reverseRecOn with
  | nil => exact .refl
  | append_singleton ops op ih =>
    rw [List.forall_mem_append, List.forall_mem_singleton] at hworks hallowed
    rw [performedOn_snoc]
    exact (ih hworks.1 hallowed.1).tail (.perform hworks.2 hallowed.2)

/-- What carrying on adds to the history of a branch: the way back, if it was last at work,
and the calls with the staging, if they go to it. -/
theorem historyOn_opsCarriedOn (branchId : Bytes) (ops : List SessionOp) (session : TaskSession)
    (spec : TaskContinuationSpec) {calls : Bytes → List SessionCall}
    (hcalls : ∀ id, ∀ call ∈ calls id, call.op.branchId = id) :
    let lastId := lastBranchId session.events
    let savepointId := lastSavepointId session.events lastId
    let goOn := if spec.preferredBranchId ≠ [] then spec.preferredBranchId else lastId
    historyOn branchId (opsCarriedOn ops session spec calls) = historyOn branchId ops ++
      (if savepointId ≠ [] ∧ lastId = branchId then [.rollbackToSavepoint savepointId] else []) ++
      (if goOn = branchId then (calls goOn).filterMap (fun call =>
        call.op.toBranchOp) ++ [.stage spec.score spec.summary]
        else []) := by
  intro lastId savepointId goOn
  have hback : historyOn branchId
    (if savepointId = [] then [] else [.rollbackToSavepoint lastId savepointId]) =
      if savepointId ≠ [] ∧ lastId = branchId then [.rollbackToSavepoint savepointId] else [] := by
    by_cases hnone : savepointId = []
    · simp [hnone, historyOn]
    · by_cases hlast : lastId = branchId
      · simp [hnone, hlast, historyOn, SessionOp.branchId, SessionOp.toBranchOp]
      · simp [hnone, hlast, historyOn, SessionOp.branchId]
  have hmade : historyOn branchId ((calls goOn).map SessionCall.op) =
      if goOn = branchId then (calls goOn).filterMap fun call => call.op.toBranchOp else [] := by
    rw [historyOn, List.filterMap_map]
    split
    next heq =>
      exact List.filterMap_congr fun call hcall => if_pos ((hcalls goOn call hcall).trans heq)
    next hne =>
      refine List.filterMap_eq_nil_iff.2 fun call hcall => if_neg fun heq => hne ?_
      rw [← hcalls goOn call hcall, heq]
  have hstaged : historyOn branchId [.stageBranch goOn spec.score spec.summary] =
      if goOn = branchId then [.stage spec.score spec.summary] else [] := by
    by_cases hgoOn : goOn = branchId
    · simp [hgoOn, historyOn, SessionOp.branchId, SessionOp.toBranchOp]
    · simp [hgoOn, historyOn, SessionOp.branchId]
  show historyOn branchId
    (ops ++ (if savepointId = [] then [] else [.rollbackToSavepoint lastId savepointId]) ++
      (calls goOn).map SessionCall.op ++ [.stageBranch goOn spec.score spec.summary]) = _
  rw [historyOn_append, historyOn_append, historyOn_append, hback, hmade,
    hstaged, List.append_assoc]
  congr 1
  split <;> rfl

/-- The end of an undisturbed task that is lost and taken up again, told by what was done and is
to be done. -/
theorem continueRecoveredTask_reports {config' : FallbackCommitRuntimeConfig}
    {path first : Bytes} {ids : List Bytes}
    (hsubmit : ((submitTask config task plan).run (handle .memory) v).1 = .ok submitted)
    (hids : plan.branchPlans.map (·.branchId) = first :: ids)
    (hworks : ∀ op ∈ ops, op.1.works = true) (hlogs : ∀ op ∈ ops, op.1.LogsAll w.store op.2)
    (hsession : session = performedOn .memory config submitted ops) (hlog : HoldsLog w path session)
    (hresumable : Resumable session) (spec : TaskContinuationSpec)
    {calls : Bytes → List SessionCall}
    (hcalls : ∀ branchId, ∀ call ∈ calls branchId, call.op.NamesObject) :
    ∃ execution, (buildRecoveryExecutionFromLog config' path).run (handle .memory) w =
      (.ok execution, w) ∧
      let history := fun id => historyOn id (opsCarriedOn (ops.map Prod.fst) session spec calls)
      let intents :=
        writtenIntents (history (leading (fun id => stagedScore (history id)) first ids))
      let out := (continueRecoveredTask config' execution spec fun _ branchId =>
        callsWork (calls branchId)).run
        (handle .memory) w
      out.1.1 = .ok (allResolve intents w.store) ∧
        ∀ k, out.2.store.get k = if allResolve intents w.store then valueAfter intents w.store k
            else w.store.get k := by
  obtain ⟨-, hvalid, hsubmitted⟩ := isSubmitted_of_submitTask hsubmit
  have hwork : WorkedOn .memory config (SessionOp.LogsAll w.store) session :=
    ⟨task, plan, v, submitted, hsubmit, hsession ▸ workSteps_performedOn hworks hlogs⟩
  obtain ⟨execution, resumed, hbuilt, hexecuted, htarget, htwins⟩ :=
    @exists_resumed config config' session w path hwork hlog hresumable
  have hbranches : submitted.txn.branches = (first :: ids).map fun id => { branchId := id } := by
    rw [hsubmitted.branches, ← hids, List.map_map]
    rfl
  have hnodup : (first :: ids).Nodup := hids ▸ (ExecutionPlan.validate_ok hvalid).nodup
  obtain ⟨hresult, hstore⟩ := continued_of_twins hexecuted htarget
    (hresumable.lastBranchId_ne_nil hwork.inWork) htwins spec hcalls
  obtain ⟨hresult', hstore'⟩ := run_carryOn_worked (w := w) hnodup hbranches hsession hworks
    (fun op hop => (hlogs op hop).namesObject) (fun op hop => (hlogs op hop).1) spec hcalls
  exact ⟨execution, hbuilt, hresult.trans hresult', fun k => (hstore k).trans (hstore' k)⟩

/-! ### A crash among planned work -/

/-- Work that has begun is done up to some branch. -/
theorem exists_begun {works : List BranchWork} {ops : List SessionOp} (h : ops <+: sessionOps works)
    (hne : ops ≠ []) :
    ∃ front work rest begun, works = front ++ work :: rest ∧ begun ≠ [] ∧ begun <+: work.allOps ∧
      ops = sessionOps front ++ begun.map (onSession work.branchId) := by
  induction works generalizing ops with
  | nil => exact absurd (List.prefix_nil.1 h) hne
  | cons work works ih =>
    have hcons : sessionOps (work :: works) = work.allOps.map (onSession work.branchId) ++
        sessionOps works := List.flatMap_cons
    rw [hcons] at h
    rcases List.prefix_or_prefix_of_prefix h
      (List.prefix_append _ (sessionOps works)) with hfirst | ⟨later, rfl⟩
    · obtain ⟨begun, hbegun, rfl⟩ := List.prefix_map_iff.1 hfirst
      exact ⟨[], work, works, begun, rfl, fun hnil => hne (by rw [hnil, List.map_nil]), hbegun, rfl⟩
    · by_cases hlater : later = []
      · rw [hlater, List.append_nil] at hne ⊢
        exact ⟨[], work, works, work.allOps, rfl, fun hnil => hne (by rw [hnil, List.map_nil]),
          List.prefix_rfl, rfl⟩
      · obtain ⟨front, work', rest, begun, rfl, hbegun, hprefix, rfl⟩ :=
          ih ((List.prefix_append_right_inj _).1 h) hlater
        refine ⟨work :: front, work', rest, begun, rfl, hbegun, hprefix, ?_⟩
        rw [← List.append_assoc]
        rfl

/-- The branches before it are done, and those after it are as they were. -/
theorem historyOn_begun {front rest : List BranchWork} {work other : BranchWork}
    {begun : List BranchOp} (hnodup : ((front ++ work :: rest).map (·.branchId)).Nodup) :
    let ops := sessionOps front ++ begun.map (onSession work.branchId)
    historyOn work.branchId ops = begun ∧
      (other ∈ front → historyOn other.branchId ops = other.allOps) ∧
      (other ∈ rest → historyOn other.branchId ops = []) := by
  intro ops
  rw [List.map_append, List.map_cons, List.nodup_append, List.nodup_cons] at hnodup
  obtain ⟨hfront, ⟨hwork, -⟩, hapart⟩ := hnodup
  have hid : ∀ id, historyOn id ops =
      historyOn id (sessionOps front) ++ if work.branchId = id then begun else [] := by
    intro id
    rw [historyOn_append, historyOn_map_onSession]
  refine ⟨?_, fun hother => ?_, fun hother => ?_⟩
  · rw [hid, if_pos rfl, historyOn_sessionOps_of_notMem fun hmem =>
      hapart _ hmem _ List.mem_cons_self rfl, List.nil_append]
  · have hne : work.branchId ≠ other.branchId := fun heq =>
      hapart _ (List.mem_map_of_mem hother) _ List.mem_cons_self heq.symm
    rw [hid, if_neg hne, List.append_nil, historyOn_sessionOps hfront hother]
  · have hmem : other.branchId ∈ rest.map (·.branchId) := List.mem_map_of_mem hother
    have hne : work.branchId ≠ other.branchId := fun heq => hwork (heq ▸ hmem)
    rw [hid, if_neg hne, List.append_nil,
      historyOn_sessionOps_of_notMem fun hearlier =>
      hapart _ hearlier _ (List.mem_cons_of_mem _ hmem) rfl]

/-- The branch that has begun was last at work, unless it has begun with a rollback. -/
theorem lastBranchId_begun {front : List BranchWork} {work : BranchWork} {begun : List BranchOp}
    (hnamed : work.branchId ≠ [])
    (hops : ops.map Prod.fst = sessionOps front ++ begun.map (onSession work.branchId))
    {op : BranchOp} {later : List BranchOp} (hbegun : begun = op :: later)
    (hop : ∀ savepointId, op ≠ .rollbackToSavepoint savepointId) :
    lastBranchId (performedOn kind config session ops).events = work.branchId := by
  obtain ⟨done, started, rfl, -, hstarted⟩ := List.map_eq_append_iff.1 hops
  have hall : ∀ op ∈ started, ∃ branchOp, op.1 = onSession work.branchId branchOp := by
    intro op hop
    obtain ⟨branchOp, -, heq⟩ := List.mem_map.1 (hstarted ▸ List.mem_map_of_mem (f := Prod.fst) hop)
    exact ⟨branchOp, heq.symm⟩
  rw [performedOn, List.foldl_append]
  refine @lastBranchId_performedOn kind config _ work.branchId started hnamed (fun op hop => ?_)
    (fun op hop => ?_) (.inr ?_)
  · obtain ⟨branchOp, heq⟩ := hall op hop
    rw [heq, works_onSession]
  · obtain ⟨branchOp, heq⟩ := hall op hop
    rw [heq, branchId_onSession]
  · cases started with
    | nil => rw [hbegun] at hstarted; cases hstarted
    | cons first started =>
      rw [hbegun, List.map_cons, List.map_cons, List.cons.injEq] at hstarted
      refine ⟨first, started, rfl, ?_⟩
      rw [hstarted.1]
      cases op with
      | rollbackToSavepoint savepointId => exact absurd rfl (hop savepointId)
      | _ => simp [onSession, SessionOp.eventType]

/-- The log keeps all that counts of the operation. -/
def BranchOp.KeptByLog : BranchOp → Prop
  | .write objectId _ intent => intent.objectId = objectId ∧ intent.condition = {}
  | .stage score _ => score = .ofInt64 score.toInt64
  | _ => True

/-- The operations are the beginning of the work on a plan, with the store as it is. -/
structure BeginsWork (s : MemoryKVStore) (plan : ExecutionPlan) (works : List BranchWork)
    (ops : List (SessionOp × World)) : Prop where
  ids : plan.branchPlans.map (·.branchId) = works.map (·.branchId)
  kept : ∀ work ∈ works, ∀ op ∈ work.allOps, BranchOp.KeptByLog op
  begins : ops.map Prod.fst <+: sessionOps works
  stores : ∀ op ∈ ops, op.2.store = s

namespace BeginsWork

variable {s : MemoryKVStore} {plannedWorks : List BranchWork}

theorem exists_onSession (h : BeginsWork s plan plannedWorks ops) :
    ∀ op ∈ ops, ∃ work ∈ plannedWorks, ∃ branchOp ∈ work.allOps,
    op.1 = onSession work.branchId branchOp := by
  intro op hop
  obtain ⟨work, hwork, hmem⟩ := List.mem_flatMap.1 (h.begins.subset (List.mem_map_of_mem hop))
  obtain ⟨branchOp, hbranchOp, heq⟩ := List.mem_map.1 hmem
  exact ⟨work, hwork, branchOp, hbranchOp, heq.symm⟩

theorem works (h : BeginsWork s plan plannedWorks ops) : ∀ op ∈ ops, op.1.works = true := by
  intro op hop
  obtain ⟨work, -, branchOp, -, heq⟩ := h.exists_onSession op hop
  rw [heq]
  exact works_onSession work.branchId branchOp

theorem logsAll (h : BeginsWork s plan plannedWorks ops) : ∀ op ∈ ops, op.1.LogsAll s op.2 := by
  intro op hop
  obtain ⟨work, hwork, branchOp, hbranchOp, heq⟩ := h.exists_onSession op hop
  have hkeeps := h.kept work hwork branchOp hbranchOp
  rw [heq]
  refine ⟨h.stores op hop, ?_⟩
  cases branchOp with
  | write objectId objectType intent => exact hkeeps
  | stage score summary => exact hkeeps
  | _ => trivial

theorem nodup (h : BeginsWork s plan plannedWorks ops) (hvalid : plan.validate = .ok ()) :
    (plannedWorks.map (·.branchId)).Nodup :=
  h.ids ▸ (ExecutionPlan.validate_ok hvalid).nodup

/-- Of each branch the beginning of its own work has been done. -/
theorem history (h : BeginsWork s plan plannedWorks ops) (hvalid : plan.validate = .ok ())
    {work : BranchWork} (hwork : work ∈ plannedWorks) :
    historyOn work.branchId (ops.map Prod.fst) <+: work.allOps := by
  rw [← historyOn_sessionOps (h.nodup hvalid) hwork]
  exact h.begins.filterMap _

theorem lastBranchId_mem (h : BeginsWork s plan plannedWorks ops)
    (hsubmit : ((submitTask config task plan).run (handle kind) v).1 = .ok submitted) :
    lastBranchId (performedOn kind config submitted ops).events ∈ plannedWorks.map
      (·.branchId) := by
  obtain ⟨-, hvalid, -⟩ := isSubmitted_of_submitTask hsubmit
  refine Runtime.lastBranchId_mem ?_ h.works fun op hop => ?_
  · obtain ⟨front, last, hplan⟩ := (List.eq_nil_or_concat' plan.branchPlans).resolve_left
      (ExecutionPlan.validate_ok hvalid).nonempty
    rw [lastBranchId_submitted hsubmit hplan, ← h.ids, hplan]
    simp
  · obtain ⟨work, hwork, branchOp, -, heq⟩ := h.exists_onSession op hop
    rw [heq, branchId_onSession]
    exact List.mem_map_of_mem hwork

end BeginsWork

end DataAgentSystem.Runtime
