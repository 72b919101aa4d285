import DataAgentSystem.Runtime.ContinuationRegistry

/-! A crash in the middle of a task. What is left of it is its log; a later runtime rebuilds
the session, resumes the branch that was last at work and carries on with it. As long as
the store is as it was, and the log keeps all that was done, the task ends as if the
session had never been lost: gone back to the savepoint, it would have had the same
outcome and left the same in the store. -/

namespace DataAgentSystem.Runtime

open Text Intent Cache Branch Storage Interaction Containers AgentTxn

variable {config config' : FallbackCommitRuntimeConfig} {session : TaskSession}
  {w : World} {path : Bytes} {kind : StoreKind}

/-- The operation that a call is. -/
def SessionCall.op : SessionCall → SessionOp
  | .read branchId objectId => .read branchId objectId
  | .write branchId objectId objectType intent => .write branchId objectId objectType intent
  | .savepoint branchId savepointId => .savepoint branchId savepointId
  | .rollbackToSavepoint branchId savepointId => .rollbackToSavepoint branchId savepointId

/-- The work of a callback that makes these calls and wants to go on. -/
def callsWork : List SessionCall → SessionWork Bool
  | [] => .ret true
  | call :: calls => .call call fun _ => callsWork calls

/-- The session once it has gone back to the last savepoint of the branch that was last at work. -/
def wentBack (session : TaskSession) : TaskSession :=
  let branchId := lastBranchId session.events
  let savepointId := lastSavepointId session.events branchId
  if savepointId = [] then session else (session.rollbackToSavepoint branchId savepointId).2

/-- The session itself carries on: it goes back, and then the calls are made, the branch
that is preferred, or was last at work, is staged and the task committed. -/
def carryOn (config : FallbackCommitRuntimeConfig) (session : TaskSession)
    (spec : TaskContinuationSpec) (calls : Bytes → List SessionCall) :
    Prog (Except Bytes Bool × TaskSession) := do
  let branchId := if spec.preferredBranchId ≠ [] then spec.preferredBranchId
    else lastBranchId session.events
  let session ← performAll config ((calls branchId).map SessionCall.op) (wentBack session)
  (session.stageBranch branchId spec.score spec.summary).commitTask config

theorem works_op (call : SessionCall) : call.op.works = true := by
  cases call <;> rfl

/-- A call leaves the session as its operation does, and the world as it was. -/
theorem run_call (config : FallbackCommitRuntimeConfig) (call : SessionCall)
    (session : TaskSession) (w : World) :
    ∃ result, (call.perform session).run (handle kind) w =
      ((result, ((call.op.perform config session).run (handle kind) w).1), w) := by
  cases call with
  | read branchId objectId =>
    have hworld : ((session.read branchId objectId).run (handle kind) w).2 = w := by
      simp only [TaskSession.read, Program.run_bind, Program.pure_eq_ret, Program.run_ret]
      exact AgentTxnContext.run_read kind session.txn branchId objectId w
    have hsession :
      (((SessionOp.read branchId objectId).perform config session).run (handle kind) w).1 =
        ((session.read branchId objectId).run (handle kind) w).1.2 := by
      rw [SessionOp.perform, Program.run_bind]
      rfl
    refine ⟨((session.read branchId objectId).run (handle kind) w).1.1, ?_⟩
    rw [SessionCall.op, hsession]
    exact Prod.ext rfl hworld
  | write branchId objectId objectType intent =>
    have hworld : ((session.write branchId objectId objectType intent).run (handle kind) w).2 = w :=
      @run_perform_snd kind config (.write branchId objectId objectType intent) rfl session w
    refine ⟨(), ?_⟩
    show ((session.write branchId objectId objectType intent) >>= fun session =>
      (pure ((), session) : Prog (Unit × TaskSession))).run (handle kind) w = _
    rw [Program.run_bind]
    exact Prod.ext rfl hworld
  | savepoint branchId savepointId => exact ⟨(), rfl⟩
  | rollbackToSavepoint branchId savepointId => exact ⟨_, rfl⟩

theorem run_callsWork (config : FallbackCommitRuntimeConfig) (calls : List SessionCall)
    (session : TaskSession) (w : World) :
    (SessionWork.perform (callsWork calls) session).run (handle kind) w =
      ((true, performedOn kind config session ((calls.map SessionCall.op).map (·, w))), w) := by
  induction calls generalizing session with
  | nil => rfl
  | cons call calls ih =>
    obtain ⟨result, hcall⟩ := @run_call kind config call session w
    rw [callsWork, SessionWork.perform, Program.run_bind, hcall]
    exact ih _

/-! ### The same work -/

/-- What carrying on comes to, as operations after those that there have been. -/
def opsCarriedOn (ops : List SessionOp) (session : TaskSession) (spec : TaskContinuationSpec)
    (calls : Bytes → List SessionCall) : List SessionOp :=
  let lastId := lastBranchId session.events
  let savepointId := lastSavepointId session.events lastId
  let branchId := if spec.preferredBranchId ≠ [] then spec.preferredBranchId else lastId
  ops ++ (if savepointId = [] then [] else [.rollbackToSavepoint lastId savepointId]) ++
    (calls branchId).map SessionCall.op ++ [.stageBranch branchId spec.score spec.summary]

theorem works_opsCarriedOn {ops : List SessionOp} (hworks : ∀ op ∈ ops, op.works = true)
    (session : TaskSession) (spec : TaskContinuationSpec) (calls : Bytes → List SessionCall) :
    ∀ op ∈ opsCarriedOn ops session spec calls, op.works = true := by
  simp only [opsCarriedOn, List.forall_mem_append, List.forall_mem_map, List.forall_mem_singleton]
  refine ⟨⟨⟨hworks, ?_⟩, fun call _ => works_op call⟩, rfl⟩
  split
  · exact fun op hop => absurd hop List.not_mem_nil
  · exact List.forall_mem_singleton.2 rfl

theorem namesObject_opsCarriedOn {ops : List SessionOp} (hnamed : ∀ op ∈ ops, op.NamesObject)
    (session : TaskSession) (spec : TaskContinuationSpec) {calls : Bytes → List SessionCall}
    (hcalls : ∀ branchId, ∀ call ∈ calls branchId, call.op.NamesObject) :
    ∀ op ∈ opsCarriedOn ops session spec calls, op.NamesObject := by
  simp only [opsCarriedOn, List.forall_mem_append, List.forall_mem_map, List.forall_mem_singleton]
  refine ⟨⟨⟨hnamed, ?_⟩, hcalls _⟩, trivial⟩
  split
  · exact fun op hop => absurd hop List.not_mem_nil
  · exact List.forall_mem_singleton.2 trivial

/-- A session that has been worked on carries on with a longer list of operations. -/
theorem run_carryOn {submitted : TaskSession} {ops : List (SessionOp × World)}
    (hsession : session = performedOn kind config submitted ops) (spec : TaskContinuationSpec)
    (calls : Bytes → List SessionCall) : ∃ after : List (SessionOp × World),
      (∀ op ∈ after, op.2 = w) ∧
      (ops ++ after).map Prod.fst = opsCarriedOn (ops.map Prod.fst) session spec calls ∧
      (carryOn config session spec calls).run (handle kind) w =
        ((performedOn kind config submitted (ops ++ after)).commitTask config).run
          (handle kind) w := by
  let lastId := lastBranchId session.events
  let savepointId := lastSavepointId session.events lastId
  let branchId := if spec.preferredBranchId ≠ [] then spec.preferredBranchId else lastId
  let back : List SessionOp := if savepointId = [] then []
    else [.rollbackToSavepoint lastId savepointId]
  have hback : wentBack session = performedOn kind config session (back.map (·, w)) := by
    show (if savepointId = [] then session
      else (session.rollbackToSavepoint lastId savepointId).2) =
      performedOn kind config session
        ((if savepointId = [] then [] else [.rollbackToSavepoint lastId savepointId]).map (·, w))
    split <;> rfl
  have happend : ∀ (session : TaskSession) (ops ops' : List (SessionOp × World)),
      performedOn kind config session (ops ++ ops') =
          performedOn kind config (performedOn kind config session ops) ops' :=
    fun session ops ops' => List.foldl_append
  have hworks : ∀ op ∈ (calls branchId).map SessionCall.op, op.works = true :=
    List.forall_mem_map.2 fun call _ => works_op call
  refine ⟨(back ++ (calls branchId).map SessionCall.op ++
    [SessionOp.stageBranch branchId spec.score spec.summary]).map (·, w),
    List.forall_mem_map.2 fun _ _ => rfl, ?_, ?_⟩
  · simp only [opsCarriedOn, List.map_append, List.map_map, Function.comp_def,
      List.map_id', List.append_assoc]
    rfl
  · rw [carryOn, Program.run_bind, hback, run_performAll hworks, happend, ← hsession,
      List.map_append, happend, List.map_append, happend]
    rfl

/-- A task that carries on undisturbed does what the intents of the branch say that leads in the
end. -/
theorem run_carryOn_worked {submitted : TaskSession} {ops : List (SessionOp × World)}
    {first : Bytes} {ids : List Bytes} (hnodup : (first :: ids).Nodup)
    (hbranches : submitted.txn.branches = (first :: ids).map fun id => { branchId := id })
    (hsession : session = performedOn .memory config submitted ops)
    (hworks : ∀ op ∈ ops, op.1.works = true) (hnamed : ∀ op ∈ ops, op.1.NamesObject)
    (hstores : ∀ op ∈ ops, op.2.store = w.store) (spec : TaskContinuationSpec)
      {calls : Bytes → List SessionCall}
    (hcalls : ∀ branchId, ∀ call ∈ calls branchId, call.op.NamesObject) :
    let history := fun id => historyOn id (opsCarriedOn (ops.map Prod.fst) session spec calls)
    let intents := writtenIntents (history (leading (fun id => stagedScore (history id)) first ids))
    let out := (carryOn config session spec calls).run (handle .memory) w
    out.1.1 = .ok (allResolve intents w.store) ∧
      ∀ k, out.2.store.get k = if allResolve intents w.store then valueAfter intents w.store k
          else w.store.get k := by
  obtain ⟨after, hafter, hops, hrun⟩ :=
    @run_carryOn config session w .memory submitted ops hsession spec calls
  have hworks' : ∀ op ∈ (ops ++ after).map Prod.fst, op.works = true := by
    rw [hops]
    exact works_opsCarriedOn (List.forall_mem_map.2 hworks) session spec calls
  have hnamed' : ∀ op ∈ (ops ++ after).map Prod.fst, op.NamesObject := by
    rw [hops]
    exact namesObject_opsCarriedOn (List.forall_mem_map.2 hnamed) session spec hcalls
  have hcommit := @run_commitTask_worked config _ w _ _ _ config hnodup hbranches
    (List.forall_mem_map.1 hworks')
    (List.forall_mem_map.1 hnamed')
      (List.forall_mem_append.2 ⟨hstores, fun op hop => by rw [hafter op hop]⟩)
  rw [hops] at hcommit
  rw [hrun]
  exact hcommit

/-! ### Resumption -/

theorem Twins.setStatus {s : MemoryKVStore} {b b' : BranchContext} (h : Twins s b b')
    (status : BranchStatus) :
    Twins s b { b' with status } :=
  ⟨h.branchId, h.score, h.intentLog, h.savepoints, h.upToDate, h.upToDate'.congr rfl rfl rfl rfl⟩

/-- An execution keeps its target. -/
theorem returns_targetBranchId (config : FallbackCommitRuntimeConfig)
    (execution : TaskRecoveryExecution) :
    (executeRecoveryExecution config execution).Returns fun out => out.2.targetBranchId =
      execution.targetBranchId := by
  unfold executeRecoveryExecution
  cases execution.commandType with
  | noop => exact rfl
  | submitFreshTask =>
    refine (Program.returns_true _).bind fun submitted _ => ?_
    cases submitted <;> exact rfl
  | resumeBranch =>
    simp only
    cases execution.session.txn.findBranch execution.targetBranchId <;> exact rfl
  | resumeFromSavepoint =>
    simp only
    cases execution.session.txn.findBranch execution.targetBranchId with
    | none => exact rfl
    | some branch =>
      simp only
      split
      · exact rfl
      · split <;> exact rfl
  | revalidateCommit => exact (Program.returns_true _).bind fun out _ => rfl

/-- The execution that is built from the log of a task in work resumes a twin of the session
that went back. -/
theorem exists_resumed (hwork : WorkedOn .memory config (SessionOp.LogsAll w.store) session)
    (hlog : HoldsLog w path session) (hresumable : Resumable session) : ∃ execution resumed,
    (buildRecoveryExecutionFromLog config' path).run (handle .memory) w = (.ok execution, w) ∧
      (executeRecoveryExecution config' execution).run (handle .memory) w =
        ((.ok true, resumed), w) ∧
      resumed.targetBranchId = lastBranchId session.events ∧
      TwinTxns w.store (wentBack session).txn resumed.session.txn := by
  obtain ⟨metadata, recovered, hrun, hrecovers⟩ :=
    @InWork.recovers .memory _ _ _ hwork.inWork config' hlog
  have htwins := twins_recovered hwork hrecovers
  have hdecision : recovered.recoveryPlan.decision = recoverTaskSessionDecision path
      (writtenArtifact session metadata) := by
    rw [hrecovers.recoveryPlan]
    exact (isRecoveryPlan_buildTaskRecoveryPlan path _).decision
  have hdecided := hwork.inWork.decided path metadata
  rw [← hdecision] at hdecided
  have hcommand : (buildTaskRecoveryExecution recovered).commandType =
      (commandOf recovered.recoveryPlan.decision.action).1 := rfl
  have htarget : (buildTaskRecoveryExecution recovered).targetBranchId =
      lastBranchId session.events := hdecided.branchId
  have hbuilt : (buildRecoveryExecutionFromLog config' path).run (handle .memory) w =
      (.ok (buildTaskRecoveryExecution recovered), w) := by
    rw [buildRecoveryExecutionFromLog, Program.run_bind, hrun]
    rfl
  -- the branch and its twin
  obtain ⟨b, hb, hleft⟩ := hresumable
  have hfound := TwinTxns.findBranch htwins (lastBranchId session.events)
  rw [hb] at hfound
  obtain ⟨b', hb', htwin⟩ : ∃ b',
    recovered.session.txn.findBranch (lastBranchId session.events) = some b' ∧
      Twins w.store b b' := by
    cases hb' : recovered.session.txn.findBranch (lastBranchId session.events) with
    | none => rw [hb'] at hfound; cases hfound
    | some b' =>
      rw [hb'] at hfound
      cases hfound with
      | some htwin => exact ⟨b', rfl, htwin⟩
  have hmoved : (buildTaskRecoveryExecution recovered).session.txn = recovered.session.txn := rfl
  have hkept : ∀ resumed,
    (executeRecoveryExecution config' (buildTaskRecoveryExecution recovered)).run
    (handle .memory) w =
      ((.ok true, resumed), w) → resumed.targetBranchId = lastBranchId session.events := by
    intro resumed hexecuted
    have hreturned :=
      (returns_targetBranchId config' (buildTaskRecoveryExecution recovered)).interfered
      (Program.interfered_run (h := handle .memory) _ w)
    rw [hexecuted] at hreturned
    exact hreturned.trans htarget
  rcases hdecided.action with ⟨haction, hsavepoint, hne⟩ | ⟨haction, hnone⟩
  · have hcommand' : (buildTaskRecoveryExecution recovered).commandType = .resumeFromSavepoint :=
      hcommand.trans (by rw [haction]; rfl)
    have htargetSavepoint : (buildTaskRecoveryExecution recovered).targetSavepointId =
        lastSavepointId session.events (lastBranchId session.events) := hsavepoint
    have hcan : CanResume (buildTaskRecoveryExecution recovered) b' := by
      refine ⟨by rw [htarget]; exact hb', fun _ => ?_⟩
      rw [htwin.savepoints, htargetSavepoint]
      exact hleft.resolve_left hne
    obtain ⟨resumed, hexecuted, hresumed⟩ :=
      @run_executeRecoveryExecution .memory config' _ _ (.inr hcommand') hcan w
    refine ⟨_, resumed, hbuilt, hexecuted, hkept _ hexecuted, ?_⟩
    rw [hresumed.txn, hmoved, wentBack, if_neg hne, session.txn_rollbackToSavepoint,
      MirrorsTxn.rollbackToSavepoint_eq, hb, Option.elim_some, resumedBranch,
      if_pos hcommand', htargetSavepoint]
    exact TwinTxns.setBranch htwins ((htwin.rollbackToSavepoint _).setStatus .running)
  · have hcommand' : (buildTaskRecoveryExecution recovered).commandType = .resumeBranch :=
      hcommand.trans (by rw [haction]; rfl)
    have hcan : CanResume (buildTaskRecoveryExecution recovered) b' := by
      refine ⟨by rw [htarget]; exact hb', fun hsavepoint => ?_⟩
      rw [hcommand'] at hsavepoint
      cases hsavepoint
    obtain ⟨resumed, hexecuted, hresumed⟩ :=
      @run_executeRecoveryExecution .memory config' _ _ (.inl hcommand') hcan w
    refine ⟨_, resumed, hbuilt, hexecuted, hkept _ hexecuted, ?_⟩
    have hresumedBranch : resumedBranch (buildTaskRecoveryExecution recovered) b' = b' := by
      rw [resumedBranch, if_neg fun hsavepoint => by rw [hcommand'] at hsavepoint; cases hsavepoint]
    rw [hresumed.txn, hmoved, wentBack, if_pos hnone, hresumedBranch,
      ← AgentTxnContext.setBranch_of_findBranch hb]
    exact TwinTxns.setBranch htwins (htwin.setStatus .running)

theorem Resumable.lastBranchId_ne_nil (hresumable : Resumable session) (hwork : InWork session) :
    lastBranchId session.events ≠ [] := by
  obtain ⟨b, hb, -⟩ := hresumable
  have hid := BranchManager.branchId_of_findBranch hb
  have hmem : b.branchId ∈ session.plan.branchPlans.map (·.branchId) := by
    rw [← hwork.branchIds]
    exact List.mem_map_of_mem (BranchManager.mem_of_findBranch hb)
  obtain ⟨branchPlan, hplan, hsame⟩ := List.mem_map.1 hmem
  rw [← hid, ← hsame]
  exact (ExecutionPlan.validate_ok hwork.valid).named branchPlan hplan

/-- What the continuation of a resumed twin does, the session itself would have done. -/
theorem continued_of_twins {execution resumed : TaskRecoveryExecution}
    (hexecuted : (executeRecoveryExecution config' execution).run (handle .memory) w =
      ((.ok true, resumed), w))
    (htarget : resumed.targetBranchId = lastBranchId session.events)
    (hnamed : lastBranchId session.events ≠ [])
    (htwins : TwinTxns w.store (wentBack session).txn resumed.session.txn)
    (spec : TaskContinuationSpec) {calls : Bytes → List SessionCall}
    (hcalls : ∀ branchId, ∀ call ∈ calls branchId, call.op.NamesObject) :
    let recovered :=
  (continueRecoveredTask config' execution spec fun _ branchId => callsWork (calls branchId)).run
      (handle .memory) w
    let alive := (carryOn config session spec calls).run (handle .memory) w
    recovered.1.1 = alive.1.1 ∧ ∀ k, recovered.2.store.get k = alive.2.store.get k := by
  have hbranch : continuationBranch resumed spec =
      if spec.preferredBranchId ≠ [] then spec.preferredBranchId
          else lastBranchId session.events := by
    rw [continuationBranch, htarget, if_pos hnamed]
  have hne : continuationBranch resumed spec ≠ [] := by
    rw [hbranch]
    split
    next hpreferred => exact hpreferred
    next => exact hnamed
  have hworks : ∀ op ∈ (calls (continuationBranch resumed spec)).map SessionCall.op,
      op.works = true :=
    List.forall_mem_map.2 fun call _ => works_op call
  have hperformed := @TwinTxns.performedOn .memory config config' _ _ _ _ htwins _ hworks
    (List.forall_mem_map.2 (hcalls _)) (rfl : w.store = w.store)
  have hcommits := @TwinTxns.commitTask config config' _ _ _
    (@TwinTxns.perform .memory config config' w.store w _ _ hperformed
      (.stageBranch (continuationBranch resumed spec) spec.score spec.summary) rfl trivial rfl)
  have hrecovered : ∀ callback : TaskContinuationCallback,
    (continueRecoveredTask config' execution spec callback).run
      (handle .memory) w = (continueExecuted config' resumed spec callback).run
          (handle .memory) w := by
    intro callback
    rw [continueRecoveredTask, Program.run_bind, hexecuted]
  rw [hrecovered, continueExecuted, if_neg hne]
  simp only [Program.run_bind, run_callsWork config', Bool.not_true, Bool.false_eq_true,
    ↓reduceIte, Program.pure_eq_ret, Program.run_ret]
  simp only [carryOn, Program.run_bind, ← hbranch, run_performAll hworks]
  exact hcommits

end DataAgentSystem.Runtime
