import DataAgentSystem.Runtime.CrashPoints
import DataAgentSystem.Workloads.RecoveryHandlers

/-! The minimal candidate task: three branches read the input and write a candidate each,
and the second one wins. Wherever among this work the task is lost, what the built-in
handlers make of its log is the same: the recovered result is committed, and nothing else. -/

namespace DataAgentSystem.Workloads

open Text Intent Cache Branch Storage Interaction Containers AgentTxn DataAgentSystem.Runtime

def buildMinimalCandidateTaskContext (taskId inputKey outputKey : Bytes) : TaskContext :=
  let task : TaskContext := {
    taskId
    objective := ascii "generate candidate outputs and commit winner"
    workloadName := ascii "agent_task.minimal_candidate_task"
    plannerId := ascii "minimal_candidate_planner" }
  task.addInputObject inputKey (ascii "task_input")
    |>.addOutputObject outputKey (ascii "task_output")
    |>.setMetadata (ascii "branch_count") (ascii "3")

def buildMinimalCandidateExecutionPlan : ExecutionPlan :=
  ExecutionPlan.addBranchPlan {} (ascii "branch_A") (ascii "candidate_A")
    (ascii "baseline candidate") (.finite 72)
    |>.addBranchPlan (ascii "branch_B") (ascii "candidate_B") (ascii "best candidate") (.finite 91)
    |>.addBranchPlan (ascii "branch_C") (ascii "candidate_C") (ascii "fallback candidate")
      (.finite 65)

def executeMinimalCandidateBranches (session : TaskSession) (inputKey outputKey : Bytes) :
    Prog TaskSession := do
  let (_, session) ← session.read (ascii "branch_A") inputKey
  let session ← session.write (ascii "branch_A") outputKey .text
    { objectId := outputKey, intentType := .overwrite, payload := ascii "result_A" }
  let session := session.stageBranch (ascii "branch_A") (.finite 72) (ascii "candidate A")
  let (_, session) ← session.read (ascii "branch_B") inputKey
  let session ← session.write (ascii "branch_B") outputKey .text
    { objectId := outputKey, intentType := .overwrite, payload := ascii "result_B" }
  let session := session.stageBranch (ascii "branch_B") (.finite 91) (ascii "candidate B")
  let (_, session) ← session.read (ascii "branch_C") inputKey
  let session ← session.write (ascii "branch_C") outputKey .text
    { objectId := outputKey, intentType := .overwrite, payload := ascii "result_C" }
  return session.stageBranch (ascii "branch_C") (.finite 65) (ascii "candidate C")

def runMinimalCandidateTask (config : FallbackCommitRuntimeConfig)
    (taskId inputKey outputKey : Bytes) :
    Prog (Except Bytes TaskSession) := do
  match ← submitTask config (buildMinimalCandidateTaskContext taskId inputKey outputKey)
      buildMinimalCandidateExecutionPlan with
  | .error what => return .error what
  | .ok session =>
    let session ← executeMinimalCandidateBranches session inputKey outputKey
    match ← session.commitTask config with
    | (.error what, _) => return .error what
    | (.ok _, session) => return .ok session

variable {config : FallbackCommitRuntimeConfig} {taskId inputKey outputKey path : Bytes}
  {v w : World} {submitted : TaskSession} {ops : List (SessionOp × World)}

/-! ### The work -/

/-- Read the input, write the output, be staged. -/
def candidateWork (inputKey outputKey branchId result : Bytes) (score : Double) (summary : Bytes) :
    BranchWork where
  branchId
  ops := [.read inputKey,
    .write outputKey .text { objectId := outputKey, intentType := .overwrite, payload := result }]
  score
  summary

def candidateA (inputKey outputKey : Bytes) : BranchWork :=
  candidateWork inputKey outputKey (ascii "branch_A") (ascii "result_A")
    (.finite 72) (ascii "candidate A")

def candidateB (inputKey outputKey : Bytes) : BranchWork :=
  candidateWork inputKey outputKey (ascii "branch_B") (ascii "result_B")
    (.finite 91) (ascii "candidate B")

def candidateC (inputKey outputKey : Bytes) : BranchWork :=
  candidateWork inputKey outputKey (ascii "branch_C") (ascii "result_C")
    (.finite 65) (ascii "candidate C")

def candidateWorks (inputKey outputKey : Bytes) : List BranchWork :=
  [candidateA inputKey outputKey, candidateB inputKey outputKey, candidateC inputKey outputKey]

theorem executeMinimalCandidateBranches_eq (config : FallbackCommitRuntimeConfig)
    (session : TaskSession) (inputKey outputKey : Bytes) :
    executeMinimalCandidateBranches session inputKey outputKey =
      performAll config (sessionOps (candidateWorks inputKey outputKey)) session := by
  simp [executeMinimalCandidateBranches, sessionOps, candidateWorks, candidateA, candidateB,
    candidateC, candidateWork, BranchWork.allOps, onSession, Runtime.performAll, SessionOp.perform]

theorem branchIds_minimalPlan : buildMinimalCandidateExecutionPlan.branchPlans.map (·.branchId) =
    [ascii "branch_A", ascii "branch_B", ascii "branch_C"] := rfl

theorem named_candidateWorks (inputKey outputKey : Bytes) :
    ∀ work ∈ candidateWorks inputKey outputKey, ∀ op ∈ work.ops, op.Named := by
  simp [candidateWorks, candidateA, candidateB, candidateC, candidateWork, BranchOp.Named]

/-- Undisturbed, the task commits the second candidate. -/
theorem run_runMinimalCandidateTask (htask : taskId ≠ []) (config : FallbackCommitRuntimeConfig)
    (inputKey outputKey : Bytes) (w : World) : ∃ session w',
    (runMinimalCandidateTask config taskId inputKey outputKey).run (handle .memory) w =
      (.ok session, w') ∧ session.committed = true ∧ ∀ k, w'.store.get k =
        if k = outputKey then
          { value := ascii "result_B", version := (w.store.get k).version + 1, exists_ := true }
        else w.store.get k := by
  rcases @run_submitTask .memory config (buildMinimalCandidateTaskContext taskId inputKey outputKey)
    buildMinimalCandidateExecutionPlan w with ⟨-, -, submitted, hsubmit, hsubmitted⟩ | ⟨hinvalid, -⟩
  · have hbranches : submitted.txn.branches = (candidateWorks inputKey outputKey).map fun work =>
        { branchId := work.branchId } := by
      rw [hsubmitted.branches]
      rfl
    have hnodup : ((candidateWorks inputKey outputKey).map (·.branchId)).Nodup := by
      simp [candidateWorks, candidateA, candidateB, candidateC, candidateWork]
      decide
    have hperformed := @run_performAll .memory config
      _ (works_sessionOps (candidateWorks inputKey outputKey)) submitted w
    have hwritten : writtenIntents (leading BranchWork.score (candidateA inputKey outputKey)
        [candidateB inputKey outputKey, candidateC inputKey outputKey]).ops =
          [] ++ [{ objectId := outputKey, intentType := .overwrite, payload := ascii "result_B" }] := rfl
    obtain ⟨hresolves, hvalue⟩ := @ends_overwritten [] {
      objectId := outputKey, intentType := .overwrite, payload := ascii "result_B" }
        (fun _ h => absurd h List.not_mem_nil) rfl w.store
    obtain ⟨hresult, hstore⟩ := @run_commitTask_planned config _ w _ _ hnodup
      (named_candidateWorks inputKey outputKey) hbranches
    rw [hwritten] at hresult hstore
    simp only [hresolves, hvalue, if_true] at hresult hstore
    rw [runMinimalCandidateTask, Program.run_bind, hsubmit]
    simp only [Program.run_bind, executeMinimalCandidateBranches_eq config, hperformed]
    unfold candidateWorks
    have hflag := (returns_committed config _).interfered
        (Program.interfered_run (h := handle .memory) _ w) _ hresult
    generalize ((performedOn .memory config submitted _).commitTask config).run
      (handle .memory) w = out
      at hresult hstore hflag ⊢
    obtain ⟨⟨result, ended⟩, w'⟩ := out
    cases hresult
    exact ⟨ended, w', rfl, hflag, hstore⟩
  · refine absurd ⟨?_, by decide⟩ hinvalid
    have hobjective : ascii "generate candidate outputs and commit winner" ≠ [] := by decide
    exact (if_neg htask).trans (if_neg hobjective)

/-! ### A crash among the work -/

/-- Whatever of a candidate's work has been done, the log keeps it, and what overwrites the
output later comes last. -/
theorem history_candidateWork {branchId result summary : Bytes} {score : Double}
    {history : List BranchOp}
    (h : history <+: (candidateWork inputKey outputKey branchId result score summary).allOps) :
    (stagedScore history = .finite 0 ∨ stagedScore history = score) ∧ lastSaved history = [] ∧
      ∀ (intent : WriteIntent) (score' : Double) (summary' : Bytes), ∃ front,
        (∀ intent ∈ front, intent.objectId = outputKey) ∧
          writtenIntents
            (history ++ ([.read inputKey, .write outputKey .text intent] ++
              [.stage score' summary'])) =
            front ++ [intent] := by
  have hfirst : ∀ intent : WriteIntent, intent.objectId = outputKey → ∀ other ∈ [intent],
      other.objectId = outputKey :=
    fun intent hid => List.forall_mem_singleton.2 hid
  simp only [candidateWork, BranchWork.allOps, List.cons_append, List.nil_append,
    List.prefix_cons_iff, List.prefix_nil] at h
  rcases h with rfl | ⟨history, rfl, rfl | ⟨history, rfl, rfl | ⟨history, rfl, rfl⟩⟩⟩
  · exact ⟨.inl rfl, rfl, fun intent _ _ => ⟨[], fun _ h => absurd h List.not_mem_nil, rfl⟩⟩
  · exact ⟨.inl rfl, rfl, fun intent _ _ => ⟨[], fun _ h => absurd h List.not_mem_nil, rfl⟩⟩
  · exact ⟨.inl rfl, rfl, fun intent _ _ => ⟨_, hfirst _ rfl, rfl⟩⟩
  · exact ⟨.inr rfl, rfl, fun intent _ _ => ⟨_, hfirst _ rfl, rfl⟩⟩

theorem begins_candidateWorks {s : MemoryKVStore}
    (hlead : ops.map Prod.fst <+: sessionOps (candidateWorks inputKey outputKey))
    (hstores : ∀ op ∈ ops, op.2.store = s) :
    BeginsWork s buildMinimalCandidateExecutionPlan (candidateWorks inputKey outputKey) ops := by
  refine ⟨rfl, ?_, hlead, hstores⟩
  have hscores : ∀ score ∈ [Double.finite 72, .finite 91, .finite 65],
      score = .ofInt64 score.toInt64 := by decide
  simp only [List.forall_mem_cons, List.not_mem_nil, false_implies,
    implies_true, and_true] at hscores
  simp only [candidateWorks, candidateA, candidateB, candidateC, candidateWork,
    BranchWork.allOps, List.cons_append, List.nil_append, List.forall_mem_cons, List.not_mem_nil,
    false_implies, implies_true, and_true]
  exact ⟨⟨trivial, ⟨rfl, rfl⟩, hscores.1⟩, ⟨trivial, ⟨rfl, rfl⟩, hscores.2.1⟩,
    ⟨trivial, ⟨rfl, rfl⟩, hscores.2.2⟩⟩

/-- How the built-in handler goes on. -/
def minimalRecoverySpec : TaskContinuationSpec where
  preferredBranchId := ascii "branch_B"
  score := .finite 101
  summary := ascii "recovered minimal candidate task"

/-- The handler finds the keys of the task. -/
theorem dispatch_minimalCandidate (registry : TaskContinuationRegistry)
    (hinput : inputKey ≠ []) (houtput : outputKey ≠ [])
    {session : TaskSession}
    (hsubmit : ((submitTask config (buildMinimalCandidateTaskContext taskId inputKey outputKey)
      buildMinimalCandidateExecutionPlan).run (handle .memory) v).1 = .ok submitted)
    (hcontinues : Continues submitted session) (hrecoverable : Recoverable session)
    (hlog : HoldsLog w path session) (config' : FallbackCommitRuntimeConfig) :
    ∃ execution, (buildRecoveryExecutionFromLog config' path).run (handle .memory) w =
      (.ok execution, w) ∧
      (registerBuiltinRecoveryHandlers registry).2.continue_ config' execution =
        continueRecoveredTask config' execution minimalRecoverySpec fun _ branchId =>
          callsWork (overwriteCalls inputKey outputKey (ascii "recovered_agent_result")
              branchId) := by
  obtain ⟨-, -, hsubmitted⟩ := isSubmitted_of_submitTask hsubmit
  have htask : session.task =
      { buildMinimalCandidateTaskContext taskId inputKey outputKey with phase := .running } :=
    hcontinues.task.trans hsubmitted.task
  have hinputs : session.task.inputObjects =
      [{ objectId := inputKey, objectRole := ascii "task_input" }] := by rw [htask]; rfl
  have houtputs : session.task.outputObjects =
      [{ objectId := outputKey, objectRole := ascii "task_output" }] := by rw [htask]; rfl
  have hkeys : session.task.metadata.keys = [ascii "branch_count"] := by rw [htask]; rfl
  have hnamed : session.task.Named := by
    refine ⟨?_, ?_, ?_, ?_, ?_, ?_⟩
    · simpa [hinputs] using hinput
    · simpa [houtputs] using houtput
    · rw [hkeys]
      decide
    · simp [hinputs]
    · simp [houtputs]
    · rw [hkeys]
      decide
  have hworkload : session.task.workloadName = ascii "agent_task.minimal_candidate_task" := by
    rw [htask]; rfl
  obtain ⟨execution, hbuilt, hname, hinputs', houtputs', -⟩ :=
    @buildRecoveryExecutionFromLog_objects .memory _ _ _ config'
    hrecoverable hlog (by rw [hworkload]; decide) hnamed (by simp [hinputs]) (by simp [houtputs])
  refine ⟨execution, hbuilt, ?_⟩
  rw [TaskContinuationRegistry.continue_of_findHandler (by decide) (hname.trans hworkload)
    (findHandler_builtin registry).2.1, continueRecoveredMinimalCandidateTask, hinputs',
      houtputs', hinputs, houtputs]
  exact if_neg houtput

/-- The calls of the handler go to the second branch, on top of what it has done. -/
theorem historyOn_minimalRecovery {session : TaskSession} (hinput : inputKey ≠ [])
    (hnone : lastSavepointId session.events (lastBranchId session.events) = [])
    (ops : List SessionOp) (id : Bytes) :
    historyOn id (opsCarriedOn ops session minimalRecoverySpec
        (overwriteCalls inputKey outputKey (ascii "recovered_agent_result"))) =
      historyOn id ops ++ if ascii "branch_B" = id then
        [.read inputKey, .write outputKey .text {
          objectId := outputKey, intentType := .overwrite,
          payload := ascii "recovered_agent_result" }] ++
        [.stage (.finite 101) (ascii "recovered minimal candidate task")] else [] := by
  have hpreferred : minimalRecoverySpec.preferredBranchId ≠ [] := by decide
  have hcalls : ∀ branchId,
    overwriteCalls inputKey outputKey (ascii "recovered_agent_result") branchId =
      [.read branchId inputKey, .write branchId outputKey .text {
        objectId := outputKey, intentType := .overwrite,
        payload := ascii "recovered_agent_result" }] := by
    intro branchId
    rw [overwriteCalls, if_neg hinput]
    rfl
  rw [historyOn_opsCarriedOn id ops session minimalRecoverySpec fun branchId => by
    rw [hcalls]
    exact List.forall_mem_cons.2 ⟨rfl, List.forall_mem_singleton.2 rfl⟩]
  simp only [hnone, ne_eq, not_true_eq_false, false_and, if_false, List.append_nil,
    if_pos hpreferred, hcalls]
  rfl

/-- No other branch is staged as high as the recovery stages the second one. -/
theorem leading_minimalRecovery {history : Bytes → List BranchOp}
    (hA : stagedScore (history (ascii "branch_A")) = .finite 0 ∨
      stagedScore (history (ascii "branch_A")) = .finite 72)
    (hC : stagedScore (history (ascii "branch_C")) = .finite 0 ∨
      stagedScore (history (ascii "branch_C")) = .finite 65)
    (front : List BranchOp) (summary : Bytes) :
    leading (fun id => stagedScore
      (history id ++ if ascii "branch_B" = id then front ++ [.stage (.finite 101) summary] else []))
      (ascii "branch_A") [ascii "branch_B", ascii "branch_C"] = ascii "branch_B" := by
  have hB : stagedScore (history (ascii "branch_B") ++ (front ++ [.stage (.finite 101) summary])) =
      .finite 101 := by
    rw [← List.append_assoc, stagedScore, List.foldl_concat]
  have hne : ascii "branch_B" ≠ ascii "branch_A" := by decide
  have hne' : ascii "branch_B" ≠ ascii "branch_C" := by decide
  simp only [leading, if_neg hne, if_neg hne', if_true, List.append_nil, hB]
  rcases hA with hA | hA <;> rcases hC with hC | hC <;> rw [hA, hC] <;> rfl

/-- Wherever the task is lost, as long as the store is as it was, the built-in handlers commit
the recovered result from its log, and that is all they do to the store. -/
theorem continue_minimalCandidate (registry : TaskContinuationRegistry)
    (hinput : inputKey ≠ []) (houtput : outputKey ≠ [])
    (hsubmit : ((submitTask config (buildMinimalCandidateTaskContext taskId inputKey outputKey)
      buildMinimalCandidateExecutionPlan).run (handle .memory) v).1 = .ok submitted)
    (hlead : ops.map Prod.fst <+: sessionOps (candidateWorks inputKey outputKey))
    (hstores : ∀ op ∈ ops, op.2.store = w.store)
    (hlog : HoldsLog w path (performedOn .memory config submitted ops))
    (config' : FallbackCommitRuntimeConfig) :
    ∃ execution, (buildRecoveryExecutionFromLog config' path).run (handle .memory) w =
      (.ok execution, w) ∧
      let out := ((registerBuiltinRecoveryHandlers registry).2.continue_ config' execution).run
        (handle .memory) w
      out.1.1 = .ok true ∧ ∀ k, out.2.store.get k =
        if k = outputKey then
          { value := ascii "recovered_agent_result", version := (w.store.get k).version + 1,
            exists_ := true }
        else w.store.get k := by
  have hbegins := begins_candidateWorks hlead hstores
  obtain ⟨-, hvalid, hsubmitted⟩ := isSubmitted_of_submitTask hsubmit
  have hworked := @workSteps_performedOn .memory config submitted _ _ hbegins.works hbegins.logsAll
  have hwork : WorkedOn .memory config (SessionOp.LogsAll w.store)
      (performedOn .memory config submitted ops) :=
    ⟨_, _, v, submitted, hsubmit, hworked⟩
  -- no branch has a savepoint, so there is none to go back to
  have hhistory : ∀ work ∈ candidateWorks inputKey outputKey,
      lastSaved (historyOn work.branchId (ops.map Prod.fst)) = [] := by
    intro work hwork
    have hbegun := hbegins.history hvalid hwork
    simp only [candidateWorks, List.mem_cons, List.not_mem_nil, or_false] at hwork
    rcases hwork with rfl | rfl | rfl <;> exact (history_candidateWork hbegun).2.1
  have hlast := @BeginsWork.lastBranchId_mem .memory config _ _ _ _ _ _ _ hbegins hsubmit
  have hnone : lastSaved (historyOn (lastBranchId (performedOn .memory config submitted ops).events)
      (ops.map Prod.fst)) = [] := by
    obtain ⟨work, hmem, hid⟩ := List.mem_map.1 hlast
    rw [← hid]
    exact hhistory work hmem
  have hresumable := resumable_performedOn hsubmit hbegins.works hlast (.inl hnone)
  obtain ⟨execution, hbuilt, hcontinue⟩ := dispatch_minimalCandidate registry hinput houtput hsubmit
    (continues_of_work hworked) hwork.inWork.recoverable hlog config'
  obtain ⟨execution', hbuilt', hresult, hstore⟩ :=
    @continueRecoveredTask_reports config _ _ _ _ _ _ _ config' _ _ _ hsubmit
    branchIds_minimalPlan hbegins.works hbegins.logsAll rfl hlog hresumable minimalRecoverySpec
    (overwriteCalls inputKey outputKey (ascii "recovered_agent_result")) (by
      intro branchId
      simp [overwriteCalls, hinput, SessionCall.op, SessionOp.NamesObject])
  rw [hbuilt, Prod.mk.injEq, Except.ok.injEq] at hbuilt'
  obtain ⟨rfl, -⟩ := hbuilt'
  refine ⟨execution, hbuilt, ?_⟩
  rw [← lastSavepointId_performedOn hsubmit hbegins.works] at hnone
  simp only [historyOn_minimalRecovery hinput hnone] at hresult hstore
  have hmem : ∀ work ∈ candidateWorks inputKey outputKey,
      historyOn work.branchId (ops.map Prod.fst) <+: work.allOps :=
    fun work hwork => hbegins.history hvalid hwork
  simp only [candidateWorks, List.forall_mem_cons, List.not_mem_nil, false_implies,
    implies_true, and_true] at hmem
  obtain ⟨hA, hB, hC⟩ := hmem
  rw [leading_minimalRecovery (history_candidateWork hA).1 (history_candidateWork hC).1,
    if_pos rfl] at hresult hstore
  -- the recovered result is the last intent of the second branch
  let recovered : WriteIntent :=
      { objectId := outputKey, intentType := .overwrite, payload := ascii "recovered_agent_result" }
  obtain ⟨front, hfront, hwritten⟩ := (history_candidateWork hB).2.2 recovered (.finite 101)
    (ascii "recovered minimal candidate task")
  obtain ⟨hresolves, hvalue⟩ := @ends_overwritten front recovered hfront rfl w.store
  have hid : (candidateB inputKey outputKey).branchId = ascii "branch_B" := rfl
  rw [hid] at hwritten
  rw [hwritten, hresolves] at hresult hstore
  simp only [hvalue, if_true] at hstore
  rw [hcontinue]
  exact ⟨hresult, hstore⟩

/-- The task on two keys, submitted. -/
def submittedCandidates : TaskSession :=
  match ((submitTask {} (buildMinimalCandidateTaskContext (ascii "1") (ascii "i") (ascii "o"))
    buildMinimalCandidateExecutionPlan).run (handle .memory) {}).1 with
  | .ok session => session
  | .error _ => {}

/-- The first branch has read and written. -/
def candidateSteps : List (SessionOp × World) :=
  ((sessionOps (candidateWorks (ascii "i") (ascii "o"))).take 2).map (·, {})

theorem continue_minimalCandidate_twoSteps :
    let session := performedOn .memory {} submittedCandidates candidateSteps
    let w := ((writeTaskEventLogArtifact session [(ascii "branch_count", ascii "3")]
      (ascii "log")).run (handle .memory) {}).2
    ∃ execution, (buildRecoveryExecutionFromLog {} (ascii "log")).run (handle .memory) w =
      (.ok execution, w) ∧
      let out := ((registerBuiltinRecoveryHandlers {}).2.continue_ {} execution).run
        (handle .memory) w
      out.1.1 = .ok true ∧ ∀ k, out.2.store.get k =
        if k = ascii "o" then
          { value := ascii "recovered_agent_result", version := (w.store.get k).version + 1,
            exists_ := true }
        else w.store.get k := by
  intro session w
  have hlog : HoldsLog w (ascii "log") session :=
    holdsLog_writeTaskEventLogArtifact (List.Perm.refl _) .memory (ascii "log") {}
  have hlead : candidateSteps.map Prod.fst <+:
      sessionOps (candidateWorks (ascii "i") (ascii "o")) := by
    rw [candidateSteps, List.map_map]
    exact (List.map_id' _).symm ▸ List.take_prefix 2 _
  exact @continue_minimalCandidate {} (ascii "1") (ascii "i") (ascii "o") (ascii "log") {} w
    submittedCandidates candidateSteps
    {} (by decide) (by decide) rfl hlead (List.forall_mem_map.2 fun _ _ => rfl) hlog {}

end DataAgentSystem.Workloads
