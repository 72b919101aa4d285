import DataAgentSystem.AgentTxn.CommitVerdict
import DataAgentSystem.AgentTxn.CommitLogFile
import DataAgentSystem.Runtime.PlannedWork
import DataAgentSystem.Runtime.TaskEventLog

/-! The synthetic experiment. Each of its tasks seeds an input and an output, lets every
branch read the one and overwrite the other, and commits; before every so many commits
the input is changed, and those commits are refused. What the experiment reports and
what it leaves in the store can be told from its configuration. -/

namespace DataAgentSystem.Workloads

open Text Intent Cache Branch Storage Interaction Containers AgentTxn AgentTxnManager
  CommitManager DataAgentSystem.Runtime

structure SyntheticRunConfig where
  taskCount : ℕ := 10
  branchCount : ℕ := 3
  conflictEvery : ℕ := 3
  commitLogDir : Bytes := []
  taskEventLogDir : Bytes := []

structure SyntheticTaskRecord where
  taskId : Bytes := []
  committed : Bool := false
  branchCount : ℕ := 0
  plannedLoserCount : ℕ := 0
  winnerCommitCount : ℕ := 0
  realAbortCount : ℕ := 0
  conflictAbortCount : ℕ := 0
  validationFailCount : ℕ := 0
  retryCount : ℕ := 0
  commitLatencyUs : PrintedNumber := ⟨ascii "0", newline_notMem_zero⟩
  commitLogPath : Bytes := []
  commitLogEntryCount : ℕ := 0
  taskEventLogPath : Bytes := []
  taskEventCount : ℕ := 0

structure SyntheticRunResult where
  taskCount : ℕ := 0
  committedTaskCount : ℕ := 0
  abortedTaskCount : ℕ := 0
  tasks : List SyntheticTaskRecord := []

def appendTaskRecord (result : SyntheticRunResult) (record : SyntheticTaskRecord) :
    SyntheticRunResult :=
  let result :=
      if record.committed then { result with committedTaskCount := result.committedTaskCount + 1 }
    else { result with abortedTaskCount := result.abortedTaskCount + 1 }
  { result with tasks := result.tasks ++ [record] }

def syntheticTaskId (taskIndex : ℕ) : Bytes := ascii "task_" ++ decimal taskIndex

def syntheticInputKey (taskIndex : ℕ) : Bytes := ascii "input:" ++ syntheticTaskId taskIndex

def syntheticOutputKey (taskIndex : ℕ) : Bytes := ascii "output:" ++ syntheticTaskId taskIndex

def syntheticBranchId (i : ℕ) : Bytes := ascii "branch_" ++ decimal i

/-- A `size_t` as a `double`. -/
def ofSize (n : ℕ) : Double := .finite (Double.roundMantissa n)

def syntheticTask (config : SyntheticRunConfig) (taskIndex : ℕ) : TaskContext :=
  let task : TaskContext := {
    taskId := syntheticTaskId taskIndex
    objective := ascii "synthetic candidate-selection workload"
    workloadName := ascii "synthetic.candidate_selection"
    plannerId := ascii "synthetic_planner" }
  task.addInputObject (syntheticInputKey taskIndex) (ascii "synthetic_input")
    |>.addOutputObject (syntheticOutputKey taskIndex) (ascii "synthetic_output")
    |>.setMetadata (ascii "task_index") (decimal taskIndex)
    |>.setMetadata (ascii "branch_count") (decimal config.branchCount)

def syntheticPlan (config : SyntheticRunConfig) : ExecutionPlan :=
  (List.range config.branchCount).foldl
    (fun plan i => plan.addBranchPlan (syntheticBranchId i) (ascii "candidate_" ++ decimal i)
      (ascii "synthetic candidate " ++ decimal i) (ofSize i)) {}

/-- One round of the loop over the branches. The first branch writes something and takes it back. -/
def workSyntheticBranch (taskIndex i : ℕ) (branchId : Bytes) (session : TaskSession) :
    Prog TaskSession := do
  let inputKey := syntheticInputKey taskIndex
  let outputKey := syntheticOutputKey taskIndex
  let (_, session) ← session.read branchId inputKey
  let session ← if i = 0 then do
      let session := session.savepoint branchId (ascii "before_write")
      let session ← session.write branchId outputKey .text
        { objectId := outputKey, intentType := .append, payload := ascii "::tentative" }
      pure (session.rollbackToSavepoint branchId (ascii "before_write")).2
    else pure session
  let session ← session.write branchId outputKey .text {
    objectId := outputKey
    intentType := .overwrite
    payload := ascii "result_" ++ decimal taskIndex ++ ascii "_" ++ decimal i }
  return session.stageBranch branchId (ofSize (((i + 1) * 10 + taskIndex) % 2 ^ 64))
    (ascii "candidate_" ++ decimal i)

/-- The rounds from the `i`-th on. -/
def workSyntheticBranches (taskIndex : ℕ) : ℕ → List Bytes → TaskSession → Prog TaskSession
  | _, [], session => return session
  | i, branchId :: branchIds, session => do
    workSyntheticBranches taskIndex (i + 1) branchIds
      (← workSyntheticBranch taskIndex i branchId session)

/-- Whether the input is changed before the commit. An index is below the number of the
tasks, so that its successor does not wrap. -/
def SyntheticRunConfig.injectConflict (config : SyntheticRunConfig) (taskIndex : ℕ) : Bool :=
  config.conflictEvery ≠ 0 ∧ (taskIndex + 1) % config.conflictEvery = 0

/-- The metrics that are known after the commit. -/
def withCommitMetrics (session : TaskSession) (committed injectConflict : Bool) : TaskSession :=
  let success := session.txn.validationResult.success
  { session with txn := { session.txn with metrics := { session.txn.metrics with
      winnerCommitCount := if committed then 1 else 0
      realAbortCount := if committed then 0 else 1
      conflictAbortCount := if !committed && injectConflict && !success then 1 else 0
      validationFailCount := if !success then 1 else 0 } } }

/-- The record of a task, with its logs written where they are to be. -/
def reportTask (config : SyntheticRunConfig) (commitLatencyUs : PrintedNumber)
    (iterate : UnorderedMap Bytes → List (Bytes × Bytes)) (taskIndex : ℕ) (committed : Bool)
    (session : TaskSession) :
    Prog SyntheticTaskRecord := do
  let taskId := syntheticTaskId taskIndex
  let metrics := session.txn.metrics
  let record : SyntheticTaskRecord := {
    taskId
    committed
    branchCount := metrics.branchCount
    plannedLoserCount := metrics.plannedLoserCount
    winnerCommitCount := metrics.winnerCommitCount
    realAbortCount := metrics.realAbortCount
    conflictAbortCount := metrics.conflictAbortCount
    validationFailCount := metrics.validationFailCount
    retryCount := metrics.retryCount
    commitLatencyUs
    commitLogEntryCount := session.txn.commitLog.entries.length
    taskEventCount := session.events.length }
  let record ← if config.commitLogDir ≠ [] then do
      let commitLogPath := config.commitLogDir ++ ascii "/" ++ taskId ++ ascii ".commit.log"
      let _ ← writeCommitLogArtifact session.txn commitLatencyUs commitLogPath
      pure { record with commitLogPath }
    else pure record
  if config.taskEventLogDir ≠ [] then do
    let taskEventLogPath := config.taskEventLogDir ++ ascii "/" ++ taskId ++ ascii ".task.log"
    let _ ← writeTaskEventLogArtifact session (iterate session.task.metadata) taskEventLogPath
    return { record with taskEventLogPath }
  else return record

/-- The commit of a task and its report. -/
def finishTask (runtime : FallbackCommitRuntimeConfig) (config : SyntheticRunConfig)
    (commitLatencyUs : PrintedNumber) (iterate : UnorderedMap Bytes → List (Bytes × Bytes))
    (taskIndex : ℕ) (session : TaskSession) :
    Prog (Except Bytes SyntheticTaskRecord) := do
  match ← session.commitTask runtime with
  | (.error what, _) => return .error what
  | (.ok committed, session) =>
    return .ok (← reportTask config commitLatencyUs iterate taskIndex committed
      (withCommitMetrics session committed (config.injectConflict taskIndex)))

def runOneTask (runtime : FallbackCommitRuntimeConfig) (config : SyntheticRunConfig)
    (commitLatencyUs : PrintedNumber) (iterate : UnorderedMap Bytes → List (Bytes × Bytes))
    (taskIndex : ℕ) : Prog (Except Bytes SyntheticTaskRecord) := do
  let inputKey := syntheticInputKey taskIndex
  let outputKey := syntheticOutputKey taskIndex
  let _ ← Store.put inputKey (ascii "seed_" ++ decimal taskIndex)
  let _ ← Store.put outputKey (ascii "draft_" ++ decimal taskIndex)
  let plan := syntheticPlan config
  match ← submitTask runtime (syntheticTask config taskIndex) plan with
  | .error what => return .error what
  | .ok session =>
    let branchIds := plan.branchPlans.map (·.branchId)
    let session ← workSyntheticBranches taskIndex 0 branchIds
      (withPlannedMetrics session branchIds.length)
    if config.injectConflict taskIndex then
      let _ ← Store.put inputKey (ascii "mutated_" ++ decimal taskIndex)
    finishTask runtime config commitLatencyUs iterate taskIndex session

/-- The tasks with these indices, in order. -/
def runTasks (runtime : FallbackCommitRuntimeConfig) (config : SyntheticRunConfig)
    (commitLatencyUs : ℕ → PrintedNumber) (iterate : UnorderedMap Bytes → List (Bytes × Bytes)) :
    List ℕ → SyntheticRunResult → Prog (Except Bytes SyntheticRunResult)
  | [], result => return .ok result
  | taskIndex :: taskIndices, result => do
    match ← runOneTask runtime config (commitLatencyUs taskIndex) iterate taskIndex with
    | .error what => return .error what
    | .ok record =>
      runTasks runtime config commitLatencyUs iterate taskIndices (appendTaskRecord result record)

def runSyntheticExperimentWithStore (runtime : FallbackCommitRuntimeConfig)
    (config : SyntheticRunConfig) (commitLatencyUs : ℕ → PrintedNumber)
    (iterate : UnorderedMap Bytes → List (Bytes × Bytes)) :
    Prog (Except Bytes SyntheticRunResult) :=
  runTasks runtime config commitLatencyUs iterate (List.range config.taskCount)
    { taskCount := config.taskCount }

/-- The experiment on a store and with a runtime of its own. -/
def runSyntheticExperiment (config : SyntheticRunConfig) (commitLatencyUs : ℕ → PrintedNumber)
    (iterate : UnorderedMap Bytes → List (Bytes × Bytes)) (files : UnorderedMap Bytes) :
    Except Bytes SyntheticRunResult × World :=
  (runSyntheticExperimentWithStore {} config commitLatencyUs iterate).run (handle .memory) { files }

def syntheticCsvHeader : Bytes :=
  ascii "task_id,committed,branch_count,planned_loser_count,winner_commit_count," ++
    ascii "real_abort_count,conflict_abort_count,validation_fail_count,retry_count," ++
      ascii "commit_latency_us"

def SyntheticTaskRecord.csvFields (task : SyntheticTaskRecord) : List Bytes :=
  [task.taskId, if task.committed then ascii "1" else ascii "0", decimal task.branchCount,
    decimal task.plannedLoserCount, decimal task.winnerCommitCount, decimal task.realAbortCount,
    decimal task.conflictAbortCount,
    decimal task.validationFailCount, decimal task.retryCount, task.commitLatencyUs.text]

def csvLine (fields : List Bytes) : Bytes := List.intercalate [44] fields

def writeSyntheticCsv (result : SyntheticRunResult) : Bytes :=
  unlines newline (syntheticCsvHeader :: result.tasks.map fun task => csvLine task.csvFields)

variable {runtime : FallbackCommitRuntimeConfig} {config : SyntheticRunConfig}
  {taskIndex : ℕ} {w : World}

/-! ### The work of a task -/

/-- The write of a branch that stays. -/
def resultIntent (taskIndex i : ℕ) : WriteIntent where
  objectId := syntheticOutputKey taskIndex
  intentType := .overwrite
  payload := ascii "result_" ++ decimal taskIndex ++ ascii "_" ++ decimal i

/-- What the first branch takes back. -/
def tentativeOps (taskIndex i : ℕ) : List BranchOp :=
  if i = 0 then
    [.savepoint (ascii "before_write"),
      .write (syntheticOutputKey taskIndex) .text
        { objectId := syntheticOutputKey taskIndex, intentType := .append,
          payload := ascii "::tentative" },
      .rollbackToSavepoint (ascii "before_write")]
  else []

def syntheticWork (taskIndex i : ℕ) : BranchWork where
  branchId := syntheticBranchId i
  ops := .read (syntheticInputKey taskIndex) ::
    (tentativeOps taskIndex i ++
      [.write (syntheticOutputKey taskIndex) .text (resultIntent taskIndex i)])
  score := ofSize (((i + 1) * 10 + taskIndex) % 2 ^ 64)
  summary := ascii "candidate_" ++ decimal i

theorem workSyntheticBranch_eq (runtime : FallbackCommitRuntimeConfig) (taskIndex i : ℕ)
    (session : TaskSession) :
    workSyntheticBranch taskIndex i (syntheticBranchId i) session =
      performAll runtime ((syntheticWork taskIndex i).allOps.map (onSession (syntheticBranchId i)))
        session := by
  by_cases hi : i = 0
  · simp [workSyntheticBranch, syntheticWork, tentativeOps, BranchWork.allOps, onSession,
      Runtime.performAll, SessionOp.perform, resultIntent, hi]
  · simp [workSyntheticBranch, syntheticWork, tentativeOps, BranchWork.allOps, onSession,
      Runtime.performAll, SessionOp.perform, resultIntent, hi]

theorem workSyntheticBranches_eq (runtime : FallbackCommitRuntimeConfig) (taskIndex i n : ℕ)
    (session : TaskSession) :
    workSyntheticBranches taskIndex i ((List.range' i n).map syntheticBranchId) session =
      performAll runtime (sessionOps ((List.range' i n).map (syntheticWork taskIndex)))
        session := by
  induction n generalizing i session with
  | zero => rfl
  | succ n ih =>
    rw [List.range'_succ, List.map_cons, List.map_cons, workSyntheticBranches,
      workSyntheticBranch_eq runtime, sessionOps, List.flatMap_cons, performAll_append]
    exact congrArg (performAll runtime _ session >>= ·) (funext fun session => ih (i + 1) session)

theorem branchPlans_syntheticPlan (config : SyntheticRunConfig) :
    (syntheticPlan config).branchPlans =
    (List.range config.branchCount).map fun i => {
      branchId := syntheticBranchId i
      candidateId := ascii "candidate_" ++ decimal i
      rationale := ascii "synthetic candidate " ++ decimal i
      initialPriority := ofSize i } := by
  unfold syntheticPlan
  induction config.branchCount with
  | zero => rfl
  | succ n ih =>
    rw [List.range_succ, List.foldl_concat, List.map_append, ← ih]
    rfl

theorem syntheticBranchId_injective : Function.Injective syntheticBranchId := fun _ _ h =>
  decimal_injective (List.append_cancel_left h)

theorem nodup_syntheticWorks (taskIndex n : ℕ) :
    (((List.range n).map (syntheticWork taskIndex)).map (·.branchId)).Nodup := by
  rw [List.map_map]
  exact (List.nodup_range).map syntheticBranchId_injective

/-- With branches the plan can be submitted. -/
theorem validate_syntheticPlan (hbranches : 0 < config.branchCount) :
    (syntheticPlan config).validate = .ok () := by
  rw [ExecutionPlan.validate_eq_ok, branchPlans_syntheticPlan]
  refine ⟨?_, ?_, ?_⟩
  · simpa using Nat.ne_of_gt hbranches
  · have hlead : ∀ (i : ℕ) (s : Bytes), s ≠ [] → s ++ decimal i ≠ [] := fun i s hs => by simp [hs]
    simp only [List.forall_mem_map]
    exact fun i _ => ⟨hlead i _ (by decide), hlead i _ (by decide)⟩
  · rw [List.map_map]
    exact (List.nodup_range).map syntheticBranchId_injective

theorem named_syntheticWork (taskIndex i : ℕ) :
    ∀ op ∈ (syntheticWork taskIndex i).ops, op.Named := by
  by_cases hi : i = 0
  · simp [syntheticWork, tentativeOps, hi, resultIntent, BranchOp.Named]
  · simp [syntheticWork, tentativeOps, hi, resultIntent, BranchOp.Named]

/-- Only the last write of a branch is left. -/
theorem writtenIntents_syntheticWork (taskIndex i : ℕ) :
    writtenIntents (syntheticWork taskIndex i).ops = [resultIntent taskIndex i] := by
  by_cases hi : i = 0
  · simp only [syntheticWork, tentativeOps, hi, if_true]
    rfl
  · simp only [syntheticWork, tentativeOps, hi, if_false]
    rfl

/-- Small sizes are compared as they are. -/
theorem lt_ofSize {m n : ℕ} (hm : m < 2 ^ 53) (hn : n < 2 ^ 53) :
    (ofSize m).lt (ofSize n) = decide (m < n) := by
  simp [ofSize, Double.lt, Double.roundMantissa_of_lt hm, Double.roundMantissa_of_lt hn]

/-- The last branch leads. -/
theorem leading_syntheticWork {n : ℕ} (hexact : (n + 1) * 10 + taskIndex < 2 ^ 53) :
    leading BranchWork.score (syntheticWork taskIndex 0)
      ((List.range' 1 n).map (syntheticWork taskIndex)) =
      syntheticWork taskIndex n := by
  have hscore : ∀ i ≤ n, (syntheticWork taskIndex i).score = ofSize ((i + 1) * 10 + taskIndex) := by
    intro i hi
    rw [syntheticWork, Nat.mod_eq_of_lt (by omega)]
  rw [leading_map BranchWork.score (syntheticWork taskIndex)]
  congr 1
  refine leading_range' le_rfl (fun i hi => ?_) fun i hi hlt => absurd hlt (Nat.not_lt.2 hi)
  rw [hscore i hi.le, hscore n le_rfl, lt_ofSize (by omega) (by omega), decide_eq_true_eq]
  omega

/-! ### The commit of a task -/

/-- The store once the task has its input and its output. -/
def seeded (taskIndex : ℕ) (s : MemoryKVStore) : MemoryKVStore :=
  (s.write (syntheticInputKey taskIndex) (ascii "seed_" ++ decimal taskIndex)).write
    (syntheticOutputKey taskIndex)
    (ascii "draft_" ++ decimal taskIndex)

def mutated (taskIndex : ℕ) (s : MemoryKVStore) : MemoryKVStore :=
  s.write (syntheticInputKey taskIndex) (ascii "mutated_" ++ decimal taskIndex)

theorem syntheticInputKey_ne_outputKey (i j : ℕ) : syntheticInputKey i ≠ syntheticOutputKey j := by
  intro h
  have hhead := congrArg List.head? h
  have hne : 'i'.toUInt8 ≠ 'o'.toUInt8 := by decide
  exact absurd hhead (by simpa [syntheticInputKey, syntheticOutputKey, ascii] using hne)

theorem syntheticInputKey_injective : Function.Injective syntheticInputKey := fun _ _ h =>
  decimal_injective (List.append_cancel_left (List.append_cancel_left h))

theorem syntheticOutputKey_injective : Function.Injective syntheticOutputKey := fun _ _ h =>
  decimal_injective (List.append_cancel_left (List.append_cancel_left h))

section Commit

variable {n : ℕ} {session : TaskSession}
  (hbranches : session.txn.branches = (List.range (n + 1)).map fun i =>
    { branchId := syntheticBranchId i })
  (hexact : (n + 1) * 10 + taskIndex < 2 ^ 53)

/-- The session once all branches have been worked on. -/
def workedTask (runtime : FallbackCommitRuntimeConfig) (taskIndex n : ℕ) (session : TaskSession)
    (w : World) : TaskSession :=
  performedOn .memory runtime session
    ((sessionOps ((List.range (n + 1)).map (syntheticWork taskIndex))).map (·, w))

theorem range_succ_syntheticWork (taskIndex n : ℕ) :
    (List.range (n + 1)).map (syntheticWork taskIndex) =
    syntheticWork taskIndex 0 :: (List.range' 1 n).map (syntheticWork taskIndex) := by
  rw [List.range_eq_range', List.range'_succ, List.map_cons]

include hbranches

theorem branches_syntheticWorks : session.txn.branches =
    (syntheticWork taskIndex 0 :: (List.range' 1 n).map (syntheticWork taskIndex)).map fun work =>
      { branchId := work.branchId } := by
  rw [hbranches, ← range_succ_syntheticWork, List.map_map]
  rfl

include hexact

/-- If the input is left alone, the result of the last branch is committed. -/
theorem run_commitTask_workedTask (w : World) :
    let out := ((workedTask runtime taskIndex n session w).commitTask runtime).run
      (handle .memory) w
    out.1.1 = .ok true ∧ ∀ k, out.2.store.get k =
      if k = syntheticOutputKey taskIndex then
        { value := (resultIntent taskIndex n).payload, version := (w.store.get k).version + 1,
          exists_ := true }
      else w.store.get k := by
  have hnodup := nodup_syntheticWorks taskIndex (n + 1)
  rw [range_succ_syntheticWork] at hnodup
  have hnamed :
    ∀ work ∈ syntheticWork taskIndex 0 :: (List.range' 1 n).map (syntheticWork taskIndex),
      ∀ op ∈ work.ops, op.Named := by
    rw [← range_succ_syntheticWork, List.forall_mem_map]
    exact fun i _ => named_syntheticWork taskIndex i
  have hcommit := @run_commitTask_planned runtime session w _ _ hnodup hnamed
    (branches_syntheticWorks hbranches)
  rw [leading_syntheticWork hexact, writtenIntents_syntheticWork] at hcommit
  obtain ⟨hresolves, hvalue⟩ := @ends_overwritten [] (resultIntent taskIndex n)
    (fun _ h => absurd h List.not_mem_nil) rfl w.store
  rw [List.nil_append] at hresolves hvalue
  simp only [hresolves, hvalue, if_true] at hcommit
  rw [workedTask, range_succ_syntheticWork]
  exact hcommit

/-- If the input has been changed meanwhile, the commit is refused. -/
theorem run_commitTask_workedTask_mutated (w : World) :
    let w' := { w with store := mutated taskIndex w.store }
    let out := ((workedTask runtime taskIndex n session w).commitTask runtime).run
      (handle .memory) w'
    out.1.1 = .ok false ∧ out.2.store = w'.store := by
  intro w' out
  have hnodup := nodup_syntheticWorks taskIndex (n + 1)
  rw [range_succ_syntheticWork] at hnodup
  have hs := @selects_planned .memory runtime session w _ _ hnodup
    (branches_syntheticWorks hbranches)
  rw [leadingHistory, leading_syntheticWork hexact, ← range_succ_syntheticWork, ← workedTask] at hs
  -- every branch has read the input before it did anything else
  have hread := @mem_reads_worked .memory (syntheticBranchId n) (syntheticInputKey taskIndex) w
    (((syntheticWork taskIndex n).allOps.drop 1).map (·, w))
  have hwritten :
    (worked .memory (syntheticBranchId n)
      ((syntheticWork taskIndex n).allOps.map (·, w))).intentLog.entries =
      [resultIntent taskIndex n] := by
    rw [intents_worked, List.map_map, ← writtenIntents_syntheticWork, ← writtenIntents_allOps]
    rfl
  have hrebased :
    rebased (worked .memory (syntheticBranchId n) ((syntheticWork taskIndex n).allOps.map (·, w)))
      (syntheticInputKey taskIndex) = false := by
    have hnone : live [resultIntent taskIndex n] (syntheticInputKey taskIndex) = [] := by
      simpa [live, resultIntent] using (syntheticInputKey_ne_outputKey taskIndex taskIndex).symm
    rw [rebased, lookup_latestIntents_live, hwritten, hnone]
    rfl
  have hstale : w'.store.getVersion (syntheticInputKey taskIndex) ≠
      w.store.getVersion (syntheticInputKey taskIndex) := by
    show ((mutated taskIndex w.store).get _).version ≠ _
    rw [mutated, MemoryKVStore.get_write_self]
    simp [MemoryKVStore.getVersion]
  obtain ⟨hresult, hworld⟩ := run_selectWinnerAndCommit_of_stale (w := w') hs hread hrebased hstale
  have hlike := run_commitTask .memory runtime (workedTask runtime taskIndex n session w) w'
  exact ⟨hlike.result.trans hresult, hlike.store.trans (congrArg World.store hworld)⟩

end Commit

/-! ### A task -/

/-- The fields of the record of a task, as far as they are printed. -/
def SyntheticRunConfig.plannedFields (config : SyntheticRunConfig) (commitLatencyUs : PrintedNumber)
    (taskIndex : ℕ) : List Bytes :=
  let ifCommitted := if config.injectConflict taskIndex then ascii "0" else ascii "1"
  let ifRefused := if config.injectConflict taskIndex then ascii "1" else ascii "0"
  [syntheticTaskId taskIndex, ifCommitted, decimal config.branchCount,
    decimal (config.branchCount - 1), ifCommitted, ifRefused, ifRefused, ifRefused,
    ascii "0", commitLatencyUs.text]

/-- What a task leaves of its input. -/
def SyntheticRunConfig.leftInput (config : SyntheticRunConfig) (taskIndex : ℕ)
    (held : VersionedValue) : VersionedValue :=
  if config.injectConflict taskIndex then
    { value := ascii "mutated_" ++ decimal taskIndex, version := held.version + 1 + 1,
      exists_ := true }
  else { value := ascii "seed_" ++ decimal taskIndex, version := held.version + 1, exists_ := true }

/-- What a task leaves of its output. -/
def SyntheticRunConfig.leftOutput (config : SyntheticRunConfig) (taskIndex : ℕ)
    (held : VersionedValue) : VersionedValue :=
  if config.injectConflict taskIndex then
    { value := ascii "draft_" ++ decimal taskIndex, version := held.version + 1, exists_ := true }
  else
    { value := (resultIntent taskIndex (config.branchCount - 1)).payload,
      version := held.version + 1 + 1, exists_ := true }

/-- What a task leaves of any object. -/
def SyntheticRunConfig.left (config : SyntheticRunConfig) (taskIndex : ℕ) (s : MemoryKVStore)
    (k : Bytes) : VersionedValue :=
  if k = syntheticInputKey taskIndex then config.leftInput taskIndex (s.get k)
  else if k = syntheticOutputKey taskIndex then config.leftOutput taskIndex (s.get k)
  else s.get k

theorem get_seeded (taskIndex : ℕ) (s : MemoryKVStore) (k : Bytes) : (seeded taskIndex s).get k =
    if k = syntheticInputKey taskIndex then
      { value := ascii "seed_" ++ decimal taskIndex, version := (s.get k).version + 1,
        exists_ := true }
    else if k = syntheticOutputKey taskIndex then
      { value := ascii "draft_" ++ decimal taskIndex, version := (s.get k).version + 1,
        exists_ := true }
    else s.get k := by
  have hne := syntheticInputKey_ne_outputKey taskIndex taskIndex
  rw [seeded, MemoryKVStore.get_write, MemoryKVStore.get_write_of_ne _ _ hne.symm,
    MemoryKVStore.get_write]
  by_cases hinput : k = syntheticInputKey taskIndex
  · rw [if_neg (hinput ▸ hne), if_pos hinput, if_pos hinput, hinput]
  · by_cases houtput : k = syntheticOutputKey taskIndex
    · rw [if_pos houtput, if_neg hinput, if_pos houtput, houtput]
    · rw [if_neg houtput, if_neg hinput, if_neg hinput, if_neg houtput]

/-- Submission returns only a session of a valid plan, with nothing counted yet. -/
theorem returns_submitTask_metrics (runtime : FallbackCommitRuntimeConfig)
    (task : TaskContext) (plan : ExecutionPlan) :
    (submitTask runtime task plan).Returns fun r => ∀ session, r = .ok session →
      session.txn.metrics = {} ∧ plan.validate = .ok () := by
  have hcreate : ∀ (branchPlans : List BranchPlan) (session : TaskSession),
      (branchPlans.foldl TaskSession.createBranch session).txn.metrics = session.txn.metrics := by
    intro branchPlans
    induction branchPlans with
    | nil => exact fun session => rfl
    | cons branchPlan branchPlans ih => exact fun session => ih (session.createBranch branchPlan)
  unfold submitTask
  split
  · rintro _ ⟨⟩
  · rintro _ ⟨⟩
  next hvalid =>
    refine (returns_configureFallbackCommit runtime _).bind ?_
    rintro txn ⟨artifactPath, hbegun⟩ _ ⟨⟩
    refine ⟨(hcreate plan.branchPlans _).trans ?_, hvalid⟩
    show txn.metrics = {}
    rw [hbegun]
    rfl

theorem metrics_submitTask {task : TaskContext} {plan : ExecutionPlan} {submitted : TaskSession}
    {kind : StoreKind}
    (h : ((submitTask runtime task plan).run (handle kind) w).1 = .ok submitted) :
    submitted.txn.metrics = {} :=
  ((returns_submitTask_metrics runtime task plan).interfered (Program.interfered_run _ w)
    submitted h).1

/-- A commit that returns keeps the metrics, and the validation result tells how it ended. -/
theorem verdict_commitTask {kind : StoreKind} {session : TaskSession} {committed : Bool}
    (h : ((session.commitTask runtime).run (handle kind) w).1.1 = .ok committed) :
    ((session.commitTask runtime).run (handle kind) w).1.2.txn.metrics = session.txn.metrics ∧
      ((session.commitTask runtime).run (handle kind) w).1.2.txn.validationResult.success =
        committed := by
  have hlike := run_commitTask kind runtime session w
  have hverdict :=
      (returns_verdict session.txn).interfered (Program.interfered_run (h := handle kind) _ w)
  rw [hlike.txn]
  exact ⟨hverdict.1, hverdict.2 committed (hlike.result.symm.trans h)⟩

/-- The report only writes logs. -/
theorem run_reportTask (kind : StoreKind) (config : SyntheticRunConfig)
    (commitLatencyUs : PrintedNumber) (iterate : UnorderedMap Bytes → List (Bytes × Bytes))
    (taskIndex : ℕ) (committed : Bool) (session : TaskSession) (w : World) :
    let out := (reportTask config commitLatencyUs iterate taskIndex committed session).run
      (handle kind) w
    let metrics := session.txn.metrics
    out.2.store = w.store ∧ out.1.committed = committed ∧ out.1.csvFields =
      [syntheticTaskId taskIndex, if committed then ascii "1" else ascii "0",
        decimal metrics.branchCount, decimal metrics.plannedLoserCount,
        decimal metrics.winnerCommitCount, decimal metrics.realAbortCount,
        decimal metrics.conflictAbortCount, decimal metrics.validationFailCount,
          decimal metrics.retryCount,
        commitLatencyUs.text] := by
  intro out metrics
  unfold out reportTask
  by_cases hcommits : config.commitLogDir = [] <;> by_cases htasks : config.taskEventLogDir = [] <;>
    simp only [hcommits, htasks, ne_eq, not_true_eq_false, not_false_eq_true, if_true, if_false] <;>
    exact ⟨rfl, rfl, rfl⟩

theorem validate_syntheticTask (config : SyntheticRunConfig) (taskIndex : ℕ) :
    (syntheticTask config taskIndex).validate = .ok () := by
  have hid : syntheticTaskId taskIndex ≠ [] := by simp [syntheticTaskId, decimal_ne_nil]
  have hobjective : ascii "synthetic candidate-selection workload" ≠ [] := by decide
  exact (if_neg hid).trans (if_neg hobjective)

/-- The store before the commit. -/
def SyntheticRunConfig.beforeCommit (config : SyntheticRunConfig)
    (taskIndex : ℕ) (w : World) : World :=
  if config.injectConflict taskIndex then { w with store := mutated taskIndex w.store } else w

/-- The commit of a task succeeds exactly if its input has been left alone. -/
theorem run_commitTask_beforeCommit {session : TaskSession} {n : ℕ}
    (hn : config.branchCount = n + 1)
    (hbranches : session.txn.branches = (List.range (n + 1)).map fun i =>
      { branchId := syntheticBranchId i })
    (hexact : (n + 1) * 10 + taskIndex < 2 ^ 53) (w : World) :
    let seededWorld := { w with store := seeded taskIndex w.store }
    let out := ((workedTask runtime taskIndex n session seededWorld).commitTask runtime).run
      (handle .memory)
      (config.beforeCommit taskIndex seededWorld)
    out.1.1 = .ok (!config.injectConflict taskIndex) ∧ ∀ k,
        out.2.store.get k = config.left taskIndex w.store k := by
  intro seededWorld out
  have hne := syntheticInputKey_ne_outputKey taskIndex taskIndex
  unfold out SyntheticRunConfig.beforeCommit SyntheticRunConfig.left SyntheticRunConfig.leftInput
    SyntheticRunConfig.leftOutput
  cases config.injectConflict taskIndex with
  | false =>
    obtain ⟨hresult, hstore⟩ := @run_commitTask_workedTask runtime taskIndex n session
      hbranches hexact seededWorld
    refine ⟨hresult, fun k => (hstore k).trans ?_⟩
    simp only [seededWorld, get_seeded, hn, Nat.add_sub_cancel, Bool.false_eq_true, if_false]
    by_cases houtput : k = syntheticOutputKey taskIndex
    · simp [houtput, hne.symm]
    · simp [houtput]
  | true =>
    obtain ⟨hresult, hstore⟩ := @run_commitTask_workedTask_mutated runtime taskIndex n session
      hbranches hexact seededWorld
    refine ⟨hresult, fun k => (congrArg (MemoryKVStore.get · k) hstore).trans ?_⟩
    simp only [seededWorld, mutated, MemoryKVStore.get_write, get_seeded, if_true]
    by_cases hinput : k = syntheticInputKey taskIndex
    · simp [hinput]
    · simp [hinput]

/-- What is reported of a commit that ends as planned. -/
theorem run_finishTask {kind : StoreKind} {session : TaskSession} (commitLatencyUs : PrintedNumber)
    (iterate : UnorderedMap Bytes → List (Bytes × Bytes))
    (hmetrics : session.txn.metrics =
      { branchCount := config.branchCount, plannedLoserCount := config.branchCount - 1 })
    (hresult : ((session.commitTask runtime).run (handle kind) w).1.1 =
      .ok (!config.injectConflict taskIndex)) :
    ∃ record w', (finishTask runtime config commitLatencyUs iterate taskIndex session).run
      (handle kind) w = (.ok record, w') ∧
      record.csvFields = config.plannedFields commitLatencyUs taskIndex ∧
      record.committed = !config.injectConflict taskIndex ∧
      w'.store = ((session.commitTask runtime).run (handle kind) w).2.store := by
  have hverdict := verdict_commitTask hresult
  rw [hmetrics] at hverdict
  rw [finishTask, Program.run_bind]
  generalize (session.commitTask runtime).run (handle kind) w = out at hresult hverdict ⊢
  obtain ⟨⟨result, ended⟩, w'⟩ := out
  cases hresult
  obtain ⟨hkept, hsuccess⟩ : ended.txn.metrics = _ ∧
      ended.txn.validationResult.success = _ := hverdict
  obtain ⟨hstore, hcommitted, hfields⟩ :=
    run_reportTask kind config commitLatencyUs iterate taskIndex (!config.injectConflict taskIndex)
      (withCommitMetrics ended (!config.injectConflict taskIndex)
        (config.injectConflict taskIndex)) w'
  refine ⟨_, _, ?_, hfields.trans ?_, hcommitted, hstore⟩
  · simp only [Program.run_bind, Program.pure_eq_ret, Program.run_ret]
  · simp only [withCommitMetrics, hkept, hsuccess, SyntheticRunConfig.plannedFields]
    cases config.injectConflict taskIndex <;> rfl

/-- What a task reports, and what it leaves in the store. -/
theorem run_runOneTask (runtime : FallbackCommitRuntimeConfig) (commitLatencyUs : PrintedNumber)
    (iterate : UnorderedMap Bytes → List (Bytes × Bytes)) (hbranches : 0 < config.branchCount)
    (hexact : config.branchCount * 10 + taskIndex < 2 ^ 53) (w : World) :
    ∃ record w', (runOneTask runtime config commitLatencyUs iterate taskIndex).run
      (handle .memory) w = (.ok record, w') ∧
      record.csvFields = config.plannedFields commitLatencyUs taskIndex ∧
      record.committed = !config.injectConflict taskIndex ∧ ∀ k,
        w'.store.get k = config.left taskIndex w.store k := by
  obtain ⟨n, hn⟩ := Nat.exists_eq_succ_of_ne_zero (Nat.ne_of_gt hbranches)
  let seededWorld : World := { w with store := seeded taskIndex w.store }
  rcases @run_submitTask .memory runtime (syntheticTask config taskIndex)
      (syntheticPlan config) seededWorld with
    ⟨-, -, submitted, hsubmit, hsubmitted⟩ | ⟨hinvalid, -⟩
  · have hids : (syntheticPlan config).branchPlans.map (·.branchId) =
        (List.range' 0 (n + 1)).map syntheticBranchId := by
      rw [branchPlans_syntheticPlan, List.map_map, hn, ← List.range_eq_range']
      rfl
    have hnew : (withPlannedMetrics submitted (n + 1)).txn.branches =
        (List.range (n + 1)).map fun i => { branchId := syntheticBranchId i } := by
      refine hsubmitted.branches.trans ?_
      rw [branchPlans_syntheticPlan, List.map_map, hn]
      rfl
    have hworked :
      (workSyntheticBranches taskIndex 0 ((List.range' 0 (n + 1)).map syntheticBranchId)
        (withPlannedMetrics submitted (n + 1))).run (handle .memory) seededWorld =
          (workedTask runtime taskIndex n (withPlannedMetrics submitted (n + 1)) seededWorld,
              seededWorld) := by
      rw [workSyntheticBranches_eq runtime, run_performAll (works_sessionOps _),
        workedTask, List.range_eq_range']
    have hmetrics :
      (workedTask runtime taskIndex n (withPlannedMetrics submitted (n + 1))
        seededWorld).txn.metrics =
        { branchCount := config.branchCount, plannedLoserCount := config.branchCount - 1 } := by
      have hnodup :
          ((withPlannedMetrics submitted (n + 1)).txn.branches.map (·.branchId)).Nodup := by
        rw [hnew, List.map_map]
        exact (List.nodup_range).map syntheticBranchId_injective
      rw [workedTask, txn_performedOn (List.forall_mem_map.2 (works_sessionOps _)) hnodup]
      show { submitted.txn.metrics with branchCount := n + 1, plannedLoserCount := n } = _
      rw [metrics_submitTask (congrArg Prod.fst hsubmit), hn]
      rfl
    rw [hn] at hexact
    obtain ⟨hresult, hstore⟩ :=
      @run_commitTask_beforeCommit runtime config taskIndex _ n hn hnew hexact w
    obtain ⟨record, w', hrun, hfields, hcommitted, hleft⟩ :=
      run_finishTask commitLatencyUs iterate hmetrics hresult
    refine ⟨record, w', ?_, hfields, hcommitted, fun k =>
      (congrArg (MemoryKVStore.get · k) hleft).trans (hstore k)⟩
    rw [runOneTask, Store.put_bind, Program.run_call, Store.put_bind, Program.run_call, ← hrun]
    show Program.run _ _ seededWorld = _
    rw [Program.run_bind, hsubmit]
    simp only [Program.run_bind, hids, List.length_map, List.length_range', hworked,
      SyntheticRunConfig.beforeCommit]
    cases config.injectConflict taskIndex <;> rfl
  · exact absurd ⟨validate_syntheticTask config taskIndex, validate_syntheticPlan hbranches⟩
      hinvalid

/-! ### The experiment -/

/-- A task leaves the objects of the others alone. -/
theorem left_of_ne {k : Bytes} (s : MemoryKVStore) (hinput : k ≠ syntheticInputKey taskIndex)
    (houtput : k ≠ syntheticOutputKey taskIndex) :
    config.left taskIndex s k = s.get k := by
  rw [SyntheticRunConfig.left, if_neg hinput, if_neg houtput]

/-- Every so many tasks one is refused. -/
theorem countP_injectConflict (config : SyntheticRunConfig) (n : ℕ) :
    (List.range n).countP config.injectConflict = n / config.conflictEvery := by
  induction n with
  | zero => simp
  | succ n ih =>
    rw [List.range_succ, List.countP_append, ih, List.countP_singleton, Nat.succ_div]
    congr 1
    by_cases hnever : config.conflictEvery = 0
    · simp [SyntheticRunConfig.injectConflict, hnever]
    · simp [SyntheticRunConfig.injectConflict, hnever, Nat.dvd_iff_mod_eq_zero]

/-- The records are counted and kept in order. -/
theorem foldl_appendTaskRecord (records : List SyntheticTaskRecord) (result : SyntheticRunResult) :
    (records.foldl appendTaskRecord result).tasks = result.tasks ++ records ∧
      (records.foldl appendTaskRecord result).committedTaskCount = result.committedTaskCount +
        (records.map (·.committed)).countP id ∧
      (records.foldl appendTaskRecord result).abortedTaskCount = result.abortedTaskCount +
        (records.map (·.committed)).countP not ∧
      (records.foldl appendTaskRecord result).taskCount = result.taskCount := by
  induction records generalizing result with
  | nil => simp
  | cons record records ih =>
    obtain ⟨htasks, hcommitted, haborted, hcount⟩ := ih (appendTaskRecord result record)
    rw [List.foldl_cons, htasks, hcommitted, haborted, hcount, List.map_cons,
      List.countP_cons, List.countP_cons]
    unfold appendTaskRecord
    cases record.committed <;> simp <;> omega

/-- Tasks with different indices do not meet in the store. -/
theorem run_runTasks (runtime : FallbackCommitRuntimeConfig) (commitLatencyUs : ℕ → PrintedNumber)
    (iterate : UnorderedMap Bytes → List (Bytes × Bytes)) (hbranches : 0 < config.branchCount)
    {taskIndices : List ℕ} (hnodup : taskIndices.Nodup)
    (hexact : ∀ i ∈ taskIndices, config.branchCount * 10 + i < 2 ^ 53) (result : SyntheticRunResult)
    (w : World) :
    ∃ (records : List SyntheticTaskRecord) (w' : World),
      (runTasks runtime config commitLatencyUs iterate taskIndices result).run (handle .memory) w =
        (.ok (records.foldl appendTaskRecord result), w') ∧
      records.map (·.csvFields) =
        taskIndices.map (fun i => config.plannedFields (commitLatencyUs i) i) ∧
      records.map (·.committed) = taskIndices.map (fun i => !config.injectConflict i) ∧
      (∀ i ∈ taskIndices, ∀ k, k = syntheticInputKey i ∨ k = syntheticOutputKey i →
        w'.store.get k = config.left i w.store k) ∧
      ∀ k, (∀ i ∈ taskIndices, k ≠ syntheticInputKey i ∧ k ≠ syntheticOutputKey i) →
        w'.store.get k = w.store.get k := by
  induction taskIndices generalizing result w with
  | nil => exact ⟨[], w, rfl, rfl, rfl, fun _ h => absurd h List.not_mem_nil, fun _ _ => rfl⟩
  | cons taskIndex taskIndices ih =>
    rw [List.nodup_cons] at hnodup
    rw [List.forall_mem_cons] at hexact
    obtain ⟨record, w₁, hrun, hfields, hcommitted, hleft⟩ :=
      run_runOneTask runtime (commitLatencyUs taskIndex) iterate hbranches
      hexact.1 w
    obtain ⟨records, w₂, hruns, hfields', hcommitted', hown, hothers⟩ :=
      ih hnodup.2 hexact.2 (appendTaskRecord result record) w₁
    have hapart : ∀ i ∈ taskIndices, ∀ k, k = syntheticInputKey i ∨ k = syntheticOutputKey i →
        k ≠ syntheticInputKey taskIndex ∧ k ≠ syntheticOutputKey taskIndex := by
      intro i hi k hk
      have hne : i ≠ taskIndex := fun heq => hnodup.1 (heq ▸ hi)
      rcases hk with rfl | rfl
      · exact ⟨fun heq => hne (syntheticInputKey_injective heq),
          syntheticInputKey_ne_outputKey i taskIndex⟩
      · exact ⟨(syntheticInputKey_ne_outputKey taskIndex i).symm, fun heq =>
          hne (syntheticOutputKey_injective heq)⟩
    refine ⟨record :: records, w₂, ?_, ?_, ?_, ?_, ?_⟩
    · rw [runTasks, Program.run_bind, hrun]
      exact hruns
    · rw [List.map_cons, List.map_cons, hfields, hfields']
    · rw [List.map_cons, List.map_cons, hcommitted, hcommitted']
    · rw [List.forall_mem_cons]
      constructor
      · intro k hk
        rw [← hleft k]
        refine hothers k fun i hi => ⟨?_, ?_⟩
        · rintro rfl
          have hother := hapart i hi _ (.inl rfl)
          exact hk.elim hother.1 hother.2
        · rintro rfl
          have hother := hapart i hi _ (.inr rfl)
          exact hk.elim hother.1 hother.2
      · intro i hi k hk
        have hkept : w₁.store.get k = w.store.get k := by
          rw [hleft, left_of_ne _ (hapart i hi k hk).1 (hapart i hi k hk).2]
        rw [hown i hi k hk, SyntheticRunConfig.left, SyntheticRunConfig.left, hkept]
    · intro k hk
      rw [List.forall_mem_cons] at hk
      rw [hothers k hk.2, hleft, left_of_ne _ hk.1.1 hk.1.2]

/-- What the experiment reports, down to the printed table, and what it leaves in the store:
every so many tasks one is refused and keeps its draft, all others commit the result of
their last branch, and nothing else changes. The scores have to be small enough for a `double`
to tell them apart. -/
theorem run_runSyntheticExperimentWithStore (runtime : FallbackCommitRuntimeConfig)
    (config : SyntheticRunConfig) (commitLatencyUs : ℕ → PrintedNumber)
    (iterate : UnorderedMap Bytes → List (Bytes × Bytes)) (hbranches : 0 < config.branchCount)
    (hexact : config.branchCount * 10 + config.taskCount ≤ 2 ^ 53) (w : World) :
    ∃ result w', (runSyntheticExperimentWithStore runtime config commitLatencyUs iterate).run
      (handle .memory) w =
        (.ok result, w') ∧
      result.abortedTaskCount = config.taskCount / config.conflictEvery ∧
      result.committedTaskCount = config.taskCount - config.taskCount / config.conflictEvery ∧
      writeSyntheticCsv result = unlines newline (syntheticCsvHeader ::
        (List.range config.taskCount).map fun i =>
          csvLine (config.plannedFields (commitLatencyUs i) i)) ∧
      (∀ i < config.taskCount,
        w'.store.get (syntheticInputKey i) =
        config.leftInput i (w.store.get (syntheticInputKey i)) ∧
        w'.store.get (syntheticOutputKey i) =
          config.leftOutput i (w.store.get (syntheticOutputKey i))) ∧
      ∀ k, (∀ i < config.taskCount, k ≠ syntheticInputKey i ∧ k ≠ syntheticOutputKey i) →
        w'.store.get k = w.store.get k := by
  have hsmall : ∀ i ∈ List.range config.taskCount, config.branchCount * 10 + i < 2 ^ 53 := by
    intro i hi
    have := List.mem_range.1 hi
    omega
  obtain ⟨records, w', hrun, hfields, hcommitted, hown, hothers⟩ :=
    run_runTasks runtime commitLatencyUs iterate hbranches
    List.nodup_range hsmall { taskCount := config.taskCount } w
  obtain ⟨htasks, hcommits, haborts, -⟩ :=
      foldl_appendTaskRecord records { taskCount := config.taskCount }
  have hrefused : (records.map (·.committed)).countP not =
      config.taskCount / config.conflictEvery := by
    rw [hcommitted, List.countP_map, ← countP_injectConflict]
    simp [Function.comp_def]
  have hrest : (records.map (·.committed)).countP id + (records.map (·.committed)).countP not =
      config.taskCount := by
    have hlength := congrArg List.length hcommitted
    rw [List.length_map, List.length_map, List.length_range] at hlength
    rw [← hlength, ← List.length_map (·.committed), List.length_eq_countP_add_countP id]
    simp
  refine ⟨_, w', hrun, by simp [haborts, hrefused], ?_, ?_, ?_, ?_⟩
  · simp only [hcommits, Nat.zero_add]
    omega
  · rw [writeSyntheticCsv, htasks, List.nil_append, ← Function.comp_def csvLine
      SyntheticTaskRecord.csvFields, ← List.map_map, hfields, List.map_map]
    rfl
  · intro i hi
    have hmem := List.mem_range.2 hi
    have hne := (syntheticInputKey_ne_outputKey i i).symm
    constructor
    · rw [hown i hmem _ (.inl rfl), SyntheticRunConfig.left, if_pos rfl]
    · rw [hown i hmem _ (.inr rfl), SyntheticRunConfig.left, if_neg hne, if_pos rfl]
  · exact fun k hk => hothers k fun i hi => hk i (List.mem_range.1 hi)

/-- Of ten tasks three are refused. -/
theorem run_runSyntheticExperimentWithStore_tenTasks :
    let commitLatencyUs : ℕ → PrintedNumber := fun _ => ⟨ascii "0", newline_notMem_zero⟩
    let iterate : UnorderedMap Bytes → List (Bytes × Bytes) := fun metadata =>
      metadata.entries.map fun entry => (entry.1, entry.2)
    ∃ result w', runSyntheticExperiment {} commitLatencyUs iterate ∅ = (.ok result, w') ∧
      result.abortedTaskCount = 3 ∧
      result.committedTaskCount = 7 ∧ (w'.store.get (ascii "input:task_1")).version = 1 ∧
      w'.store.get (ascii "output:task_2") =
          { value := ascii "draft_2", version := 1, exists_ := true } := by
  intro commitLatencyUs iterate
  obtain ⟨result, w', hrun, haborted, hcommitted, -, hleft, -⟩ :=
    run_runSyntheticExperimentWithStore {} {} commitLatencyUs iterate (by decide) (by decide) {}
  exact ⟨result, w', hrun, haborted, hcommitted,
    congrArg VersionedValue.version (hleft 1 (by decide)).1, (hleft 2 (by decide)).2⟩

end DataAgentSystem.Workloads
