import DataAgentSystem.Branch.ScoreText
import DataAgentSystem.Runtime.CrashTransparency
import DataAgentSystem.Workloads.ScriptedKvTask

/-! The handlers that carry on with recovered tasks of the three workloads. Whichever task
comes back from its log, the handler of its own workload takes it up, with the steps, the
keys and the branch that the task itself has noted; so a crash of a task whose log keeps
all that was done has no effect but the steps that its recovery adds. -/

namespace DataAgentSystem.Workloads

open Text Intent Cache Branch Storage Interaction Containers AgentTxn DataAgentSystem.Runtime

/-! ### Scripts -/

/-- The call that a step makes. -/
def KvStep.toCall (branchId : Bytes) (step : KvStep) : SessionCall :=
  match step.kind with
  | .read => .read branchId step.objectId
  | .write => .write branchId step.objectId step.objectType step.intent
  | .savepoint => .savepoint branchId step.savepointId
  | .rollbackToSavepoint => .rollbackToSavepoint branchId step.savepointId

def continueRecoveredKvTask (config : FallbackCommitRuntimeConfig)
    (execution : TaskRecoveryExecution) (continuationSteps : List KvStep) (score : Double)
    (summary : Bytes) (preferredBranchId : Bytes := []) :
    Prog (Except Bytes Bool × TaskRecoveryExecution) :=
  continueRecoveredTask config execution { preferredBranchId, score, summary } fun _ branchId =>
    callsWork (continuationSteps.map (KvStep.toCall branchId))

/-- The handler reads everything off the task. What it does with a number that no
enumerator has is not modelled; here it throws. -/
def continueFromTaskMetadata : TaskContinuationHandler := fun config execution =>
  let task := execution.session.task
  match loadRecoveryStepsFromTask task with
  | none => return (.error (ascii "no such enumerator"), execution)
  | some steps =>
    continueRecoveredKvTask config execution steps
      (strtod (metadataValue task (ascii "recovery.score")))
      (metadataValue task (ascii "recovery.summary"))
        (metadataValue task (ascii "recovery.preferred_branch_id"))

def registerScriptedKvContinuationFromTaskMetadata (registry : TaskContinuationRegistry) :
    Bool × TaskContinuationRegistry :=
  registry.registerHandler (ascii "kv_style.scripted_kv_task") continueFromTaskMetadata

/-! ### Candidates -/

/-- Read the input, if it has a key, and overwrite the output with a text. -/
def overwriteCalls (inputKey outputKey resultValue branchId : Bytes) : List SessionCall :=
  (if inputKey = [] then [] else [.read branchId inputKey]) ++
    [.write branchId outputKey .text
      { objectId := outputKey, intentType := .overwrite, payload := resultValue }]

/-- The id of the first object, if there is one. -/
def frontId (objects : List ObjectReference) : Option Bytes := objects.head?.map (·.objectId)

def continueRecoveredMinimalCandidateTask (config : FallbackCommitRuntimeConfig)
    (execution : TaskRecoveryExecution) (resultValue : Bytes := ascii "recovered_agent_result")
    (score : Double := .finite 101) (summary : Bytes := ascii "recovered minimal candidate task")
    (preferredBranchId : Bytes := ascii "branch_B") :
    Prog (Except Bytes Bool × TaskRecoveryExecution) :=
  let inputKey := (frontId execution.session.task.inputObjects).getD []
  let outputKey := (frontId execution.session.task.outputObjects).getD []
  if outputKey = [] then return (.ok false, execution)
  else continueRecoveredTask config execution { preferredBranchId, score, summary } fun _ branchId =>
    callsWork (overwriteCalls inputKey outputKey resultValue branchId)

def registerMinimalCandidateContinuation (registry : TaskContinuationRegistry)
    (resultValue : Bytes := ascii "recovered_agent_result") (score : Double := .finite 101)
    (summary : Bytes := ascii "recovered minimal candidate task")
      (preferredBranchId : Bytes := ascii "branch_B") :
    Bool × TaskContinuationRegistry :=
  registry.registerHandler (ascii "agent_task.minimal_candidate_task") fun config execution =>
    continueRecoveredMinimalCandidateTask config execution resultValue score
      summary preferredBranchId

/-! ### Synthetic tasks -/

def syntheticRecoveryInputKey (execution : TaskRecoveryExecution) : Bytes :=
  (frontId execution.session.task.inputObjects).getD
    (ascii "input:" ++ execution.recoveryPlan.decision.taskId)

def syntheticRecoveryOutputKey (execution : TaskRecoveryExecution) : Bytes :=
  (frontId execution.session.task.outputObjects).getD
    (ascii "output:" ++ execution.recoveryPlan.decision.taskId)

/-- The value for the task with this id. -/
def syntheticRecoveryResultValue (taskId : Bytes) : Bytes :=
  let number := taskId.drop (ascii "task_").length
  if taskId = ascii "task_resume" then ascii "recovered_resume_result"
  else if (ascii
    "task_").isPrefixOf taskId ∧ number ≠ [] ∧
    number.all isDigit then ascii "recovered_result_" ++ number
  else ascii "recovered_result"

def syntheticRecoveryScore (execution : TaskRecoveryExecution) : Double :=
  if execution.commandType = .resumeFromSavepoint then .finite 130 else .finite 120

def syntheticRecoverySummary (execution : TaskRecoveryExecution) : Bytes :=
  if execution.commandType = .resumeFromSavepoint then ascii "recovered resume task"
    else ascii "recovered synthetic task"

def continueRecoveredSyntheticTask (config : FallbackCommitRuntimeConfig)
    (execution : TaskRecoveryExecution) :
    Prog (Except Bytes Bool × TaskRecoveryExecution) :=
  let inputKey := syntheticRecoveryInputKey execution
  let outputKey := syntheticRecoveryOutputKey execution
  let resultValue := syntheticRecoveryResultValue execution.recoveryPlan.decision.taskId
  let spec : TaskContinuationSpec :=
    { score := syntheticRecoveryScore execution, summary := syntheticRecoverySummary execution }
  continueRecoveredTask config execution spec fun _ branchId =>
    callsWork (overwriteCalls inputKey outputKey resultValue branchId)

def registerSyntheticContinuation (registry : TaskContinuationRegistry) :
    Bool × TaskContinuationRegistry :=
  registry.registerHandler (ascii "synthetic.candidate_selection") continueRecoveredSyntheticTask

def registerBuiltinRecoveryHandlers (registry : TaskContinuationRegistry) :
    Bool × TaskContinuationRegistry :=
  let (synthetic, registry) := registerSyntheticContinuation registry
  let (candidate, registry) := registerMinimalCandidateContinuation registry
  let (scripted, registry) := registerScriptedKvContinuationFromTaskMetadata registry
  (scripted && (candidate && synthetic), registry)

/-! ### Who is found -/

theorem findHandler_builtin (registry : TaskContinuationRegistry) :
    let builtin := (registerBuiltinRecoveryHandlers registry).2
    builtin.findHandler (ascii "synthetic.candidate_selection") =
      some continueRecoveredSyntheticTask ∧
      builtin.findHandler (ascii "agent_task.minimal_candidate_task") =
        some (fun config execution => continueRecoveredMinimalCandidateTask config execution) ∧
      builtin.findHandler (ascii "kv_style.scripted_kv_task") = some continueFromTaskMetadata := by
  intro builtin
  have hfind : ∀ workloadName, builtin.findHandler workloadName =
      if workloadName = ascii "kv_style.scripted_kv_task" then some continueFromTaskMetadata
      else if workloadName = ascii "agent_task.minimal_candidate_task" then
        some fun config execution => continueRecoveredMinimalCandidateTask config execution
      else if workloadName = ascii "synthetic.candidate_selection" then
        some continueRecoveredSyntheticTask
      else registry.findHandler workloadName := by
    intro workloadName
    refine (@TaskContinuationRegistry.findHandler_registerHandler
      _ (ascii "kv_style.scripted_kv_task") (by decide) _
      workloadName).trans ?_
    congr 1
    refine (@TaskContinuationRegistry.findHandler_registerHandler
      _ (ascii "agent_task.minimal_candidate_task") (by decide) _
      workloadName).trans ?_
    congr 1
    exact @TaskContinuationRegistry.findHandler_registerHandler registry
      (ascii "synthetic.candidate_selection") (by decide) _
      workloadName
  refine ⟨?_, ?_, ?_⟩
  · rw [hfind, if_neg (by decide), if_neg (by decide), if_pos rfl]
  · rw [hfind, if_neg (by decide), if_pos rfl]
  · rw [hfind, if_pos rfl]

/-! ### What the scripted handler reads -/

variable {script : KvTaskScript} {config : FallbackCommitRuntimeConfig} {kind : StoreKind}
  {submitted session : TaskSession} {v w : World} {path : Bytes}

/-- How the recovery of a script is to go on. -/
def KvTaskScript.recoverySpec (script : KvTaskScript) : TaskContinuationSpec where
  preferredBranchId := script.recoveryPreferredBranchId
  score := strtod (printedDouble script.recoveryScore)
  summary := script.recoverySummary

theorem roundedMillionths_intCast (i : ℤ) : roundedMillionths i = i.natAbs * 10 ^ 6 := by
  simp [roundedMillionths, Nat.mod_one]

/-- An integer of at most 53 bits is read back as it was printed. -/
theorem strtod_printedDouble {i : ℤ} (hi : i.natAbs < 2 ^ 53) :
    strtod (printedDouble (.finite i)) = .finite i := by
  have hmagnitude : strtodMagnitude (decimal i.natAbs ++ 46 :: List.replicate 6 48) =
      .finite i.natAbs :=
    strtodMagnitude_zeros hi 6
  have hzeros : (decimal (10 ^ 6)).drop 1 = List.replicate 6 48 := rfl
  have hprinted : printedDouble (.finite i) =
      (if i < 0 then [45] else []) ++ (decimal i.natAbs ++ 46 :: List.replicate 6 48) := by
    have hquotient : i.natAbs * 10 ^ 6 / 10 ^ 6 = i.natAbs := Nat.mul_div_cancel _ (by decide)
    simp only [printedDouble, roundedMillionths_intCast, hquotient,
      Nat.mul_mod_left, Nat.add_zero, hzeros, Int.cast_lt_zero, List.append_assoc]
    rfl
  rw [hprinted]
  by_cases hneg : i < 0
  · have habs : (i.natAbs : ℚ) = -i := by rw [Nat.cast_natAbs, abs_of_neg hneg, Int.cast_neg]
    rw [if_pos hneg]
    show (strtodMagnitude (decimal i.natAbs ++ 46 :: List.replicate 6 48)).neg = .finite i
    rw [hmagnitude, Double.neg, habs, neg_neg]
  · have habs : (i.natAbs : ℚ) = i := by rw [Nat.cast_natAbs, abs_of_nonneg (not_lt.1 hneg)]
    rw [if_neg hneg, List.nil_append, strtod, readSign_decimal_append]
    exact hmagnitude.trans (by rw [habs])

/-- A score that is such an integer is the score of the recovery. -/
theorem score_recoverySpec {i : ℤ} (hscore : script.recoveryScore = .finite i)
    (hi : i.natAbs < 2 ^ 53) :
    script.recoverySpec.score = script.recoveryScore := by
  rw [KvTaskScript.recoverySpec, hscore]
  exact strtod_printedDouble hi

/-- The calls of the steps that come back. -/
def KvTaskScript.recoveryCalls (script : KvTaskScript) (branchId : Bytes) : List SessionCall :=
  (script.recoverySteps.map KvStep.asLoaded).map (KvStep.toCall branchId)

/-- A step that comes back names its object. -/
theorem namesObject_recoveryCalls (script : KvTaskScript) (branchId : Bytes) :
    ∀ call ∈ script.recoveryCalls branchId, call.op.NamesObject := by
  intro call hcall
  obtain ⟨step, hstep, rfl⟩ := List.mem_map.1 hcall
  obtain ⟨step, -, rfl⟩ := List.mem_map.1 hstep
  unfold KvStep.toCall
  cases hkind : step.asLoaded.kind with
  | write => exact rfl
  | _ => trivial

theorem workloadName_buildTaskContext (script : KvTaskScript) :
    (buildTaskContext script).workloadName = ascii "kv_style.scripted_kv_task" := by
  have hcollect : ∀ (steps : List KvStep) (refs : CollectedRefs),
      (steps.foldl collectStepRefs refs).task.workloadName = refs.task.workloadName := by
    intro steps
    induction steps with
    | nil => exact fun refs => rfl
    | cons step steps ih =>
      intro refs
      rw [List.foldl_cons, ih]
      unfold collectStepRefs
      cases step.kind <;> rfl
  have hfields : ∀ (fields : List (Bytes × Bytes)) (task : TaskContext),
      (fields.foldl (fun task field => task.setMetadata field.1 field.2) task).workloadName =
          task.workloadName := by
    intro fields
    induction fields with
    | nil => exact fun task => rfl
    | cons field fields ih => exact fun task => ih _
  exact (hfields _ _).trans (hcollect _ _)

/-- Whatever was done with a scripted task before its log was written, the built-in handlers
carry on with the recovery that the script has planned. -/
theorem continue_scripted (registry : TaskContinuationRegistry)
    (hsubmit : ((submitTask config (buildTaskContext script) (buildExecutionPlan script)).run
      (handle kind) v).1 = .ok submitted)
    (hoperated : Operated submitted session) (hlog : HoldsLog w path session)
    (hsteps : script.recoverySteps.length < 2 ^ 64)
    (hsize : session.task.metadata.keys.length < 2 ^ 64) (config' : FallbackCommitRuntimeConfig) :
    ∃ execution, (buildRecoveryExecutionFromLog config' path).run (handle kind) w =
      (.ok execution, w) ∧
      (registerBuiltinRecoveryHandlers registry).2.continue_ config' execution =
        continueRecoveredTask config' execution script.recoverySpec fun _ branchId =>
          callsWork (script.recoveryCalls branchId) := by
  obtain ⟨-, -, hsubmitted⟩ := isSubmitted_of_submitTask hsubmit
  have hcarries := carries_of_operated hoperated
  have htask : submitted.task.metadata = (buildTaskContext script).metadata := by
    rw [hsubmitted.task]
  have hworkload : session.task.workloadName = ascii "kv_style.scripted_kv_task" := by
    rw [(workload_of_operated hoperated).1, hsubmitted.task, ← workloadName_buildTaskContext script]
  have hnamed : ∀ key ∈ session.task.metadata.keys, key ≠ [] := by
    intro key hkey
    rcases hcarries.keys key hkey with hkey | hkey
    · rw [htask] at hkey
      exact named_buildTaskContext script key hkey
    · have hnotes : ∀ key ∈ noteKeys, key ≠ [] := by decide
      exact hnotes key hkey
  obtain ⟨execution, hrun, hname, hmetadata⟩ :=
    @buildRecoveryExecutionFromLog_carries kind _ w path config'
    (hcarries.recoverable (inWork_of_submitTask hsubmit).recoverable) hlog
      (by rw [hworkload]; decide) hnamed hsize
  have hkeeps : Keeps execution.session.task (recoveryFields script) := by
    intro field hfield
    have hprefix := prefix_of_mem_recoveryFields (List.mem_map_of_mem hfield)
    have hoff : ∀ key ∈ noteKeys ++ recoveryKeys ++
      [ascii "recovery_command", ascii "recovery_summary"],
        ¬ascii "recovery." <+: key := by decide
    have hother : ∀ {key}, key ∈ noteKeys ++ recoveryKeys ++
      [ascii "recovery_command", ascii "recovery_summary"] →
        field.1 ≠ key := fun hkey heq => hoff _ hkey (heq ▸ hprefix)
    rw [metadataValue, hmetadata field.1 (fun hmem => hother (by simp [hmem]) rfl)
      (hother (by simp)) (hother (by simp)),
      hcarries.metadata field.1 (fun hmem => hother (by simp [hmem]) rfl), htask]
    exact keeps_buildTaskContext script field hfield
  have hscore : metadataValue execution.session.task (ascii "recovery.score") =
      printedDouble script.recoveryScore :=
    hkeeps (_, _) (List.mem_append_right _ List.mem_cons_self)
  have hsummary : metadataValue execution.session.task (ascii "recovery.summary") =
      script.recoverySummary :=
    hkeeps (_, _) (List.mem_append_right _ (List.mem_cons_of_mem _ List.mem_cons_self))
  have hpreferred : metadataValue execution.session.task (ascii "recovery.preferred_branch_id") =
      script.recoveryPreferredBranchId :=
    hkeeps (_, _)
      (List.mem_append_right _ (List.mem_cons_of_mem _ (List.mem_cons_of_mem _ List.mem_cons_self)))
  refine ⟨execution, hrun, ?_⟩
  rw [TaskContinuationRegistry.continue_of_findHandler (by decide) (hname.trans hworkload)
      (findHandler_builtin registry).2.2, continueFromTaskMetadata,
        loadRecoveryStepsFromTask_of_keeps hkeeps hsteps,
    hscore, hsummary, hpreferred]
  rfl

/-- A scripted task that is lost in the middle of its work, and taken up from its log by the
built-in handlers, ends as if it had carried on with its recovery steps itself. -/
theorem continue_scripted_asIfAlive (registry : TaskContinuationRegistry)
    (hsubmit : ((submitTask config (buildTaskContext script) (buildExecutionPlan script)).run
      (handle .memory) v).1 = .ok submitted)
    (hworked : Relation.ReflTransGen (WorkStep .memory config (SessionOp.LogsAll w.store))
      submitted session)
    (hlog : HoldsLog w path session) (hresumable : Resumable session)
    (hsteps : script.recoverySteps.length < 2 ^ 64)
    (hsize : session.task.metadata.keys.length < 2 ^ 64) (config' : FallbackCommitRuntimeConfig) :
    ∃ execution, (buildRecoveryExecutionFromLog config' path).run (handle .memory) w =
      (.ok execution, w) ∧
      let recovered :=
  ((registerBuiltinRecoveryHandlers registry).2.continue_ config' execution).run (handle .memory) w
      let alive :=
        (carryOn config session script.recoverySpec script.recoveryCalls).run (handle .memory) w
      recovered.1.1 = alive.1.1 ∧ ∀ k, recovered.2.store.get k = alive.2.store.get k := by
  obtain ⟨execution, hbuilt, hcontinue⟩ :=
    continue_scripted registry hsubmit (operated_of_workStep hworked) hlog
    hsteps hsize config'
  have hwork : WorkedOn .memory config (SessionOp.LogsAll w.store) session :=
    ⟨_, _, v, submitted, hsubmit, hworked⟩
  obtain ⟨execution', resumed, hbuilt', hexecuted, htarget, htwins⟩ :=
    @exists_resumed config config' session w path hwork hlog hresumable
  rw [hbuilt, Prod.mk.injEq, Except.ok.injEq] at hbuilt'
  obtain ⟨rfl, -⟩ := hbuilt'
  refine ⟨execution, hbuilt, ?_⟩
  rw [hcontinue]
  exact continued_of_twins hexecuted htarget (hresumable.lastBranchId_ne_nil hwork.inWork) htwins _
    (namesObject_recoveryCalls script)

/-- The task of a script with a recovery, submitted. -/
def submittedScript : TaskSession :=
  match ((submitTask {} (buildTaskContext appendScript) (buildExecutionPlan appendScript)).run
      (handle .memory) {}).1 with
  | .ok session => session
  | .error _ => {}

/-- The task once its branch has written. -/
def workedScript : TaskSession :=
  (((SessionOp.write (ascii "b") (ascii "k") .text (appendToK (ascii "x"))).perform {}
    submittedScript).run (handle .memory) {}).1

theorem continue_scripted_asIfAlive_workedScript :
    let metadata := workedScript.task.metadata.entries.map fun entry => (entry.1, entry.2)
    let w := ((writeTaskEventLogArtifact workedScript metadata (ascii "log")).run
      (handle .memory) {}).2
    ∃ execution, (buildRecoveryExecutionFromLog {} (ascii "log")).run (handle .memory) w =
      (.ok execution, w) ∧
      let recovered :=
        ((registerBuiltinRecoveryHandlers {}).2.continue_ {} execution).run (handle .memory) w
      let alive :=
        (carryOn {} workedScript appendScript.recoverySpec appendScript.recoveryCalls).run
        (handle .memory) w
      recovered.1.1 = alive.1.1 ∧ ∀ k, recovered.2.store.get k = alive.2.store.get k := by
  intro metadata w
  have hlog : HoldsLog w (ascii "log") workedScript :=
    holdsLog_writeTaskEventLogArtifact (List.Perm.refl metadata) .memory (ascii "log") {}
  have hworked : Relation.ReflTransGen (WorkStep .memory {} (SessionOp.LogsAll w.store))
      submittedScript workedScript :=
    .single (.perform rfl ⟨rfl, rfl, rfl⟩)
  exact @continue_scripted_asIfAlive appendScript {} submittedScript workedScript {} w
    (ascii "log") {} rfl hworked hlog
    ⟨_, rfl, .inl rfl⟩ (by decide) (by decide) {}

end DataAgentSystem.Workloads
