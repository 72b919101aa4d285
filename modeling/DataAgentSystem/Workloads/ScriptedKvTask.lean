import DataAgentSystem.Runtime.CarriedMetadata

/-! Scripted tasks of the key-value workload. The steps that are to be taken after a
recovery are flattened into the metadata of the task, under numbered keys, and decoded
from the metadata of the recovered task. The keys of the steps are none of those that
the branches, a commit or the recovery set, so the steps come back as they were. -/

namespace DataAgentSystem.Workloads

open Text Intent Cache Branch Storage Interaction Containers DataAgentSystem.Runtime

inductive StepKind where
  | read | write | savepoint | rollbackToSavepoint
  deriving DecidableEq

structure KvStep where
  kind : StepKind := .read
  objectId : Bytes := []
  objectType : ObjectType := .generic
  intent : WriteIntent := { objectId := [] }
  savepointId : Bytes := []
  deriving DecidableEq

structure KvBranchProgram where
  branchId : Bytes
  score : Double := .finite 0
  summary : Bytes := []
  steps : List KvStep := []

structure KvTaskScript where
  taskId : Bytes
  objective : Bytes
  branches : List KvBranchProgram := []
  recoverySteps : List KvStep := []
  recoveryScore : Double := .finite 0
  recoverySummary : Bytes := []
  recoveryPreferredBranchId : Bytes := []

def kvStepKindName : StepKind → Bytes
  | .read => ascii "read"
  | .write => ascii "write"
  | .savepoint => ascii "savepoint"
  | .rollbackToSavepoint => ascii "rollback_to_savepoint"

def kvStepKindFromName (name : Bytes) : StepKind :=
  if name = ascii "write" then .write
  else if name = ascii "savepoint" then .savepoint
  else if name = ascii "rollback_to_savepoint" then .rollbackToSavepoint
  else .read

/-! ### The task of a script -/

def addKvObjectReferenceIfMissing (objectRoles : UnorderedMap Bytes)
    (objects : List ObjectReference) (objectId objectRole : Bytes) :
    UnorderedMap Bytes × List ObjectReference :=
  if objectId = [] then (objectRoles, objects)
  else
    let (inserted, objectRoles) := objectRoles.emplace objectId objectRole
    (objectRoles, if inserted then objects ++ [{ objectId, objectRole }] else objects)

def buildExecutionPlan (script : KvTaskScript) : ExecutionPlan :=
  script.branches.foldl (fun plan branch =>
    plan.addBranchPlan branch.branchId (branch.branchId ++ ascii "_candidate")
      (ascii "scripted kv branch") branch.score) {}

/-- The roles given out so far, and the task that refers to their objects. -/
structure CollectedRefs where
  inputRoles : UnorderedMap Bytes := ∅
  outputRoles : UnorderedMap Bytes := ∅
  task : TaskContext

def collectStepRefs (refs : CollectedRefs) (step : KvStep) : CollectedRefs :=
  match step.kind with
  | .read =>
    let (inputRoles, inputObjects) :=
      addKvObjectReferenceIfMissing refs.inputRoles refs.task.inputObjects
        step.objectId (ascii "kv_input")
    { refs with inputRoles, task := { refs.task with inputObjects } }
  | .write =>
    let (outputRoles, outputObjects) :=
      addKvObjectReferenceIfMissing refs.outputRoles refs.task.outputObjects
        step.objectId (ascii "kv_output")
    { refs with outputRoles, task := { refs.task with outputObjects } }
  | .savepoint | .rollbackToSavepoint => refs

def objectTypeValue : ObjectType → Int64
  | .generic => 0
  | .row => 1
  | .text => 2
  | .candidateResult => 3

def conditionTypeValue : ConditionType → Int64
  | .none => 0
  | .valueEquals => 1

/-- `std::to_string` of an enumerator that has been cast to a number. -/
def printedValue (value : Int64) : Bytes := signedDecimal value.toInt

/-- The millionths of a number, rounded to the nearest one and from the middle to the even one. -/
def roundedMillionths (value : ℚ) : ℕ :=
  let scaled := value.num.natAbs * 10 ^ 6
  let quotient := scaled / value.den
  let rest := scaled % value.den
  if 2 * rest < value.den ∨ (2 * rest = value.den ∧ quotient % 2 = 0) then quotient
    else quotient + 1

/-- `std::to_string` of a double. The sign of a zero and of a NaN is not modelled. -/
def printedDouble : Double → Bytes
  | .nan => ascii "nan"
  | .negativeInfinity => ascii "-inf"
  | .infinity => ascii "inf"
  | .finite value =>
    let millionths := roundedMillionths value
    (if value < 0 then ascii "-" else []) ++ decimal (millionths / 10 ^ 6) ++ ascii "." ++
      (decimal (10 ^ 6 + millionths % 10 ^ 6)).drop 1

/-- The key of a field of the step with this number. -/
def stepKey (i : ℕ) (field : Bytes) : Bytes := ascii "recovery.step." ++ decimal i ++ field

def stepFields (i : ℕ) (step : KvStep) : List (Bytes × Bytes) :=
  [(stepKey i (ascii ".kind"), kvStepKindName step.kind),
    (stepKey i (ascii ".object_id"), step.objectId),
    (stepKey i (ascii ".object_type"), printedValue (objectTypeValue step.objectType)),
    (stepKey i (ascii ".intent_type"), printedValue (intentTypeValue step.intent.intentType)),
    (stepKey i (ascii ".payload"), step.intent.payload),
    (stepKey i (ascii ".condition_type"),
      printedValue (conditionTypeValue step.intent.condition.type)),
    (stepKey i (ascii ".condition_value"), step.intent.condition.expectedValue),
    (stepKey i (ascii ".savepoint_id"), step.savepointId)]

def branchFields (script : KvTaskScript) : List (Bytes × Bytes) :=
  script.branches.map fun branch => (ascii "branch:" ++ branch.branchId, branch.summary)

def recoveryFields (script : KvTaskScript) : List (Bytes × Bytes) :=
  (ascii "recovery.step_count", decimal script.recoverySteps.length) ::
    (script.recoverySteps.zipIdx.flatMap fun (step, i) => stepFields i step) ++
    [(ascii "recovery.score", printedDouble script.recoveryScore),
      (ascii "recovery.summary", script.recoverySummary),
      (ascii "recovery.preferred_branch_id", script.recoveryPreferredBranchId)]

def buildTaskContext (script : KvTaskScript) : TaskContext :=
  let task : TaskContext := {
    taskId := script.taskId
    objective := script.objective
    workloadName := ascii "kv_style.scripted_kv_task"
    plannerId := ascii "kv_style_script_runner" }
  let steps := script.branches.flatMap KvBranchProgram.steps ++ script.recoverySteps
  (branchFields script ++ recoveryFields script).foldl
    (fun task field => task.setMetadata field.1 field.2)
    (steps.foldl collectStepRefs { task }).task

/-! ### The steps of a task -/

/-- The enumerator of a value. The cast of the source takes any number, so a value that
no enumerator has is outside of what is modelled. -/
def enumeratorOf {α : Type} (enumerators : List α) (valueOf : α → Int64)
    (value : Int64) : Option α :=
  enumerators.find? fun enumerator => valueOf enumerator = value

def metadataValue (task : TaskContext) (key : Bytes) : Bytes := (task.metadata.lookup key).getD []

def loadRecoveryStep (task : TaskContext) (i : ℕ) : Option KvStep := do
  let value := fun field => metadataValue task (stepKey i (ascii field))
  let objectType ← enumeratorOf [.generic, .row, .text, .candidateResult] objectTypeValue
    (strtoll (value ".object_type"))
  let intentType ← enumeratorOf [.read, .overwrite, .append, .delta, .cas] intentTypeValue
    (strtoll (value ".intent_type"))
  let conditionType ← enumeratorOf [.none, .valueEquals] conditionTypeValue
    (strtoll (value ".condition_type"))
  return {
    kind := kvStepKindFromName (value ".kind")
    objectId := value ".object_id"
    objectType
    intent := {
      objectId := value ".object_id"
      intentType
      payload := value ".payload"
      condition := { type := conditionType, expectedValue := value ".condition_value" } }
    savepointId := value ".savepoint_id" }

/-- The loop over the steps, from a number on. -/
def loadRecoverySteps (task : TaskContext) (i : ℕ) : ℕ → Option (List KvStep)
  | 0 => some []
  | count + 1 => do
    let step ← loadRecoveryStep task i
    let steps ← loadRecoverySteps task (i + 1) count
    return step :: steps

def loadRecoveryStepsFromTask (task : TaskContext) : Option (List KvStep) :=
  loadRecoverySteps task 0 (strtoull (metadataValue task (ascii "recovery.step_count"))).toNat

/-- A step as it comes back: its intent is about its object. -/
def KvStep.asLoaded (step : KvStep) : KvStep :=
  { step with intent := { step.intent with objectId := step.objectId } }

variable {task : TaskContext} {script : KvTaskScript}

/-! ### Decoding -/

theorem kvStepKindFromName_kvStepKindName (kind : StepKind) :
    kvStepKindFromName (kvStepKindName kind) = kind := by
  cases kind <;> decide

theorem strtoll_printedValue (value : Int64) : strtoll (printedValue value) = value :=
  strtoll_signedDecimal value

theorem enumeratorOf_objectTypeValue (objectType : ObjectType) :
    enumeratorOf [.generic, .row, .text, .candidateResult] objectTypeValue
      (objectTypeValue objectType) = some objectType := by
  cases objectType <;> decide

theorem enumeratorOf_intentTypeValue (intentType : IntentType) :
    enumeratorOf [.read, .overwrite, .append, .delta, .cas] intentTypeValue
      (intentTypeValue intentType) = some intentType := by
  cases intentType <;> decide

theorem enumeratorOf_conditionTypeValue (conditionType : ConditionType) :
    enumeratorOf [.none, .valueEquals] conditionTypeValue (conditionTypeValue conditionType) =
      some conditionType := by
  cases conditionType <;> decide

/-- The task has each field under its key. -/
def Keeps (task : TaskContext) (fields : List (Bytes × Bytes)) : Prop :=
  ∀ field ∈ fields, metadataValue task field.1 = field.2

/-- A step is decoded from its fields. -/
theorem loadRecoveryStep_of_keeps {i : ℕ} {step : KvStep} (h : Keeps task (stepFields i step)) :
    loadRecoveryStep task i = some step.asLoaded := by
  simp only [Keeps, stepFields, List.forall_mem_cons, List.not_mem_nil, false_implies,
    implies_true, and_true] at h
  obtain ⟨hkind, hobjectId, hobjectType, hintentType, hpayload, hconditionType,
    hconditionValue, hsavepointId⟩ := h
  simp only [loadRecoveryStep, hkind, hobjectId, hobjectType, hintentType, hpayload,
    hconditionType, hconditionValue, hsavepointId, strtoll_printedValue,
    enumeratorOf_objectTypeValue, enumeratorOf_intentTypeValue,
    enumeratorOf_conditionTypeValue, kvStepKindFromName_kvStepKindName]
  rfl

theorem loadRecoverySteps_of_keeps {steps : List KvStep} {i : ℕ}
    (h : ∀ pair ∈ steps.zipIdx i, Keeps task (stepFields pair.2 pair.1)) :
    loadRecoverySteps task i steps.length = some (steps.map KvStep.asLoaded) := by
  induction steps generalizing i with
  | nil => rfl
  | cons step steps ih =>
    rw [List.zipIdx_cons, List.forall_mem_cons] at h
    rw [List.length_cons, loadRecoverySteps, loadRecoveryStep_of_keeps h.1, ih h.2]
    rfl

/-- All steps are decoded from the fields of the recovery. -/
theorem loadRecoveryStepsFromTask_of_keeps (h : Keeps task (recoveryFields script))
    (hsize : script.recoverySteps.length < 2 ^ 64) :
    loadRecoveryStepsFromTask task = some (script.recoverySteps.map KvStep.asLoaded) := by
  have hcount : metadataValue task (ascii "recovery.step_count") =
      decimal script.recoverySteps.length :=
    h _ (List.mem_append_left _ List.mem_cons_self)
  have hprinted := strtoull_decimal (UInt64.ofNat script.recoverySteps.length)
  rw [UInt64.toNat_ofNat_of_lt' hsize] at hprinted
  rw [loadRecoveryStepsFromTask, hcount, hprinted, UInt64.toNat_ofNat_of_lt' hsize]
  apply loadRecoverySteps_of_keeps
  intro pair hpair field hfield
  exact h field
    (List.mem_append_left _ (List.mem_cons_of_mem _ (List.mem_flatMap.2 ⟨pair, hpair, hfield⟩)))

/-! ### Keys -/

/-- What follows the number of a step in its keys. -/
def stepEndings : List Bytes :=
  [ascii ".kind", ascii ".object_id", ascii ".object_type", ascii ".intent_type",
    ascii ".payload", ascii ".condition_type", ascii ".condition_value", ascii ".savepoint_id"]

theorem map_key_stepFields (script : KvTaskScript) :
    (script.recoverySteps.zipIdx.flatMap fun (step, i) => stepFields i step).map Prod.fst =
      numberedKeys (ascii "recovery.step.") stepEndings script.recoverySteps.length := by
  rw [List.map_flatMap, numberedKeys,
    List.range_eq_range', ← List.zipIdx_map_snd 0 script.recoverySteps, List.flatMap_map]
  rfl

theorem map_key_recoveryFields (script : KvTaskScript) : (recoveryFields script).map Prod.fst =
    ascii "recovery.step_count" :: numberedKeys (ascii "recovery.step.") stepEndings
      script.recoverySteps.length ++
      [ascii "recovery.score", ascii "recovery.summary", ascii "recovery.preferred_branch_id"] := by
  rw [recoveryFields, List.map_append, List.map_cons, map_key_stepFields]
  rfl

/-- No key of the recovery is set twice. -/
theorem nodup_recoveryFields (script : KvTaskScript) :
    ((recoveryFields script).map Prod.fst).Nodup := by
  have hsteps :
      (numberedKeys (ascii "recovery.step.") stepEndings script.recoverySteps.length).Nodup :=
    nodup_numberedKeys _ _ (by decide) (by decide)
  have hother :
    ∀ key ∈ [ascii "recovery.step_count", ascii "recovery.score", ascii "recovery.summary",
      ascii "recovery.preferred_branch_id"], key ∉ numberedKeys (ascii "recovery.step.") stepEndings
      script.recoverySteps.length := by
    have hstart :
      ∀ key ∈ [ascii "recovery.step_count", ascii "recovery.score", ascii "recovery.summary",
        ascii "recovery.preferred_branch_id"], ¬ascii "recovery.step." <+: key := by decide
    exact fun key hkey hmem => hstart key hkey (start_prefix_of_mem hmem)
  rw [map_key_recoveryFields, List.cons_append, List.nodup_cons, List.mem_append, List.nodup_append]
  rw [List.forall_mem_cons] at hother
  refine ⟨?_, hsteps, by decide, ?_⟩
  · rintro (hmem | hmem)
    · exact hother.1 hmem
    · exact absurd hmem (by decide)
  · rintro key hkey _ hkey' rfl
    exact hother.2 key hkey' hkey

/-- Every key of the recovery begins alike. -/
theorem prefix_of_mem_recoveryFields {key : Bytes}
    (h : key ∈ (recoveryFields script).map Prod.fst) :
    ascii "recovery." <+: key := by
  rw [map_key_recoveryFields] at h
  rcases List.mem_append.1 h with h | h
  · rcases List.mem_cons.1 h with rfl | h
    · decide
    · exact List.IsPrefix.trans (by decide) (start_prefix_of_mem h)
  · have hfixed :
      ∀ key ∈ [ascii "recovery.score", ascii "recovery.summary",
        ascii "recovery.preferred_branch_id"],
        ascii "recovery." <+: key := by decide
    exact hfixed key h

/-! ### The task -/

theorem metadata_collectStepRefs (steps : List KvStep) (refs : CollectedRefs) :
    (steps.foldl collectStepRefs refs).task.metadata = refs.task.metadata := by
  induction steps generalizing refs with
  | nil => rfl
  | cons step steps ih =>
    rw [List.foldl_cons, ih]
    unfold collectStepRefs
    cases step.kind <;> rfl

theorem metadata_setMetadata (fields : List (Bytes × Bytes)) (task : TaskContext) :
    (fields.foldl (fun task field => task.setMetadata field.1 field.2) task).metadata =
      UnorderedMap.assignAll Prod.fst Prod.snd fields task.metadata := by
  induction fields generalizing task with
  | nil => rfl
  | cons field fields ih => exact ih _

theorem metadata_buildTaskContext (script : KvTaskScript) : (buildTaskContext script).metadata =
    UnorderedMap.assignAll Prod.fst Prod.snd (branchFields script ++ recoveryFields script) ∅ := by
  rw [buildTaskContext, metadata_setMetadata, metadata_collectStepRefs]

theorem keeps_buildTaskContext (script : KvTaskScript) :
    Keeps (buildTaskContext script) (recoveryFields script) := by
  intro field hfield
  have hassigned : (UnorderedMap.assignAll Prod.fst Prod.snd (recoveryFields script)
      (UnorderedMap.assignAll Prod.fst Prod.snd (branchFields script) ∅)).lookup field.1 =
          some field.2 :=
    UnorderedMap.lookup_assignAll_of_mem Prod.snd _ (nodup_recoveryFields script) hfield
  rw [metadataValue, metadata_buildTaskContext, UnorderedMap.assignAll, List.foldl_append]
  exact congrArg (Option.getD · []) hassigned

theorem named_buildTaskContext (script : KvTaskScript) :
    ∀ key ∈ (buildTaskContext script).metadata.keys, key ≠ [] := by
  rintro _ hkey rfl
  have hsome := AList.lookup_isSome.2 (AList.mem_keys.2 hkey)
  have hnone : (branchFields script ++ recoveryFields script).reverse.find?
      (fun field => field.1 = []) = none := by
    rw [List.find?_eq_none]
    intro field hfield heq
    have hempty : field.1 = [] := of_decide_eq_true heq
    rcases List.mem_append.1 (List.mem_reverse.1 hfield) with hfield | hfield
    · obtain ⟨branch, -, rfl⟩ := List.mem_map.1 hfield
      cases hempty
    · have hprefix := prefix_of_mem_recoveryFields (List.mem_map_of_mem hfield)
      rw [hempty] at hprefix
      exact absurd hprefix (by decide)
  rw [metadata_buildTaskContext, UnorderedMap.lookup_assignAll, hnone] at hsome
  cases hsome

/-- The steps to be taken after a recovery come back from the log of the session, in
order, whatever was done with the session after its submission. The steps are a vector
and the metadata a map, so a word counts them. -/
theorem loadRecoveryStepsFromTask_recovered {config : FallbackCommitRuntimeConfig}
    {kind : StoreKind} {submitted session : TaskSession} {w v : World} {path : Bytes}
    (hsubmit : ((submitTask config (buildTaskContext script) (buildExecutionPlan script)).run
      (handle kind) w).1 = .ok submitted)
    (hoperated : Operated submitted session) (hlog : HoldsLog v path session)
    (hsteps : script.recoverySteps.length < 2 ^ 64)
    (hsize : session.task.metadata.keys.length < 2 ^ 64) (config' : FallbackCommitRuntimeConfig)
    (kind' : StoreKind) :
    ∃ recovered, (recoverSessionFromLog config' path).run (handle kind') v = (.ok recovered, v) ∧
      loadRecoveryStepsFromTask recovered.session.task =
        some (script.recoverySteps.map KvStep.asLoaded) := by
  obtain ⟨-, -, hsubmitted⟩ := isSubmitted_of_submitTask hsubmit
  have hcarries := carries_of_operated hoperated
  have hmetadata : submitted.task.metadata = (buildTaskContext script).metadata := by
    rw [hsubmitted.task]
  have hnamed : ∀ key ∈ session.task.metadata.keys, key ≠ [] := by
    intro key hkey
    rcases hcarries.keys key hkey with hkey | hkey
    · rw [hmetadata] at hkey
      exact named_buildTaskContext script key hkey
    · have hnotes : ∀ key ∈ noteKeys, key ≠ [] := by decide
      exact hnotes key hkey
  have hrecoverable := hcarries.recoverable (inWork_of_submitTask hsubmit).recoverable
  obtain ⟨recovered, hrun, hkept⟩ :=
    @lookup_recoverSessionFromLog _ kind' _ _ config' hrecoverable hlog hnamed hsize
  refine ⟨recovered, hrun, loadRecoveryStepsFromTask_of_keeps (fun field hfield => ?_) hsteps⟩
  -- the keys of the recovery steps are set neither by a commit nor by the recovery
  have hprefix := prefix_of_mem_recoveryFields (List.mem_map_of_mem hfield)
  have hnote : field.1 ∉ noteKeys := by
    have hnotes : ∀ key ∈ noteKeys, ¬ascii "recovery." <+: key := by decide
    exact fun hmem => hnotes _ hmem hprefix
  have hrecovery : field.1 ∉ recoveryKeys := by
    have hkeys : ∀ key ∈ recoveryKeys, ¬ascii "recovery." <+: key := by decide
    exact fun hmem => hkeys _ hmem hprefix
  rw [metadataValue, hkept field.1 hrecovery, hcarries.metadata field.1 hnote, hmetadata]
  exact keeps_buildTaskContext script field hfield

/-- A script with one branch and two steps for a recovery. -/
def appendScript : KvTaskScript where
  taskId := ascii "1"
  objective := ascii "o"
  branches := [{ branchId := ascii "b" }]
  recoverySteps := [
    { objectId := ascii "k" },
    { kind := .write, objectId := ascii "k", objectType := .text
      intent := {
        objectId := [], intentType := .append, payload := ascii "x\n",
        condition := { type := .valueEquals } } }]

/-- The task of the script, submitted and aborted. -/
def abortedScript : TaskSession :=
  match ((submitTask {} (buildTaskContext appendScript) (buildExecutionPlan appendScript)).run
      (handle .memory) {}).1 with
  | .ok session => session.abortTask
  | .error _ => {}

theorem loadRecoveryStepsFromTask_recovered_abortedScript :
    let metadata := abortedScript.task.metadata.entries.map fun entry => (entry.1, entry.2)
    ∃ recovered v, (recoverSessionFromLog {} (ascii "log")).run (handle .memory)
        ((writeTaskEventLogArtifact abortedScript metadata (ascii "log")).run (handle .memory)
          {}).2 = (.ok recovered, v) ∧
      loadRecoveryStepsFromTask recovered.session.task =
          some (appendScript.recoverySteps.map KvStep.asLoaded) := by
  intro metadata
  obtain ⟨submitted, hsubmit, habort⟩ : ∃ submitted,
      ((submitTask {} (buildTaskContext appendScript) (buildExecutionPlan appendScript)).run
        (handle .memory) {}).1 =
        .ok submitted ∧ submitted.abortTask = abortedScript := ⟨_, rfl, rfl⟩
  have hoperated : Operated submitted abortedScript :=
    .single ⟨{}, .memory, .abortTask, [], Program.interfered_ret.2 ⟨rfl, habort⟩⟩
  have hlog := holdsLog_writeTaskEventLogArtifact (List.Perm.refl metadata) .memory (ascii "log") {}
  obtain ⟨recovered, hrun, hsteps⟩ := loadRecoveryStepsFromTask_recovered hsubmit hoperated hlog
    (by decide) (by decide) {} .memory
  exact ⟨recovered, _, hrun, hsteps⟩

end DataAgentSystem.Workloads
