import DataAgentSystem.Runtime.PlannedWork
import DataAgentSystem.Workloads.ScriptedKvTask

/-! The run of a script. The runner submits the task, goes through the branches and their
steps one by one, and commits. What that comes to is read off the script: of each branch
the intents that its savepoints and rollbacks leave count, of the branches the one whose
score leads, and its intents are applied to what the store held, all or none. -/

namespace DataAgentSystem.Workloads

open Text Intent Cache Branch Storage Interaction Containers AgentTxn DataAgentSystem.Runtime

/-! ### The runner -/

def runStep (branchId : Bytes) (session : TaskSession) (step : KvStep) : Prog TaskSession :=
  match step.kind with
  | .read => do
    let (_, session) ← session.read branchId step.objectId
    return session
  | .write => session.write branchId step.objectId step.objectType step.intent
  | .savepoint => return session.savepoint branchId step.savepointId
  | .rollbackToSavepoint => return (session.rollbackToSavepoint branchId step.savepointId).2

def runSteps (branchId : Bytes) : List KvStep → TaskSession → Prog TaskSession
  | [], session => return session
  | step :: steps, session => do runSteps branchId steps (← runStep branchId session step)

def runBranches : List KvBranchProgram → TaskSession → Prog TaskSession
  | [], session => return session
  | branch :: branches, session => do
    let session ← runSteps branch.branchId branch.steps session
    runBranches branches (session.stageBranch branch.branchId branch.score branch.summary)

def runScriptedKvTask (config : FallbackCommitRuntimeConfig) (script : KvTaskScript) :
    Prog (Except Bytes TaskSession) := do
  match ← submitTask config (buildTaskContext script) (buildExecutionPlan script) with
  | .error what => return .error what
  | .ok session =>
    let session ← runBranches script.branches (withPlannedMetrics session script.branches.length)
    match ← session.commitTask config with
    | (.error what, _) => return .error what
    | (.ok _, session) => return .ok session

def makeReadStep (objectId : Bytes) : KvStep := { kind := .read, objectId }

def makeWriteStep (objectId : Bytes) (objectType : ObjectType) (intentType : IntentType)
    (payload : Bytes) (condition : Condition) : KvStep :=
  { kind := .write, objectId, objectType, intent := { objectId, intentType, payload, condition } }

def makeSavepointStep (savepointId : Bytes) : KvStep := { kind := .savepoint, savepointId }

def makeRollbackStep (savepointId : Bytes) : KvStep := { kind := .rollbackToSavepoint, savepointId }

/-! ### What a script says -/

namespace KvStep

def edit (step : KvStep) : Edit WriteIntent Bytes :=
  match step.kind with
  | .read => .keep
  | .write => .append step.intent
  | .savepoint => .save step.savepointId
  | .rollbackToSavepoint => .restore step.savepointId

/-- A write names the object of its intent. -/
def Named (step : KvStep) : Prop := step.kind = .write → step.intent.objectId = step.objectId

def toBranchOp (step : KvStep) : BranchOp :=
  match step.kind with
  | .read => .read step.objectId
  | .write => .write step.objectId step.objectType step.intent
  | .savepoint => .savepoint step.savepointId
  | .rollbackToSavepoint => .rollbackToSavepoint step.savepointId

end KvStep

theorem named_makeReadStep (objectId : Bytes) : (makeReadStep objectId).Named := by
  intro hkind
  cases hkind

theorem named_makeWriteStep (objectId : Bytes) (objectType : ObjectType) (intentType : IntentType)
    (payload : Bytes) (condition : Condition) :
    (makeWriteStep objectId objectType intentType payload condition).Named := fun _ => rfl

theorem named_makeSavepointStep (savepointId : Bytes) : (makeSavepointStep savepointId).Named := by
  intro hkind
  cases hkind

theorem named_makeRollbackStep (savepointId : Bytes) : (makeRollbackStep savepointId).Named := by
  intro hkind
  cases hkind

/-- The intents that the steps leave in the end. -/
def KvBranchProgram.intents (branch : KvBranchProgram) : List WriteIntent :=
  SnapshotLog.written (branch.steps.map KvStep.edit)

namespace KvTaskScript

/-- The intents that a commit of the script would apply. -/
def intents (script : KvTaskScript) : List WriteIntent :=
  match script.branches with
  | [] => []
  | branch :: branches => (leading KvBranchProgram.score branch branches).intents

/-- The script can be submitted. -/
structure Valid (script : KvTaskScript) : Prop where
  taskId : script.taskId ≠ []
  objective : script.objective ≠ []
  branches : script.branches ≠ []
  named : ∀ branch ∈ script.branches, branch.branchId ≠ []
  nodup : (script.branches.map (·.branchId)).Nodup

end KvTaskScript

/-- The outcome that a script says it has in a store. -/
structure SaysOf (script : KvTaskScript) (s : MemoryKVStore) (session : TaskSession)
    (s' : MemoryKVStore) : Prop where
  committed : session.committed = allResolve script.intents s
  store : ∀ k, s'.get k = if allResolve script.intents s then valueAfter script.intents s k
    else s.get k

variable {config : FallbackCommitRuntimeConfig} {kind : StoreKind}
  {script : KvTaskScript} {w : World}

/-! ### The work of a script -/

def KvBranchProgram.work (branch : KvBranchProgram) : BranchWork where
  branchId := branch.branchId
  ops := branch.steps.map KvStep.toBranchOp
  score := branch.score
  summary := branch.summary

theorem edit_toBranchOp (step : KvStep) : step.toBranchOp.edit = step.edit := by
  unfold KvStep.toBranchOp KvStep.edit
  cases step.kind <;> rfl

theorem writtenIntents_work (branch : KvBranchProgram) :
    writtenIntents branch.work.ops = branch.intents := by
  rw [writtenIntents, KvBranchProgram.work, List.map_map, KvBranchProgram.intents]
  exact congrArg SnapshotLog.written (List.map_congr_left fun step _ => edit_toBranchOp step)

theorem named_toBranchOp {step : KvStep} (h : step.Named) : step.toBranchOp.Named := by
  unfold KvStep.toBranchOp
  cases hkind : step.kind with
  | write => exact h hkind
  | _ => trivial

theorem runStep_eq (config : FallbackCommitRuntimeConfig) (branchId : Bytes)
    (session : TaskSession) (step : KvStep) :
    runStep branchId session step = (onSession branchId step.toBranchOp).perform config
      session := by
  unfold runStep KvStep.toBranchOp
  cases step.kind <;> rfl

theorem runSteps_eq (config : FallbackCommitRuntimeConfig) (branchId : Bytes) (steps : List KvStep)
    (session : TaskSession) :
    runSteps branchId steps session =
      performAll config (steps.map fun step => onSession branchId step.toBranchOp) session := by
  induction steps generalizing session with
  | nil => rfl
  | cons step steps ih =>
    rw [runSteps, runStep_eq config, List.map_cons, Runtime.performAll]
    exact congrArg (_ >>= ·) (funext ih)

/-- The runner does the work of each branch, one after the other. -/
theorem runBranches_eq (config : FallbackCommitRuntimeConfig) (branches : List KvBranchProgram)
    (session : TaskSession) :
    runBranches branches session =
      performAll config (sessionOps (branches.map KvBranchProgram.work)) session := by
  induction branches generalizing session with
  | nil => rfl
  | cons branch branches ih =>
    have hops : sessionOps ((branch :: branches).map KvBranchProgram.work) =
        (branch.steps.map fun step => onSession branch.branchId step.toBranchOp) ++
          .stageBranch branch.branchId branch.score branch.summary ::
              sessionOps (branches.map KvBranchProgram.work) := by
      simp [sessionOps, BranchWork.allOps, KvBranchProgram.work, onSession, Function.comp_def]
    rw [runBranches, runSteps_eq config, hops, performAll_append]
    exact congrArg (_ >>= ·) (funext fun session => ih _)

/-! ### The submission -/

theorem branchPlans_buildExecutionPlan (script : KvTaskScript) :
    (buildExecutionPlan script).branchPlans =
    script.branches.map fun branch => {
      branchId := branch.branchId
      candidateId := branch.branchId ++ ascii "_candidate"
      rationale := ascii "scripted kv branch"
      initialPriority := branch.score } := by
  have hfold : ∀ (branches : List KvBranchProgram) (plan : ExecutionPlan),
      (branches.foldl
        (fun plan branch =>
          plan.addBranchPlan branch.branchId (branch.branchId ++ ascii "_candidate")
          (ascii "scripted kv branch") branch.score) plan).branchPlans =
      plan.branchPlans ++ branches.map fun branch => {
        branchId := branch.branchId
        candidateId := branch.branchId ++ ascii "_candidate"
        rationale := ascii "scripted kv branch"
        initialPriority := branch.score } := by
    intro branches
    induction branches with
    | nil => simp
    | cons branch branches ih =>
      intro plan
      rw [List.foldl_cons, ih, List.map_cons, ExecutionPlan.addBranchPlan,
        List.append_assoc, List.singleton_append]
  exact hfold script.branches {}

/-- The task of a script is that of its id and its objective. -/
theorem validate_buildTaskContext (script : KvTaskScript) :
    (buildTaskContext script).validate = .ok () ↔
    script.taskId ≠ [] ∧ script.objective ≠ [] := by
  have hcollect : ∀ (steps : List KvStep) (refs : CollectedRefs),
      (steps.foldl collectStepRefs refs).task.taskId = refs.task.taskId ∧
        (steps.foldl collectStepRefs refs).task.objective = refs.task.objective := by
    intro steps
    induction steps with
    | nil => exact fun refs => ⟨rfl, rfl⟩
    | cons step steps ih =>
      intro refs
      rw [List.foldl_cons, (ih _).1, (ih _).2]
      unfold collectStepRefs
      cases step.kind <;> exact ⟨rfl, rfl⟩
  have hfields : ∀ (fields : List (Bytes × Bytes)) (task : TaskContext),
      (fields.foldl (fun task field => task.setMetadata field.1 field.2) task).taskId =
        task.taskId ∧
        (fields.foldl (fun task field => task.setMetadata field.1 field.2) task).objective =
            task.objective := by
    intro fields
    induction fields with
    | nil => exact fun task => ⟨rfl, rfl⟩
    | cons field fields ih => exact fun task => ih _
  have htask : (buildTaskContext script).taskId = script.taskId :=
    (hfields _ _).1.trans (hcollect _ _).1
  have hobjective : (buildTaskContext script).objective = script.objective :=
    (hfields _ _).2.trans (hcollect _ _).2
  rw [TaskContext.validate, htask, hobjective]
  by_cases hid : script.taskId = []
  · simp [hid]
  · by_cases hobj : script.objective = []
    · simp [hid, hobj]
    · simp [hid, hobj]

/-- A script is accepted exactly if it is valid. -/
theorem valid_iff (script : KvTaskScript) :
    script.Valid ↔ (buildTaskContext script).validate = .ok () ∧
      (buildExecutionPlan script).validate = .ok () := by
  have hids : (buildExecutionPlan script).branchPlans.map (·.branchId) =
      script.branches.map (·.branchId) := by
    rw [branchPlans_buildExecutionPlan, List.map_map]
    rfl
  rw [validate_buildTaskContext, ExecutionPlan.validate_eq_ok, hids, branchPlans_buildExecutionPlan,
    List.forall_mem_map]
  constructor
  · intro h
    refine ⟨⟨h.taskId, h.objective⟩, fun hnil => h.branches (List.map_eq_nil_iff.1 hnil),
      fun branch hbranch => ?_, h.nodup⟩
    exact ⟨h.named branch hbranch, List.append_ne_nil_of_right_ne_nil _ (by decide)⟩
  · rintro ⟨⟨htask, hobjective⟩, hbranches, hnamed, hnodup⟩
    exact ⟨htask, hobjective, fun hnil => hbranches (by rw [hnil, List.map_nil]),
      fun branch hbranch => (hnamed branch hbranch).1, hnodup⟩

/-! ### The run -/

/-- Where nobody disturbs it, the run of a script has the outcome that the script says; a
script that cannot be submitted throws, and leaves everything as it is. -/
theorem runScriptedKvTask_reports (config : FallbackCommitRuntimeConfig) (script : KvTaskScript)
    (hnamed : ∀ branch ∈ script.branches, ∀ step ∈ branch.steps, step.Named) (w : World) :
    (script.Valid ∧ ∃ session w', (runScriptedKvTask config script).run (handle .memory) w =
      (.ok session, w') ∧
        SaysOf script w.store session w'.store) ∨
      (¬script.Valid ∧ ∃ what, (runScriptedKvTask config script).run (handle .memory) w =
        (.error what, w)) := by
  rcases @run_submitTask .memory config (buildTaskContext script) (buildExecutionPlan script) w with
    ⟨htask, hplan, submitted, hsubmit, hsubmitted⟩ | ⟨hinvalid, what, hsubmit⟩
  · have hvalid : script.Valid := (valid_iff script).2 ⟨htask, hplan⟩
    refine .inl ⟨hvalid, ?_⟩
    obtain ⟨branch, branches, hbranches⟩ := List.exists_cons_of_ne_nil hvalid.branches
    have hcreated : (withPlannedMetrics submitted script.branches.length).txn.branches =
        (script.branches.map KvBranchProgram.work).map fun work =>
            { branchId := work.branchId } := by
      show submitted.txn.branches = _
      rw [hsubmitted.branches, branchPlans_buildExecutionPlan, List.map_map, List.map_map]
      rfl
    have hnodup : ((script.branches.map KvBranchProgram.work).map (·.branchId)).Nodup := by
      rw [List.map_map]
      exact hvalid.nodup
    have hworks : ∀ work ∈ script.branches.map KvBranchProgram.work, ∀ op ∈ work.ops, op.Named := by
      intro work hwork op hop
      obtain ⟨branch, hbranch, rfl⟩ := List.mem_map.1 hwork
      obtain ⟨step, hstep, rfl⟩ := List.mem_map.1 hop
      exact named_toBranchOp (hnamed branch hbranch step hstep)
    have hintents : writtenIntents
      (leading BranchWork.score branch.work (branches.map KvBranchProgram.work)).ops =
        script.intents := by
      rw [leading_map, writtenIntents_work, KvTaskScript.intents, hbranches]
      rfl
    have hperformed :=
      @run_performAll .memory config _ (works_sessionOps (script.branches.map KvBranchProgram.work))
      (withPlannedMetrics submitted script.branches.length) w
    rw [runScriptedKvTask, Program.run_bind, hsubmit]
    simp only [Program.run_bind, runBranches_eq config, hperformed]
    generalize withPlannedMetrics submitted script.branches.length = session at hcreated ⊢
    rw [hbranches, List.map_cons] at hcreated hnodup hworks ⊢
    obtain ⟨hresult, hstore⟩ := @run_commitTask_planned config _ w _ _ hnodup hworks hcreated
    rw [hintents] at hresult hstore
    have hflag := (returns_committed config _).interfered
        (Program.interfered_run (h := handle .memory) _ w) _ hresult
    generalize ((performedOn .memory config session _).commitTask config).run
      (handle .memory) w = out
      at hresult hstore hflag ⊢
    obtain ⟨⟨result, ended⟩, w'⟩ := out
    cases hresult
    exact ⟨ended, w', rfl, hflag, hstore⟩
  · refine .inr ⟨fun hvalid => hinvalid ((valid_iff script).1 hvalid), what, ?_⟩
    rw [runScriptedKvTask, Program.run_bind, hsubmit]
    rfl

/-- Two branches on one object, of which the second goes back once. -/
def rivalScript : KvTaskScript where
  taskId := ascii "1"
  objective := ascii "o"
  branches := [
    { branchId := ascii "a", score := .finite 1
      steps := [makeWriteStep (ascii "k") .text .overwrite (ascii "x") {}] },
    { branchId := ascii "b", score := .finite 2
      steps := [makeReadStep (ascii "k"), makeSavepointStep (ascii "s"),
        makeWriteStep (ascii "k") .text .append (ascii "y") {}, makeRollbackStep (ascii "s"),
        makeWriteStep (ascii "k") .text .append (ascii "z") {}] }]

example : rivalScript.intents =
    [{ objectId := ascii "k", intentType := .append, payload := ascii "z" }] := rfl

theorem runScriptedKvTask_reports_rivalScript :
    (rivalScript.Valid ∧ ∃ session w', (runScriptedKvTask {} rivalScript).run (handle .memory) {} =
      (.ok session, w') ∧
        SaysOf rivalScript {} session w'.store) ∨
      (¬rivalScript.Valid ∧ ∃ what, (runScriptedKvTask {} rivalScript).run (handle .memory) {} =
        (.error what, {})) := by
  refine runScriptedKvTask_reports {} rivalScript ?_ {}
  simp [rivalScript, named_makeReadStep, named_makeWriteStep,
    named_makeSavepointStep, named_makeRollbackStep]

end DataAgentSystem.Workloads
