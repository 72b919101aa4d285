import DataAgentSystem.AgentTxn.AgentTxnContext
import DataAgentSystem.Containers.UnorderedMap

/-! A task, the plan it is executed by, and the session that carries both together
with the transaction and the events recorded so far. -/

namespace DataAgentSystem.Runtime

open Text Containers Branch AgentTxn

inductive TaskPhase where
  | created | running | committed | aborted
  deriving DecidableEq

structure ObjectReference where
  objectId : Bytes
  objectRole : Bytes
  deriving DecidableEq

structure TaskContext where
  taskId : Bytes := []
  objective : Bytes := []
  workloadName : Bytes := []
  plannerId : Bytes := []
  phase : TaskPhase := .created
  inputObjects : List ObjectReference := []
  outputObjects : List ObjectReference := []
  metadata : UnorderedMap Bytes := ∅

namespace TaskContext

def addInputObject (task : TaskContext) (objectId objectRole : Bytes) : TaskContext :=
  { task with inputObjects := task.inputObjects ++ [{ objectId, objectRole }] }

def addOutputObject (task : TaskContext) (objectId objectRole : Bytes) : TaskContext :=
  { task with outputObjects := task.outputObjects ++ [{ objectId, objectRole }] }

def setMetadata (task : TaskContext) (key value : Bytes) : TaskContext :=
  { task with metadata := task.metadata.insert key value }

def validate (task : TaskContext) : Except Bytes Unit :=
  if task.taskId = [] then .error (ascii "task context requires a non-empty task_id")
  else if task.objective = [] then .error (ascii "task context requires a non-empty objective")
  else .ok ()

end TaskContext

structure BranchPlan where
  branchId : Bytes
  candidateId : Bytes
  rationale : Bytes
  initialPriority : Double := .finite 0
  deriving DecidableEq

structure ExecutionPlan where
  branchPlans : List BranchPlan := []
  deriving DecidableEq

namespace ExecutionPlan

def addBranchPlan (plan : ExecutionPlan) (branchId candidateId rationale : Bytes)
    (initialPriority : Double) :
    ExecutionPlan :=
  { plan with branchPlans := plan.branchPlans ++ [{ branchId, candidateId, rationale, initialPriority }] }

/-- The loop of `Validate`, with the ids already seen. -/
def validateBranches : List BranchPlan → List Bytes → Except Bytes Unit
  | [], _ => .ok ()
  | branchPlan :: branchPlans, branchIds =>
    if branchPlan.branchId = [] then .error (ascii "execution plan contains an empty branch_id")
    else if branchPlan.candidateId = [] then .error (ascii
      "execution plan contains an empty candidate_id")
    else if branchPlan.branchId ∈ branchIds then
      .error (ascii "execution plan contains duplicate branch_id: " ++ branchPlan.branchId)
    else validateBranches branchPlans (branchPlan.branchId :: branchIds)

def validate (plan : ExecutionPlan) : Except Bytes Unit :=
  if plan.branchPlans = [] then .error (ascii "execution plan must contain at least one branch")
  else validateBranches plan.branchPlans []

theorem validateBranches_eq_ok {branchPlans : List BranchPlan} {branchIds : List Bytes} :
    validateBranches branchPlans branchIds = .ok () ↔
      (∀ branchPlan ∈ branchPlans, branchPlan.branchId ≠ [] ∧ branchPlan.candidateId ≠ []) ∧
        (branchPlans.map (·.branchId)).Nodup ∧ ∀ branchPlan ∈ branchPlans,
          branchPlan.branchId ∉ branchIds := by
  induction branchPlans generalizing branchIds with
  | nil => simp [validateBranches]
  | cons branchPlan branchPlans ih =>
    rw [validateBranches]
    split
    next hid => simp [hid]
    next hid =>
      split
      next hcandidate => simp [hcandidate]
      next hcandidate =>
        split
        next hseen => simp [hseen]
        next hnew =>
          have hfresh : (∀ later ∈ branchPlans, later.branchId ∉ branchPlan.branchId :: branchIds) ↔
              branchPlan.branchId ∉ branchPlans.map (·.branchId) ∧ ∀ later ∈ branchPlans,
                  later.branchId ∉ branchIds := by
            simp only [List.mem_cons, List.mem_map, not_or, not_exists, not_and, forall_and]
          rw [ih, hfresh, List.map_cons, List.nodup_cons,
            List.forall_mem_cons, List.forall_mem_cons]
          tauto

/-- A plan is valid if it has branches, these and their candidates have ids, and the ids of the
branches differ. -/
theorem validate_eq_ok {plan : ExecutionPlan} : plan.validate = .ok () ↔ plan.branchPlans ≠ [] ∧
    (∀ branchPlan ∈ plan.branchPlans, branchPlan.branchId ≠ [] ∧ branchPlan.candidateId ≠ []) ∧
      (plan.branchPlans.map (·.branchId)).Nodup := by
  rw [validate]
  split
  next hnil => simp [hnil]
  next hne => simp [validateBranches_eq_ok, hne]

/-- What a plan that passes validation holds: branches with ids, all different. -/
structure Valid (plan : ExecutionPlan) : Prop where
  nonempty : plan.branchPlans ≠ []
  named : ∀ branchPlan ∈ plan.branchPlans, branchPlan.branchId ≠ []
  nodup : (plan.branchPlans.map (·.branchId)).Nodup

theorem validate_ok {plan : ExecutionPlan} (h : plan.validate = .ok ()) : plan.Valid := by
  obtain ⟨hne, hnamed, hnodup⟩ := validate_eq_ok.1 h
  exact ⟨hne, fun branchPlan hm => (hnamed branchPlan hm).1, hnodup⟩

end ExecutionPlan

inductive TaskEventType where
  | submitTask | createBranch | read | write | savepoint | rollbackToSavepoint | stageBranch
  | commitAttempt | commitTask | abortTask
  deriving DecidableEq

structure TaskEvent where
  sequenceNumber : UInt64 := 0
  type : TaskEventType := .submitTask
  branchId : Bytes := []
  objectId : Bytes := []
  detail : Bytes := []
  numericValue : Int64 := 0
  deriving DecidableEq

structure TaskSession where
  task : TaskContext := {}
  plan : ExecutionPlan := {}
  txn : AgentTxnContext := {}
  commitAttempts : UInt64 := 0
  committed : Bool := false
  events : List TaskEvent := []

namespace TaskSession

def markRunning (session : TaskSession) : TaskSession :=
  { session with task := { session.task with phase := .running } }

def markCommitted (session : TaskSession) : TaskSession :=
  { session with task := { session.task with phase := .committed }, committed := true }

def markAborted (session : TaskSession) : TaskSession :=
  { session with task := { session.task with phase := .aborted }, committed := false }

def setMetadata (session : TaskSession) (key value : Bytes) : TaskSession :=
  { session with task := session.task.setMetadata key value }

/-- Events are numbered in the order in which they are recorded. -/
def recordEvent (session : TaskSession) (type : TaskEventType) (branchId objectId detail : Bytes)
    (numericValue : Int64) : TaskSession :=
  { session with events := session.events ++ [{
      sequenceNumber := UInt64.ofNat session.events.length
      type, branchId, objectId, detail, numericValue }] }

section Accessors
variable (session : TaskSession) (type : TaskEventType)
  (branchId objectId detail key value : Bytes) (n : Int64)

@[simp] theorem txn_recordEvent :
    (session.recordEvent type branchId objectId detail n).txn = session.txn := rfl
@[simp] theorem plan_recordEvent :
    (session.recordEvent type branchId objectId detail n).plan = session.plan := rfl
@[simp] theorem committed_recordEvent :
    (session.recordEvent type branchId objectId detail n).committed = session.committed := rfl
@[simp] theorem txn_setMetadata : (session.setMetadata key value).txn = session.txn := rfl
@[simp] theorem plan_setMetadata : (session.setMetadata key value).plan = session.plan := rfl
@[simp] theorem committed_setMetadata :
    (session.setMetadata key value).committed = session.committed := rfl
@[simp] theorem events_setMetadata : (session.setMetadata key value).events = session.events := rfl
@[simp] theorem txn_markCommitted : session.markCommitted.txn = session.txn := rfl
@[simp] theorem committed_markCommitted : session.markCommitted.committed = true := rfl
@[simp] theorem events_markCommitted : session.markCommitted.events = session.events := rfl
@[simp] theorem txn_markAborted : session.markAborted.txn = session.txn := rfl
@[simp] theorem committed_markAborted : session.markAborted.committed = false := rfl
@[simp] theorem events_markAborted : session.markAborted.events = session.events := rfl

end Accessors

end TaskSession

end DataAgentSystem.Runtime
