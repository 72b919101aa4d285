import DataAgentSystem.AgentTxn.RestoredSavepoints
import DataAgentSystem.Runtime.RecoveredSession

/-! The history of a session in work. Of the operations on a session those on one branch
are the history of that branch: the branch is what they make of a new one. -/

namespace DataAgentSystem.Runtime

open Text Intent Cache Branch Storage Interaction AgentTxn

variable {kind : StoreKind} {config : FallbackCommitRuntimeConfig}
  {session : TaskSession} {branch : BranchContext} {branchId : Bytes}
  {ops : List (SessionOp × World)} {op : SessionOp × World}

/-- What an operation of work is to its branch. -/
def SessionOp.toBranchOp : SessionOp → Option BranchOp
  | .read _ objectId => some (.read objectId)
  | .write _ objectId objectType intent => some (.write objectId objectType intent)
  | .savepoint _ savepointId => some (.savepoint savepointId)
  | .rollbackToSavepoint _ savepointId => some (.rollbackToSavepoint savepointId)
  | .stageBranch _ score summary => some (.stage score summary)
  | .commitTask | .abortTask => none

/-- The operations on the branch, each in its world. -/
def branchHistory (branchId : Bytes) (ops : List (SessionOp × World)) : List (BranchOp × World) :=
  ops.filterMap fun op => if op.1.branchId = branchId then op.1.toBranchOp.map (·, op.2) else none

/-- Operations one after the other, each with the world it meets. -/
def performedOn (kind : StoreKind) (config : FallbackCommitRuntimeConfig) (session : TaskSession)
    (ops : List (SessionOp × World)) : TaskSession :=
  ops.foldl (fun session op => ((op.1.perform config session).run (handle kind) op.2).1) session

/-- A session that has been submitted, and then worked on with these operations. -/
structure WorkedWith (kind : StoreKind) (config : FallbackCommitRuntimeConfig)
    (ops : List (SessionOp × World)) (session : TaskSession) : Prop where
  works : ∀ op ∈ ops, op.1.works = true
  performed : ∃ task plan w submitted, ((submitTask config task plan).run (handle kind) w).1 =
    .ok submitted ∧
    session = performedOn kind config submitted ops

theorem performedOn_snoc (kind : StoreKind) (config : FallbackCommitRuntimeConfig)
    (session : TaskSession) (ops : List (SessionOp × World)) (op : SessionOp × World) :
    performedOn kind config session (ops ++ [op]) =
      ((op.1.perform config (performedOn kind config session ops)).run (handle kind) op.2).1 :=
  List.foldl_concat ..

/-- A session with a history is a new one, or one more operation has been performed on it. -/
theorem WorkedWith.induct {P : List (SessionOp × World) → TaskSession → Prop}
    (h : WorkedWith kind config ops session)
    (submitted : ∀ task plan w session, ((submitTask config task plan).run (handle kind) w).1 =
      .ok session → P [] session)
    (perform : ∀ ops op session, WorkedWith kind config ops session →
      op.1.works = true → P ops session →
      P (ops ++ [op]) ((op.1.perform config session).run (handle kind) op.2).1) :
    P ops session := by
  obtain ⟨hworks, task, plan, w, first, hsubmit, rfl⟩ := h
  induction ops using List.reverseRecOn with
  | nil => exact submitted task plan w first hsubmit
  | append_singleton ops op ih =>
    rw [List.forall_mem_append, List.forall_mem_singleton] at hworks
    rw [performedOn_snoc]
    exact perform ops op _ ⟨hworks.1, task, plan, w, first, hsubmit, rfl⟩ hworks.2 (ih hworks.1)

theorem WorkedWith.workedOn (h : WorkedWith kind config ops session) :
    WorkedOn kind config (fun _ _ => True) session := by
  refine h.induct (P := fun _ session => WorkedOn kind config (fun _ _ => True) session) ?_ ?_
  · exact fun task plan w session hsubmit => ⟨task, plan, w, session, hsubmit, .refl⟩
  · rintro ops op session - hworks ⟨task, plan, w, submitted, hsubmit, hrun⟩
    exact ⟨task, plan, w, submitted, hsubmit, hrun.tail (.perform hworks trivial)⟩

/-! ### The branches -/

theorem branchHistory_snoc (branchId : Bytes) (ops : List (SessionOp × World))
    (op : SessionOp × World) :
    branchHistory branchId (ops ++ [op]) = branchHistory branchId ops ++
      (if op.1.branchId = branchId then op.1.toBranchOp.map (·, op.2) else none).toList := by
  rw [branchHistory, List.filterMap_append]
  rfl

theorem branchHistory_snoc_of_ne (ops : List (SessionOp × World)) (h : op.1.branchId ≠ branchId) :
    branchHistory branchId (ops ++ [op]) = branchHistory branchId ops := by
  rw [branchHistory_snoc, if_neg h, Option.toList_none, List.append_nil]

theorem branchHistory_snoc_of_eq (ops : List (SessionOp × World)) (h : op.1.branchId = branchId)
    {branchOp : BranchOp} (hop : op.1.toBranchOp = some branchOp) :
    branchHistory branchId (ops ++ [op]) = branchHistory branchId ops ++ [(branchOp, op.2)] := by
  rw [branchHistory_snoc, if_pos h, hop]
  rfl

theorem onBranch_eq_perform {op : SessionOp} (hworks : op.works = true)
    (branch : BranchContext) (w : World) :
    ∃ branchOp, op.toBranchOp = some branchOp ∧ op.onBranch kind w branch =
      BranchOp.perform kind branch (branchOp, w) := by
  cases op with
  | commitTask => cases hworks
  | abortTask => cases hworks
  | _ => exact ⟨_, rfl, rfl⟩

theorem findBranch_of_submitTask {task : TaskContext} {plan : ExecutionPlan} {w : World}
    (h : ((submitTask config task plan).run (handle kind) w).1 = .ok session)
    (hfound : session.txn.findBranch branchId = some branch) :
    branch = { branchId := branchId } := by
  obtain ⟨-, -, hsubmitted⟩ := isSubmitted_of_submitTask h
  have hmem : branch ∈ session.txn.branches := BranchManager.mem_of_findBranch hfound
  rw [hsubmitted.branches] at hmem
  obtain ⟨branchPlan, -, rfl⟩ := List.mem_map.1 hmem
  exact congrArg (fun id => ({ branchId := id } : BranchContext))
    (BranchManager.branchId_of_findBranch hfound)

/-- A branch of the session is what its history makes of a new one. -/
theorem WorkedWith.branch_eq (h : WorkedWith kind config ops session)
    (hfound : session.txn.findBranch branchId = some branch) :
    branch = worked kind branchId (branchHistory branchId ops) := by
  refine h.induct (P := fun ops session => ∀ branch, session.txn.findBranch branchId = some branch →
    branch = worked kind branchId (branchHistory branchId ops)) ?_ ?_ branch hfound
  · exact fun task plan w session hsubmit branch => findBranch_of_submitTask hsubmit
  · intro ops op session _ hworks ih branch hfound
    rw [findBranch_perform hworks] at hfound
    by_cases heq : branchId = op.1.branchId
    · rw [if_pos heq, Option.map_eq_some_iff] at hfound
      obtain ⟨before, hbefore, rfl⟩ := hfound
      obtain ⟨branchOp, hop, hperform⟩ := @onBranch_eq_perform kind _ hworks before op.2
      rw [hperform, branchHistory_snoc_of_eq ops heq.symm hop, worked_snoc, ← ih before hbefore]
    · rw [if_neg heq] at hfound
      rw [branchHistory_snoc_of_ne ops (Ne.symm heq)]
      exact ih branch hfound

end DataAgentSystem.Runtime
