import DataAgentSystem.Runtime.TxnOperations
import DataAgentSystem.Storage.Versions
import Mathlib.Logic.Function.Basic

/-! Any number of agent transactions on one store with atomic batches. A branch
operation reaches the store with at most one call and is one step; a commit takes
one step for each of its calls; foreign writers put values and batches at any time.
The system remembers which reads went to the store and, in order, every write or
batch that reached it. -/

namespace DataAgentSystem.Concurrency

open Text Intent Cache Branch Storage Interaction AgentTxn

variable {ι : Type}

/-- Writes that reached the store together, and the transaction they came from;
foreign writers have no name. -/
structure Change (ι : Type) where
  author : Option ι
  writes : List WriteOp

/-- All writes of a history, in order. -/
def allWrites (history : List (Change ι)) : List WriteOp := history.flatMap Change.writes

/-- A read that went to the store, and what it returned. -/
structure StoreRead where
  branchId : Bytes
  objectId : Bytes
  result : ReadResult

inductive Stage where
  | working (txn : AgentTxnContext)
  | committing (txn : AgentTxnContext) (rest : Prog (Except Bytes Bool × AgentTxnContext))

structure Client where
  stage : Stage
  reads : List StoreRead

structure System (ι : Type) where
  world : World
  clients : ι → Client
  history : List (Change ι)

inductive TxnOp where
  | createBranch (branchId : Bytes)
  | read (branchId objectId : Bytes)
  | write (branchId objectId : Bytes) (objectType : ObjectType) (intent : WriteIntent)
  | savepoint (branchId savepointId : Bytes)
  | rollbackToSavepoint (branchId savepointId : Bytes)
  | stageBranch (branchId : Bytes) (score : Double) (summary : Bytes)
  | abort

/-- A read of an existing branch that has not buffered the object goes to the store. -/
def storeReads (txn : AgentTxnContext) (branchId objectId : Bytes) (result : ReadResult) :
    List StoreRead :=
  match txn.findBranch branchId with
  | none => []
  | some branch =>
    if (branch.writeBuffer.find objectId).isSome then [] else [{ branchId, objectId, result }]

def TxnOp.perform (txn : AgentTxnContext) : TxnOp → Prog (AgentTxnContext × List StoreRead)
  | .createBranch branchId => return (AgentTxnManager.createBranch txn branchId, [])
  | .read branchId objectId => do
    let (result, txn') ← txn.read branchId objectId
    return (txn', storeReads txn branchId objectId result)
  | .write branchId objectId objectType intent => do
    let txn' ← txn.write branchId objectId objectType intent
    return (txn', [])
  | .savepoint branchId savepointId => return (txn.savepoint branchId savepointId, [])
  | .rollbackToSavepoint branchId savepointId =>
    return ((txn.rollbackToSavepoint branchId savepointId).2, [])
  | .stageBranch branchId score summary => return (txn.stageBranch branchId score summary, [])
  | .abort => return (txn.abortTask, [])

inductive Action (ι : Type) where
  | operate (i : ι) (op : TxnOp)
  | beginCommit (i : ι)
  | commitCall (i : ι)
  | endCommit (i : ι)
  | put (key value : Bytes)
  | batchPutIfVersion (checks : List VersionCheck) (writes : List WriteOp)

/-- All buffered writes are overwrites. -/
def Action.overwrites : Action ι → Bool
  | .operate _ (.write _ _ _ intent) => intent.intentType = .overwrite
  | _ => true

/-- The change a call makes by a batch that is carried out. -/
def batchChange (author : Option ι) (w : World) : Call → List (Change ι)
  | .batchPutIfVersion checks writes =>
    if (w.store.batchPutIfVersion checks writes).1 then [{ author, writes }] else []
  | _ => []

namespace System

variable [DecidableEq ι]

def setClient (s : System ι) (i : ι) (client : Client) : System ι :=
  { s with clients := Function.update s.clients i client }

/-- One step; none where the action is not possible. -/
def step (s : System ι) : Action ι → Option (System ι)
  | .operate i op =>
    match (s.clients i).stage with
    | .working txn =>
      let ((txn', reads), world) := (op.perform txn).run (handle .memory) s.world
      some { s.setClient i { stage := .working txn', reads := (s.clients i).reads ++ reads } with world }
    | _ => none
  | .beginCommit i =>
    match (s.clients i).stage with
    | .working txn =>
      some (s.setClient i { s.clients i with
        stage := .committing txn (AgentTxnManager.selectWinnerAndCommit txn) })
    | _ => none
  | .commitCall i =>
    match (s.clients i).stage with
    | .committing txn (.call op next) =>
      let (r, world) := handle .memory op s.world
      some { s.setClient i { s.clients i with stage := .committing txn (next r) } with
             world, history := s.history ++ batchChange (some i) s.world op }
    | _ => none
  | .endCommit i =>
    match (s.clients i).stage with
    | .committing _ (.ret (_, txn)) =>
      some (s.setClient i { s.clients i with stage := .working txn })
    | _ => none
  | .put key value =>
    some { s with world := (handle .memory (.put key value) s.world).2
                  history := s.history ++ [{ author := none, writes := [{ key, value }] }] }
  | .batchPutIfVersion checks writes =>
    some { s with world := (handle .memory (.batchPutIfVersion checks writes) s.world).2
                  history := s.history ++
                    batchChange none s.world (.batchPutIfVersion checks writes) }

/-- Fresh transactions, over any store. -/
structure Initial (s : System ι) : Prop where
  fresh : ∀ i, ∃ txnId taskId, s.clients i = ⟨.working (AgentTxnManager.begin_ txnId taskId), []⟩
  history : s.history = []

inductive Reachable (s₀ : System ι) : System ι → Prop
  | start : Reachable s₀ s₀
  | step {s s' : System ι} (a : Action ι) :
      Reachable s₀ s → a.overwrites = true → s.step a = some s' → Reachable s₀ s'

/-- The system after some steps. -/
def run (s : System ι) : List (Action ι) → Option (System ι)
  | [] => some s
  | a :: actions => (s.step a).bind fun s' => s'.run actions

theorem reachable_run {s₀ s s' : System ι} {actions : List (Action ι)} (h : Reachable s₀ s)
    (ho : ∀ a ∈ actions, a.overwrites = true) (hrun : s.run actions = some s') :
    Reachable s₀ s' := by
  induction actions generalizing s with
  | nil =>
    cases hrun
    exact h
  | cons a actions ih =>
    obtain ⟨t, hstep, hrest⟩ := Option.bind_eq_some_iff.1 hrun
    rw [List.forall_mem_cons] at ho
    exact ih (h.step a ho.1 hstep) ho.2 hrest

end System

end DataAgentSystem.Concurrency
