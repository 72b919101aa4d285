import DataAgentSystem.AgentTxn.BranchInvariants
import DataAgentSystem.AgentTxn.CommitOutcome
import DataAgentSystem.Branch.LiveIntents

/-! The transactions that occur. In all of them the buffer of each branch and its
intents tell the same story, so an object whose latest intent is to be written has
an entry that is. -/

namespace DataAgentSystem.AgentTxn

open Text Intent Cache Branch Storage Interaction Containers AgentTxnManager CommitManager

variable {kind : StoreKind}

def AllSynced (B : BaseSpec) (txn : AgentTxnContext) : Prop :=
  ∀ branch ∈ txn.branches, Synced B branch

variable {B B' : BaseSpec} {txn : AgentTxnContext}

theorem synced_discardBranch {branch : BranchContext} (h : Synced B branch) :
    Synced B (RollbackManager.discardBranch branch) :=
  h.truncate 0 rfl rfl fun _ hmem => absurd hmem List.not_mem_nil

theorem synced_rollbackToSavepoint {branch : BranchContext}
    (h : Synced B branch) (savepointId : Bytes) :
    Synced B (RollbackManager.rollbackToSavepoint branch savepointId).2 := by
  unfold RollbackManager.rollbackToSavepoint
  cases hfind : branch.savepoints.find? fun savepoint => savepoint.savepointId = savepointId with
  | none => exact h
  | some savepoint =>
    have hmem := List.mem_of_find?_eq_some hfind
    refine h.truncate savepoint.writeLogPosition rfl ?_ fun s hs => ?_
    · rw [h.positions savepoint hmem]
    · rcases List.mem_append.1 hs with hbefore | hself
      · exact (List.takeWhile_sublist _).subset hbefore
      · rw [List.mem_singleton.1 hself]
        exact hmem

theorem kept_synced (B : BaseSpec) : Kept (Synced B) where
  new := synced_new B
  setStatus h _ := h.congr rfl rfl rfl
  createSavepoint h savepointId := h.createSavepoint savepointId
  rollbackToSavepoint h savepointId := synced_rollbackToSavepoint h savepointId
  discardBranch := synced_discardBranch

/-! ### Operations -/

theorem AllSynced.createBranch (h : AllSynced B txn) (branchId : Bytes) :
    AllSynced B (AgentTxnManager.createBranch txn branchId) :=
  AllBranches.createBranch h (kept_synced B) branchId

theorem AllSynced.read (h : AllSynced B txn) (branchId objectId : Bytes) (w : World) :
    AllSynced B ((txn.read branchId objectId).run (handle kind) w).1.2 :=
  AllBranches.read h fun _ hsynced => hsynced.readObject objectId w

/-- A write may start from what the store holds. -/
theorem AllSynced.write (h : AllSynced B txn) (branchId : Bytes) {objectId : Bytes}
    (objectType : ObjectType) {intent : WriteIntent} (hid : intent.objectId = objectId) {w : World}
    (hbase : B objectId (w.store.get objectId)) :
    AllSynced B ((txn.write branchId objectId objectType intent).run (handle kind) w).1 :=
  AllBranches.write h fun _ hsynced => hsynced.bufferWrite objectType hid hbase

theorem AllSynced.savepoint (h : AllSynced B txn) (branchId savepointId : Bytes) :
    AllSynced B (txn.savepoint branchId savepointId) :=
  AllBranches.savepoint h (kept_synced B) branchId savepointId

theorem AllSynced.rollbackToSavepoint (h : AllSynced B txn) (branchId savepointId : Bytes) :
    AllSynced B (txn.rollbackToSavepoint branchId savepointId).2 :=
  AllBranches.rollbackToSavepoint h (kept_synced B) branchId savepointId

theorem AllSynced.stageBranch (h : AllSynced B txn) (branchId : Bytes)
    (score : Double) (summary : Bytes) :
    AllSynced B (txn.stageBranch branchId score summary) :=
  AllBranches.stageBranch h fun _ hsynced => hsynced.congr rfl rfl rfl

theorem AllSynced.abortTask (h : AllSynced B txn) : AllSynced B txn.abortTask :=
  AllBranches.abortTask h (kept_synced B)

theorem AllSynced.selectWinnerAndCommit (h : AllSynced B txn) :
    (AgentTxnManager.selectWinnerAndCommit txn).Returns fun out => AllSynced B out.2 :=
  AllBranches.selectWinnerAndCommit h (kept_synced B)

/-- The transactions that operations and commits can make of a fresh one, among any
other actors, if every write says which object it means. -/
inductive Reached : AgentTxnContext → Prop
  | begin_ (txnId taskId : Bytes) (fallbackCommit : FallbackCommitConfig) :
      Reached { AgentTxnManager.begin_ txnId taskId with fallbackCommit }
  | createBranch {txn : AgentTxnContext} (branchId : Bytes) :
      Reached txn → Reached (AgentTxnManager.createBranch txn branchId)
  | read {txn : AgentTxnContext} (kind : StoreKind) (branchId objectId : Bytes) (w : World) :
      Reached txn → Reached ((txn.read branchId objectId).run (handle kind) w).1.2
  | write {txn : AgentTxnContext} (kind : StoreKind) (branchId objectId : Bytes)
      (objectType : ObjectType)
      (intent : WriteIntent) (w : World) : intent.objectId = objectId →
      Reached txn → Reached ((txn.write branchId objectId objectType intent).run (handle kind) w).1
  | savepoint {txn : AgentTxnContext} (branchId savepointId : Bytes) :
      Reached txn → Reached (txn.savepoint branchId savepointId)
  | rollbackToSavepoint {txn : AgentTxnContext} (branchId savepointId : Bytes) :
      Reached txn → Reached (txn.rollbackToSavepoint branchId savepointId).2
  | stageBranch {txn : AgentTxnContext} (branchId : Bytes) (score : Double) (summary : Bytes) :
      Reached txn → Reached (txn.stageBranch branchId score summary)
  | abortTask {txn : AgentTxnContext} : Reached txn → Reached txn.abortTask
  | commit {txn txn' : AgentTxnContext} {kind : StoreKind} {tr : List (Event Call World)}
      {result : Except Bytes Bool} :
      (AgentTxnManager.selectWinnerAndCommit txn).Interfered (handle kind) tr (result, txn') →
      Reached txn → Reached txn'

theorem Reached.allSynced (h : Reached txn) : AllSynced (fun _ _ => True) txn := by
  induction h with
  | begin_ txnId taskId fallbackCommit => exact fun b hb => absurd hb List.not_mem_nil
  | createBranch branchId _ ih => exact ih.createBranch branchId
  | read kind branchId objectId w _ ih => exact ih.read branchId objectId w
  | write kind branchId objectId objectType intent w hid _ ih =>
    exact ih.write branchId objectType hid trivial
  | savepoint branchId savepointId _ ih => exact ih.savepoint branchId savepointId
  | rollbackToSavepoint branchId savepointId _ ih =>
    exact ih.rollbackToSavepoint branchId savepointId
  | stageBranch branchId score summary _ ih => exact ih.stageBranch branchId score summary
  | abortTask _ ih => exact ih.abortTask
  | commit hrun _ ih => exact (ih.selectWinnerAndCommit).interfered hrun

/-! ### What a synced winner writes -/

theorem lookup_latestIntents_live (log : IntentLog) (k : Bytes) :
    (latestIntents log).lookup k = (live log.entries k).getLast? := by
  rw [lookup_latestIntents, live, List.getLast?_filter]

/-- An object is written exactly if the latest intent on it does more than read. -/
theorem exists_writtenEntry_iff {winner : BranchContext} (h : Synced B winner) (k : Bytes) :
    (∃ entry ∈ writtenEntries winner, entry.objectId = k) ↔
      ∃ intent, (latestIntents winner.intentLog).lookup k = some intent ∧
        intent.intentType ≠ .read := by
  constructor
  · rintro ⟨entry, hentry, rfl⟩
    exact (mem_writtenEntries.1 hentry).2
  · rintro ⟨intent, hintent, hread⟩
    have hlive : live winner.intentLog.entries k ≠ [] := by
      intro hnil
      rw [lookup_latestIntents_live, hnil] at hintent
      cases hintent
    obtain ⟨entry, hentry⟩ := Option.ne_none_iff_exists'.1 fun hnone =>
      hlive ((h.find_eq_none_iff k).1 hnone)
    have hid : entry.objectId = k := winner.writeBuffer.consistent.objectId_eq hentry
    refine ⟨entry, mem_writtenEntries.2 ⟨?_, intent, by rw [hid]; exact hintent, hread⟩, hid⟩
    rw [WriteBuffer.mem_orderedEntries, hid]
    exact hentry

end DataAgentSystem.AgentTxn
