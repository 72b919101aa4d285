import DataAgentSystem.AgentTxn.AllOrNothing
import DataAgentSystem.AgentTxn.BranchInvariants

/-! The contest between the branches of a transaction. A winner can be chosen by score
where there are branches, their ids tell them apart and their scores are numbers; every
operation on the transaction keeps it so, whatever its calls answer. -/

namespace DataAgentSystem.AgentTxn

open Text Intent Cache Branch Storage Interaction

/-! ### Branches that can be compared -/

/-- The ids tell the branches apart, and the scores are numbers. -/
structure Contest (txn : AgentTxnContext) : Prop where
  nonempty : txn.branches ≠ []
  nodup : (txn.branches.map (·.branchId)).Nodup
  scored : AllBranches BranchManager.Scored txn

/-- The branches are still the same ones, with scores that are numbers if they were. -/
structure KeepsContest (txn txn' : AgentTxnContext) : Prop where
  branchIds : txn'.branches.map (·.branchId) = txn.branches.map (·.branchId)
  scored : AllBranches BranchManager.Scored txn → AllBranches BranchManager.Scored txn'

variable {txn txn' : AgentTxnContext}

theorem branches_ne_nil_of_branchIds
    (hids : txn'.branches.map (·.branchId) = txn.branches.map (·.branchId))
    (h : txn.branches ≠ []) : txn'.branches ≠ [] := by
  intro hnil
  rw [hnil, List.map_nil, eq_comm, List.map_eq_nil_iff] at hids
  exact h hids

theorem Contest.keeps (h : Contest txn) (hkeeps : KeepsContest txn txn') : Contest txn' where
  nonempty := branches_ne_nil_of_branchIds hkeeps.branchIds h.nonempty
  nodup := by
    rw [hkeeps.branchIds]
    exact h.nodup
  scored := hkeeps.scored h.scored

theorem KeepsContest.refl (txn : AgentTxnContext) : KeepsContest txn txn := ⟨rfl, id⟩

theorem KeepsContest.trans {txn'' : AgentTxnContext} (h : KeepsContest txn txn')
    (h' : KeepsContest txn' txn'') :
    KeepsContest txn txn'' :=
  ⟨h'.branchIds.trans h.branchIds, h'.scored ∘ h.scored⟩

theorem keepsContest_setBranch {branchId : Bytes} {branch branch' : BranchContext}
    (hfind : txn.findBranch branchId = some branch)
    (hscored : BranchManager.Scored branch → BranchManager.Scored branch') :
    KeepsContest txn (txn.setBranch branch') where
  branchIds := BranchManager.map_branchId_replaceBranch _ _
  scored h := h.setBranch (hscored (h.findBranch hfind))

theorem keepsContest_map {f : BranchContext → BranchContext}
    (hbranches : txn'.branches = txn.branches.map f)
    (hid : ∀ branch, (f branch).branchId = branch.branchId)
    (hresult : ∀ branch, (f branch).candidateResult = branch.candidateResult) :
    KeepsContest txn txn' where
  branchIds := by
    rw [hbranches, List.map_map]
    exact List.map_congr_left fun branch _ => hid branch
  scored h := by
    refine h.map (fun branch hscored => ?_) hbranches
    rw [BranchManager.Scored, hresult]
    exact hscored

theorem keepsContest_discarded
    (hbranches : txn'.branches = txn.branches.map RollbackManager.discardBranch) :
    KeepsContest txn txn' :=
  keepsContest_map hbranches (fun _ => rfl) fun _ => rfl

theorem keepsContest_finish {winner : BranchContext}
    (hfind : BranchManager.findBranch txn.branches txn.winnerBranchId = some winner)
    (commitLog : CommitLog) : KeepsContest txn (AgentTxnManager.finish txn winner commitLog) := by
  have hcommitted : KeepsContest txn (txn.setBranch { winner with status := .committed }) :=
    keepsContest_setBranch hfind id
  refine hcommitted.trans (keepsContest_map rfl (fun branch => ?_) fun branch => ?_)
  · split <;> rfl
  · split <;> rfl

/-! ### Operations -/

theorem returns_readObject (branch : BranchContext) (objectId : Bytes) :
    (BranchManager.readObject branch objectId).Returns fun out => out.2.candidateResult =
      branch.candidateResult := by
  unfold BranchManager.readObject
  cases branch.writeBuffer.find objectId with
  | some buffered => rfl
  | none => exact fun base => rfl

theorem returns_bufferWrite (branch : BranchContext) (objectId : Bytes) (objectType : ObjectType)
    (intent : WriteIntent) :
    (BranchManager.bufferWrite branch objectId objectType intent).Returns fun branch' =>
      branch'.candidateResult = branch.candidateResult := by
  unfold BranchManager.bufferWrite
  cases branch.writeBuffer.find objectId with
  | some existing => rfl
  | none => exact fun base => rfl

theorem scored_congr {branch branch' : BranchContext}
    (h : branch'.candidateResult = branch.candidateResult) (hscored : BranchManager.Scored branch) :
    BranchManager.Scored branch' := by
  rw [BranchManager.Scored, h]
  exact hscored

section Operations

variable (txn : AgentTxnContext) (branchId : Bytes)

theorem returns_read_keepsContest (objectId : Bytes) :
    (txn.read branchId objectId).Returns fun out => KeepsContest txn out.2 := by
  unfold AgentTxnContext.read
  cases hfind : txn.findBranch branchId with
  | none => exact KeepsContest.refl txn
  | some branch =>
    exact (returns_readObject branch objectId).bind fun out hout =>
      keepsContest_setBranch hfind (scored_congr hout)

theorem returns_write_keepsContest (objectId : Bytes) (objectType : ObjectType)
    (intent : WriteIntent) :
    (txn.write branchId objectId objectType intent).Returns (KeepsContest txn) := by
  unfold AgentTxnContext.write
  cases hfind : txn.findBranch branchId with
  | none => exact KeepsContest.refl txn
  | some branch =>
    exact (returns_bufferWrite branch objectId objectType intent).bind fun out hout =>
      keepsContest_setBranch hfind (scored_congr hout)

theorem keepsContest_savepoint (savepointId : Bytes) :
    KeepsContest txn (txn.savepoint branchId savepointId) := by
  unfold AgentTxnContext.savepoint
  cases hfind : txn.findBranch branchId with
  | none => exact KeepsContest.refl txn
  | some branch => exact keepsContest_setBranch hfind id

theorem keepsContest_rollbackToSavepoint (savepointId : Bytes) :
    KeepsContest txn (txn.rollbackToSavepoint branchId savepointId).2 := by
  unfold AgentTxnContext.rollbackToSavepoint
  cases hfind : txn.findBranch branchId with
  | none => exact KeepsContest.refl txn
  | some branch =>
    refine keepsContest_setBranch hfind (scored_congr ?_)
    unfold RollbackManager.rollbackToSavepoint
    split <;> rfl

theorem keepsContest_stageBranch (q : ℚ) (summary : Bytes) :
    KeepsContest txn (txn.stageBranch branchId (.finite q) summary) := by
  unfold AgentTxnContext.stageBranch
  cases hfind : txn.findBranch branchId with
  | none => exact KeepsContest.refl txn
  | some branch => exact keepsContest_setBranch hfind fun _ => ⟨q, rfl⟩

end Operations

theorem returns_commitMarked_keepsContest (txn : AgentTxnContext) :
    (AgentTxnManager.commitMarked txn).Returns fun out =>
    KeepsContest txn out.2 ∧ out.2.winnerBranchId = txn.winnerBranchId := by
  unfold AgentTxnManager.commitMarked
  cases hfind : BranchManager.findBranch txn.branches txn.winnerBranchId with
  | none => exact ⟨keepsContest_discarded rfl, rfl⟩
  | some winner =>
    refine (Program.returns_true _).bind fun validation _ => ?_
    simp only
    split
    next => exact ⟨keepsContest_discarded rfl, rfl⟩
    next =>
      refine (Program.returns_true _).bind fun result _ => ?_
      cases result with
      | error reason => exact ⟨keepsContest_discarded rfl, rfl⟩
      | ok commitLog =>
        have hfinished :=
            @keepsContest_finish { txn with validationResult := validation } winner hfind commitLog
        exact ⟨⟨hfinished.branchIds, hfinished.scored⟩, rfl⟩

/-- Whether it commits or not, a commit names the winner it has selected. -/
theorem returns_selectWinnerAndCommit_keepsContest (txn : AgentTxnContext) :
    (AgentTxnManager.selectWinnerAndCommit txn).Returns fun out => KeepsContest txn out.2 ∧
      ∀ id, BranchManager.selectWinner txn.branches = .ok id → out.2.winnerBranchId = id := by
  unfold AgentTxnManager.selectWinnerAndCommit
  cases BranchManager.selectWinner txn.branches with
  | error what => exact ⟨KeepsContest.refl txn, nofun⟩
  | ok winnerBranchId =>
    have hmarked : KeepsContest txn (AgentTxnManager.mark txn winnerBranchId) :=
      keepsContest_map rfl (fun _ => rfl) fun _ => rfl
    refine (returns_commitMarked_keepsContest _).bind fun out hout => ⟨hmarked.trans hout.1, ?_⟩
    rintro _ ⟨⟩
    exact hout.2

end DataAgentSystem.AgentTxn
