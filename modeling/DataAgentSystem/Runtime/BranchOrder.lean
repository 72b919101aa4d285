import DataAgentSystem.Containers.KeyedUpdates
import DataAgentSystem.Interaction.Coupling
import DataAgentSystem.Runtime.RecoveredScores
import DataAgentSystem.Runtime.WorkHistory

/-! The order of work on different branches. An operation of work changes its own branch and
records an event, so histories that agree for each branch leave the same transaction, however
they mix the branches. What the transaction then commits, among whatever other writers, does
not depend on the mix either; only the events tell. -/

namespace DataAgentSystem.Runtime

open Text Intent Cache Branch Storage Interaction Containers AgentTxn

variable {kind : StoreKind} {config : FallbackCommitRuntimeConfig} {session session' : TaskSession}
  {ops ops' : List (SessionOp × World)}

/-- The operations on a branch, in order. -/
def opsOn (branchId : Bytes) (ops : List (SessionOp × World)) : List (SessionOp × World) :=
  ops.filter fun op => op.1.branchId = branchId

/-- With all ids different, a branch that is put back is the one with its id. -/
theorem replaceBranch_eq_map {branches : List BranchContext}
    (hnodup : (branches.map (·.branchId)).Nodup) {branch : BranchContext}
    (hfind : BranchManager.findBranch branches branch.branchId = some branch)
    {f : BranchContext → BranchContext} (hf : ∀ b, (f b).branchId = b.branchId) :
    BranchManager.replaceBranch branches (f branch) =
      branches.map fun b => if b.branchId = branch.branchId then f b else b := by
  induction branches with
  | nil => rfl
  | cons b branches ih =>
    rw [List.map_cons, List.nodup_cons] at hnodup
    by_cases hb : b.branchId = branch.branchId
    · have hsame : b = branch := by simpa [BranchManager.findBranch, hb] using hfind
      subst hsame
      have hrest : branches.map (fun b' => if b'.branchId = b.branchId then f b' else b') =
          branches := by
        conv_rhs => rw [← List.map_id' branches]
        refine List.map_congr_left fun b' hb' => if_neg fun heq => hnodup.1 ?_
        exact List.mem_map.2 ⟨b', hb', heq⟩
      rw [BranchManager.replaceBranch, hf, if_pos rfl, List.map_cons, if_pos rfl, hrest]
    · have hfind' : BranchManager.findBranch branches branch.branchId = some branch := by
        simpa [BranchManager.findBranch, hb] using hfind
      rw [BranchManager.replaceBranch, hf, if_neg hb, List.map_cons, if_neg hb, ih hnodup.2 hfind']

/-- One operation of work updates the branches with its id. -/
theorem branches_perform {op : SessionOp × World} (hworks : op.1.works = true)
    (hnodup : (session.txn.branches.map (·.branchId)).Nodup) :
    ((op.1.perform config session).run (handle kind) op.2).1.txn = { session.txn with
      branches := updateKeyed (·.branchId) (fun op : SessionOp × World => op.1.branchId)
        (fun branch op => op.1.onBranch kind op.2 branch) session.txn.branches op } := by
  rw [txn_perform hworks]
  cases hfind : session.txn.findBranch op.1.branchId with
  | none =>
    have hmissing : updateKeyed (·.branchId) (fun op : SessionOp × World => op.1.branchId)
        (fun branch op => op.1.onBranch kind op.2 branch) session.txn.branches op =
            session.txn.branches := by
      conv_rhs => rw [← List.map_id' session.txn.branches]
      refine List.map_congr_left fun branch hbranch => if_neg fun heq => ?_
      have hnone := List.find?_eq_none.1 hfind branch hbranch
      exact hnone (decide_eq_true heq)
    rw [hmissing]
    rfl
  | some branch =>
    have hid := BranchManager.branchId_of_findBranch hfind
    rw [← hid] at hfind
    have hreplaced := replaceBranch_eq_map hnodup hfind fun branch =>
      @branchId_onBranch kind op.1 branch op.2
    rw [hid] at hreplaced
    rw [Option.elim_some, AgentTxnContext.setBranch, hreplaced]
    rfl

/-- What work makes of a transaction: each branch is worked on by the operations on it alone. -/
theorem txn_performedOn (hworks : ∀ op ∈ ops, op.1.works = true)
    (hnodup : (session.txn.branches.map (·.branchId)).Nodup) :
    (performedOn kind config session ops).txn = { session.txn with
      branches := session.txn.branches.map fun branch =>
        (opsOn branch.branchId ops).foldl (fun branch op => op.1.onBranch kind op.2 branch)
            branch } := by
  have hfold : (performedOn kind config session ops).txn = { session.txn with
      branches := ops.foldl (updateKeyed (·.branchId) (fun op : SessionOp × World => op.1.branchId)
        fun branch op => op.1.onBranch kind op.2 branch) session.txn.branches } := by
    induction ops generalizing session with
    | nil => rfl
    | cons op ops ih =>
      rw [List.forall_mem_cons] at hworks
      have hids := @map_branchId_perform kind config _ hworks.1 session op.2
      rw [performedOn, List.foldl_cons, ← performedOn, ih hworks.2 (hids.symm ▸ hnodup),
        @branches_perform kind config _ _ hworks.1 hnodup]
      rfl
  have hkeyed :=
    @foldl_updateKeyed _ _ _ _ (·.branchId) (fun op : SessionOp × World => op.1.branchId)
    (fun branch op => op.1.onBranch kind op.2 branch)
      (fun branch op => branchId_onBranch op.1 branch op.2) ops
    session.txn.branches
  rw [hfold]
  exact congrArg (fun branches => { session.txn with branches }) hkeyed

/-- The commits of two sessions with one transaction make the same calls. -/
theorem coupled_commitTask (config : FallbackCommitRuntimeConfig)
    (htxn : session'.txn = session.txn) :
    (session.commitTask config).Coupled (fun out out' => out'.1 = out.1 ∧ out'.2.txn = out.2.txn)
      (session'.commitTask config) := by
  have hattempt : session'.attempt.txn = session.attempt.txn := htxn
  unfold TaskSession.commitTask
  rw [hattempt]
  refine Program.coupled_bind fun selected => ?_
  obtain ⟨result, txn⟩ := selected
  cases result with
  | error what => exact .ret ⟨rfl, rfl⟩
  | ok committed =>
    have hfinalize :
      (TaskSession.finalize config ({ session.attempt with txn }.conclude committed)).Coupled
        (fun r r' => r'.map TaskSession.txn = r.map TaskSession.txn)
        (TaskSession.finalize config ({ session'.attempt with txn }.conclude committed)) := by
      have hconclude : ∀ session : TaskSession,
          ({ session with txn }.conclude committed).txn = txn := by
        intro session
        cases committed <;> rfl
      unfold TaskSession.finalize
      simp only [hconclude]
      refine Program.coupled_bind fun finalized => ?_
      cases finalized with
      | error what => exact .ret rfl
      | ok finalized =>
        simp only
        split
        · exact .ret (congrArg Except.ok ((hconclude _).trans (hconclude _).symm))
        · refine .ret (congrArg Except.ok ?_)
          simp only [TaskSession.txn_setMetadata, hconclude]
    refine hfinalize.bind fun r r' hr => ?_
    cases r with
    | error what =>
      cases r' with
      | error what' =>
        cases hr
        refine .ret ⟨rfl, ?_⟩
        cases committed <;> rfl
      | ok ended' => cases hr
    | ok ended =>
      cases r' with
      | error what' => cases hr
      | ok ended' => exact .ret ⟨rfl, Except.ok.inj hr⟩

/-- Two ways of mixing the same work on each branch: they leave the same transaction, and whatever
the commit of one does among other writers, the commit of the other does with the same outcome. -/
theorem commitTask_of_sameWork (kind : StoreKind) (config : FallbackCommitRuntimeConfig)
    (task : TaskContext) (plan : ExecutionPlan) (w : World) (submitted : TaskSession)
    (hsubmit : ((submitTask config task plan).run (handle kind) w).1 = .ok submitted)
    (hworks : ∀ op ∈ ops, op.1.works = true) (hworks' : ∀ op ∈ ops', op.1.works = true)
    (hsame : ∀ branchPlan ∈ plan.branchPlans, opsOn branchPlan.branchId ops =
      opsOn branchPlan.branchId ops') :
    let session := performedOn kind config submitted ops
    let session' := performedOn kind config submitted ops'
    session'.txn = session.txn ∧ ∀ calls out,
      (session.commitTask config).Interfered (handle kind) calls out →
      ∃ ended, (session'.commitTask config).Interfered (handle kind) calls (out.1, ended) ∧
          ended.txn = out.2.txn := by
  intro session session'
  obtain ⟨-, hvalid, hsubmitted⟩ := isSubmitted_of_submitTask hsubmit
  have hids : submitted.txn.branches.map (·.branchId) = plan.branchPlans.map (·.branchId) := by
    rw [hsubmitted.branches, List.map_map]
    rfl
  have hnodup : (submitted.txn.branches.map (·.branchId)).Nodup := by
    rw [hids]
    exact (ExecutionPlan.validate_ok hvalid).nodup
  have htxn : session'.txn = session.txn := by
    have hbranches : submitted.txn.branches.map (fun branch =>
          (opsOn branch.branchId ops').foldl
            (fun branch op => op.1.onBranch kind op.2 branch) branch) =
        submitted.txn.branches.map fun branch =>
          (opsOn branch.branchId ops).foldl (fun branch op => op.1.onBranch kind op.2 branch)
              branch := by
      refine List.map_congr_left fun branch hbranch => ?_
      rw [hsubmitted.branches] at hbranch
      obtain ⟨branchPlan, hplan, rfl⟩ := List.mem_map.1 hbranch
      exact congrArg (List.foldl _ _) (hsame branchPlan hplan).symm
    rw [txn_performedOn hworks hnodup, txn_performedOn hworks' hnodup, hbranches]
  refine ⟨htxn, fun calls out hout => ?_⟩
  obtain ⟨⟨result, ended⟩, hcommit, rfl, hended⟩ := (coupled_commitTask config htxn).interfered hout
  exact ⟨ended, hcommit, hended⟩

/-- Each of two branches writes `k` and is staged. -/
def rivalWrites : List (SessionOp × World) :=
  [(.write (ascii "a") (ascii "k") .text (appendToK (ascii "x")), {}),
    (.stageBranch (ascii "a") (.finite 1) [], {}),
    (.write (ascii "b") (ascii "k") .text (appendToK (ascii "y")), {}),
    (.stageBranch (ascii "b") (.finite 2) [], {})]

/-- The second branch goes first. -/
theorem commitTask_of_sameWork_rivals :
    let session := performedOn .memory {} rivals rivalWrites
    let session' := performedOn .memory {} rivals (rivalWrites.drop 2 ++ rivalWrites.take 2)
    session'.txn = session.txn ∧ ∀ calls out,
      (session.commitTask {}).Interfered (handle .memory) calls out →
      ∃ ended, (session'.commitTask {}).Interfered (handle .memory) calls (out.1, ended) ∧
          ended.txn = out.2.txn :=
  commitTask_of_sameWork .memory {} noteTask rivalPlan {} rivals
    rfl (by simp [rivalWrites, SessionOp.works])
    (by simp [rivalWrites, SessionOp.works]) (by
      rw [rivalPlan, List.forall_mem_cons, List.forall_mem_singleton]
      exact ⟨rfl, rfl⟩)

end DataAgentSystem.Runtime
