import DataAgentSystem.AgentTxn.BranchContest
import DataAgentSystem.AgentTxn.UndisturbedBranch
import DataAgentSystem.Runtime.RecoveredCommit
import DataAgentSystem.Runtime.RecoveredSession

/-! Commits that nobody disturbs. Whatever has been done in a session while the store has
stayed as it is, earlier commits and aborts included, its commit returns true exactly if
the latest intents of the winner apply to what the store holds. -/

namespace DataAgentSystem.Runtime

open Text Intent Cache Branch Storage Interaction AgentTxn AgentTxnManager CommitManager

/-- The sessions that operations make of a submitted one, if each of them finds the store
`s` and every write says which object it means. -/
inductive BuiltOn (config : FallbackCommitRuntimeConfig) (s : MemoryKVStore) : TaskSession → Prop
  | submitted {task : TaskContext} {plan : ExecutionPlan} {w : World} {session : TaskSession} :
      ((submitTask config task plan).run (handle .memory) w).1 = .ok session →
        BuiltOn config s session
  | operated {session : TaskSession} {op : SessionOp} {w : World} : BuiltOn config s session →
      op.NamesObject → w.store = s →
      BuiltOn config s ((op.perform config session).run (handle .memory) w).1

variable {config : FallbackCommitRuntimeConfig} {s : MemoryKVStore}
  {session : TaskSession} {w : World}

/-- An operation leaves its branch up to date. -/
theorem upToDate_onBranch {op : SessionOp} (hnames : op.NamesObject)
    (hstore : w.store = s) {branch : BranchContext} (h : UpToDate s branch) :
    UpToDate s (op.onBranch .memory w branch) := by
  cases op with
  | read branchId objectId => exact h.readObject objectId hstore
  | write branchId objectId objectType intent => exact h.bufferWrite objectType hnames hstore
  | savepoint branchId savepointId => exact (kept_upToDate s).createSavepoint h savepointId
  | rollbackToSavepoint branchId savepointId =>
    exact (kept_upToDate s).rollbackToSavepoint h savepointId
  | stageBranch branchId score summary => exact h.congr rfl rfl rfl rfl
  | commitTask => exact h
  | abortTask => exact h

theorem run_perform_commitTask (session : TaskSession) (w : World) :
    ((SessionOp.commitTask.perform config session).run (handle .memory) w).1.txn =
      ((selectWinnerAndCommit session.txn).run (handle .memory) w).1.2 := by
  simp only [SessionOp.perform, Program.run_bind, Program.pure_eq_ret, Program.run_ret]
  exact (run_commitTask .memory config session w).txn

/-- The session has branches, and all are up to date with the store. -/
structure AllUpToDate (s : MemoryKVStore) (txn : AgentTxnContext) : Prop where
  nonempty : txn.branches ≠ []
  upToDate : AllBranches (UpToDate s) txn

theorem AllUpToDate.perform (h : AllUpToDate s session.txn) {op : SessionOp}
    (hnames : op.NamesObject) (hstore : w.store = s) :
    AllUpToDate s ((op.perform config session).run (handle .memory) w).1.txn := by
  cases hworks : op.works with
  | true =>
    refine ⟨branches_ne_nil_of_branchIds (map_branchId_perform hworks session w) h.nonempty, ?_⟩
    rw [txn_perform hworks]
    cases hfind : session.txn.findBranch op.branchId with
    | none => exact h.upToDate
    | some branch =>
      exact h.upToDate.setBranch (upToDate_onBranch hnames hstore (h.upToDate.findBranch hfind))
  | false =>
    cases op with
    | commitTask =>
      rw [run_perform_commitTask]
      have hrun :=
          Program.interfered_run (h := handle .memory) (selectWinnerAndCommit session.txn) w
      have hids :=
        ((returns_selectWinnerAndCommit_keepsContest session.txn).interfered hrun).1.branchIds
      exact ⟨branches_ne_nil_of_branchIds hids h.nonempty,
        (h.upToDate.selectWinnerAndCommit (kept_upToDate s)).interfered hrun⟩
    | abortTask =>
      have hids := (@keepsContest_discarded session.txn session.txn.abortTask rfl).branchIds
      exact ⟨branches_ne_nil_of_branchIds hids h.nonempty, h.upToDate.abortTask (kept_upToDate s)⟩
    | _ => cases hworks

theorem BuiltOn.allUpToDate (h : BuiltOn config s session) : AllUpToDate s session.txn := by
  induction h with
  | submitted hsubmit =>
    obtain ⟨-, hvalid, hsubmitted⟩ := isSubmitted_of_submitTask hsubmit
    constructor
    · rw [hsubmitted.branches]
      exact fun hnil => (ExecutionPlan.validate_ok hvalid).nonempty (List.map_eq_nil_iff.1 hnil)
    · intro branch hbranch
      rw [hsubmitted.branches] at hbranch
      obtain ⟨branchPlan, -, rfl⟩ := List.mem_map.1 hbranch
      exact (kept_upToDate s).new branchPlan.branchId
  | operated _ hnames hstore ih => exact ih.perform hnames hstore

/-- Only an intent that cannot be applied keeps the commit from returning true. -/
theorem run_commitTask_true_iff_resolves (h : AllUpToDate s session.txn)
    (hstore : w.store = s) {winner : BranchContext} (hs : Selects session.txn winner) :
    ((session.commitTask config).run (handle .memory) w).1.1 = .ok true ↔ Resolves s winner := by
  subst hstore
  have hwinner : UpToDate w.store winner := h.upToDate.findBranch hs.2
  rw [(run_commitTask .memory config session w).result, ← hwinner.ready_iff]
  constructor
  · intro hcommitted
    exact (run_selectWinnerAndCommit_memory_true hs (Prod.ext (Prod.ext hcommitted rfl) rfl)).1
  · intro hready
    obtain ⟨txn', hrun⟩ := run_selectWinnerAndCommit_memory hs hready hwinner.allCurrent
    rw [hrun]

/-- In a session built while the store stays as it is, a commit returns true if the latest
intents of its winner apply. -/
theorem commitTask_undisturbed (h : BuiltOn config s session) (hstore : w.store = s) :
    ∃ winner, Selects session.txn winner ∧
      (AllApply s winner → ((session.commitTask config).run (handle .memory) w).1.1 =
        .ok true) := by
  obtain ⟨winner, hs⟩ := exists_selects h.allUpToDate.nonempty
  exact ⟨winner, hs, fun happly =>
    (run_commitTask_true_iff_resolves h.allUpToDate hstore hs).2 happly.resolves⟩

def deltaK : WriteIntent where
  objectId := ascii "k"
  intentType := .delta
  payload := ascii "2"

/-- The task after it has read `k` and added to it where `k` holds a number. -/
def notedSum : TaskSession :=
  ((SessionOp.write (ascii "b") (ascii "k") .generic deltaK).perform {}
    (((SessionOp.read (ascii "b") (ascii "k")).perform {}
      noted).run (handle .memory) (worldWith [] (ascii "5"))).1).run (handle .memory)
      (worldWith [] (ascii "5")) |>.1

theorem builtOn_notedSum : BuiltOn {} (worldWith [] (ascii "5")).store notedSum := by
  have hnoted : BuiltOn {} (worldWith [] (ascii "5")).store noted :=
    @BuiltOn.submitted {} _ noteTask notePlan {} noted rfl
  have hread := @BuiltOn.operated {} _ noted (.read (ascii "b") (ascii "k"))
    (worldWith [] (ascii "5")) hnoted trivial rfl
  exact @BuiltOn.operated {} _ _ (.write (ascii "b") (ascii "k") .generic deltaK)
    (worldWith [] (ascii "5")) hread rfl rfl

def sumBranch : BranchContext := notedSum.txn.branches.headD { branchId := [] }

theorem allApply_sumBranch : AllApply (worldWith [] (ascii "5")).store sumBranch := by
  intro entry hentry latest hlatest
  have hentries : sumBranch.writeBuffer.orderedEntries.map (·.objectId) = [ascii "k"] := rfl
  have hid : entry.objectId ∈ [ascii "k"] := hentries ▸ List.mem_map_of_mem hentry
  rw [List.mem_singleton.1 hid] at hlatest ⊢
  have hlive : live sumBranch.intentLog.entries (ascii "k") = [deltaK] := rfl
  rw [hlive] at hlatest
  cases hlatest
  refine ⟨nofun, fun _ => ⟨by decide, fun intent hintent => ?_⟩⟩
  rw [hlive] at hintent
  rw [List.mem_singleton.1 hintent]
  decide

theorem commitTask_undisturbed_sum :
    ((notedSum.commitTask {}).run (handle .memory) (worldWith [] (ascii "5"))).1.1 = .ok true := by
  obtain ⟨winner, hs, hcommits⟩ := commitTask_undisturbed builtOn_notedSum rfl
  have hwinner : winner = sumBranch := selects_unique ⟨rfl, rfl⟩ hs
  exact hcommits (hwinner ▸ allApply_sumBranch)

end DataAgentSystem.Runtime
