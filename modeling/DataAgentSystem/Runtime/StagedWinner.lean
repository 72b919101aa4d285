import DataAgentSystem.AgentTxn.BranchContest
import DataAgentSystem.Runtime.OutcomeRecords
import DataAgentSystem.Runtime.RecoveredCommit
import DataAgentSystem.Runtime.RecoveredScores

/-! Staging and the choice of the winner. The choice goes by score alone; a branch that was
never staged has score zero, and one that has been worked on since keeps the score it was
staged with. So the winner is a staged branch only if staged branches outdo the others. -/

namespace DataAgentSystem.Runtime

open Text Intent Cache Branch Storage Interaction Containers AgentTxn

/-- The sessions that submission, operations and recovery lead to, on whatever stores and
among whatever other writers, when branches are staged with numbers. The log that a
recovery reads may say anything. -/
inductive Contested : TaskSession → Prop
  | submitted {config : FallbackCommitRuntimeConfig} {kind : StoreKind}
      {task : TaskContext} {plan : ExecutionPlan}
      {calls : List (Event Call World)} {session : TaskSession} :
      (submitTask config task plan).Interfered (handle kind) calls (.ok session) → Contested session
  | recovered {config : FallbackCommitRuntimeConfig} {kind : StoreKind} {path : Bytes}
      {calls : List (Event Call World)}
      {execution : TaskRecoveryExecution} :
      (buildRecoveryExecutionFromLog config path).Interfered (handle kind) calls (.ok execution) →
        Contested execution.session
  | executed {config : FallbackCommitRuntimeConfig} {kind : StoreKind}
      {execution : TaskRecoveryExecution}
      {calls : List (Event Call World)} {out : Except Bytes Bool × TaskRecoveryExecution} :
        Contested execution.session →
      (executeRecoveryExecution config execution).Interfered (handle kind) calls out →
        Contested out.2.session
  | operated {config : FallbackCommitRuntimeConfig} {kind : StoreKind} {op : SessionOp}
      {calls : List (Event Call World)}
      {session session' : TaskSession} : Contested session → (∀ w, op.StagesNumber w) →
      (op.perform config session).Interfered (handle kind) calls session' → Contested session'

/-- A commit among other writers that has committed. -/
structure Commits (kind : StoreKind) (config : FallbackCommitRuntimeConfig)
    (session session' : TaskSession) : Prop where
  performed : ∃ calls out,
    (session.commitTask config).Interfered (handle kind) calls (out, session')
  status : session'.txn.status = .committed

/-- The branch of that name was staged, and no other staged branch scored higher. -/
def StagedWinner (txn : AgentTxnContext) (winnerBranchId : Bytes) : Prop :=
  ∃ winner, txn.findBranch winnerBranchId = some winner ∧ winner.status = .staged ∧
    ∀ other ∈ txn.branches, other.status = .staged → BranchManager.score other ≤
      BranchManager.score winner

/-- Each branch that is not staged has a staged one in front of it that scores no less,
or one behind it that scores more. -/
def UnstagedOutdone (branches : List BranchContext) : Prop :=
  ∀ front branch rest, branches = front ++ branch :: rest → branch.status ≠ .staged →
    (∃ rival ∈ front, rival.status = .staged ∧ BranchManager.score branch ≤
      BranchManager.score rival) ∨
      ∃ rival ∈ rest, rival.status = .staged ∧ BranchManager.score branch <
        BranchManager.score rival

variable {kind : StoreKind} {config : FallbackCommitRuntimeConfig} {session session' : TaskSession}

/-! ### Operations -/

theorem returns_commitTask_keepsContest (config : FallbackCommitRuntimeConfig)
    (session : TaskSession) :
    (session.commitTask config).Returns fun out => KeepsContest session.txn out.2.txn ∧
      ∀ id, BranchManager.selectWinner session.txn.branches = .ok id →
        out.2.txn.winnerBranchId = id := by
  apply (returns_selectWinnerAndCommit_keepsContest session.txn).bind
  rintro ⟨result, txn⟩ hended
  cases result with
  | error what => exact hended
  | ok committed =>
    have hconclude : (({ session.attempt with txn } : TaskSession).conclude committed).txn =
        txn := by cases committed <;> rfl
    refine (returns_finalize config _).bind fun finalized hfinalized => ?_
    cases finalized with
    | error what =>
      show KeepsContest session.txn
        (({ session.attempt with txn } : TaskSession).conclude committed).txn ∧ _
      rw [hconclude]
      exact hended
    | ok ended =>
      show KeepsContest session.txn ended.txn ∧ ∀ id, _ → ended.txn.winnerBranchId = id
      rw [(hfinalized ended rfl).1, hconclude]
      exact hended

theorem returns_sessionOp_keepsContest (config : FallbackCommitRuntimeConfig)
    (session : TaskSession) {op : SessionOp} (hop : ∀ w, op.StagesNumber w) :
    (op.perform config session).Returns fun session' => KeepsContest session.txn session'.txn := by
  cases op with
  | read branchId objectId =>
    have hread : (session.read branchId objectId).Returns fun out =>
        KeepsContest session.txn out.2.txn :=
      (returns_read_keepsContest session.txn branchId objectId).bind fun out hout => hout
    exact hread.bind fun out hout => hout
  | write branchId objectId objectType intent =>
    exact (returns_write_keepsContest session.txn branchId objectId objectType intent).bind
      fun out hout => hout
  | savepoint branchId savepointId => exact keepsContest_savepoint session.txn branchId savepointId
  | rollbackToSavepoint branchId savepointId =>
    show KeepsContest session.txn (session.rollbackToSavepoint branchId savepointId).2.txn
    rw [TaskSession.txn_rollbackToSavepoint]
    exact keepsContest_rollbackToSavepoint session.txn branchId savepointId
  | stageBranch branchId score summary =>
    obtain ⟨q, rfl⟩ : ∃ q, score = .finite q := hop {}
    exact keepsContest_stageBranch session.txn branchId q summary
  | commitTask => exact (returns_commitTask_keepsContest config session).bind fun out hout => hout.1
  | abortTask => exact keepsContest_discarded rfl

/-! ### Submission and recovery -/

theorem contest_of_planned {plan : ExecutionPlan} (hvalid : plan.Valid) {txn : AgentTxnContext}
    (hbranches : txn.branches = plan.branchPlans.map fun branchPlan =>
      { branchId := branchPlan.branchId }) : Contest txn where
  nonempty := by
    rw [hbranches]
    exact fun hnil => hvalid.nonempty (List.map_eq_nil_iff.1 hnil)
  nodup := by
    rw [hbranches, List.map_map]
    exact hvalid.nodup
  scored := by
    intro branch hbranch
    rw [hbranches] at hbranch
    obtain ⟨branchPlan, -, rfl⟩ := List.mem_map.1 hbranch
    exact ⟨0, rfl⟩

theorem contest_submitTask (config : FallbackCommitRuntimeConfig)
    (task : TaskContext) (plan : ExecutionPlan) :
    (submitTask config task plan).Returns fun r => ∀ session, r = .ok session →
      Contest session.txn := by
  refine (returns_isSubmitted config task plan).mono fun r hr session hsession => ?_
  obtain ⟨-, hplan, hsubmitted⟩ := hr session hsession
  exact contest_of_planned (ExecutionPlan.validate_ok hplan) hsubmitted.branches

theorem returns_replayEvent_keepsContest (event : ParsedTaskEvent) (txn : AgentTxnContext) :
    (replayEvent txn event).Returns (KeepsContest txn) := by
  unfold replayEvent
  cases taskEventTypeFromName event.eventType with
  | read =>
    show KeepsContest txn (replayRead txn event)
    unfold replayRead
    cases hfind : txn.findBranch event.branchId with
    | none => exact KeepsContest.refl txn
    | some branch => exact keepsContest_setBranch hfind id
  | write => exact returns_write_keepsContest txn _ _ _ _
  | savepoint => exact keepsContest_savepoint txn _ _
  | rollbackToSavepoint => exact keepsContest_rollbackToSavepoint txn _ _
  | stageBranch => exact keepsContest_stageBranch txn _ _ _
  | _ => exact KeepsContest.refl txn

/-- A property of transactions that every submission establishes and that survives as long as the
branches do holds of whatever is recovered. -/
theorem keptByRecovery_of_keeps {P : AgentTxnContext → Prop}
    (hsubmitted : ∀ task plan, (submitTask config task plan).Returns fun r => ∀ session,
      r = .ok session → P session.txn)
    (hkeeps : ∀ {txn txn' : AgentTxnContext}, P txn → KeepsContest txn txn' → P txn') :
    KeptByRecovery config P where
  submitted := hsubmitted
  replayed h event := (returns_replayEvent_keepsContest event _).mono fun _ hreplayed =>
    hkeeps h hreplayed
  restarted h _ _ := hkeeps h (keepsContest_map rfl (fun _ => rfl) fun _ => rfl)

/-- It holds after an execution too. -/
theorem keptByExecution_of_keeps {P : AgentTxnContext → Prop}
    (hsubmitted : ∀ task plan, (submitTask config task plan).Returns fun r => ∀ session,
      r = .ok session → P session.txn)
    (hkeeps : ∀ {txn txn' : AgentTxnContext}, P txn → KeepsContest txn txn' → P txn')
    {execution : TaskRecoveryExecution} (h : P execution.session.txn) :
    KeptByExecution config execution fun session => P session.txn where
  kept := h
  noted _ := h
  submitted := (hsubmitted execution.freshTask execution.recoveryPlan.plan).mono
      fun _ hfresh session hsession _ =>
    hkeeps (hfresh session hsession) ⟨rfl, id⟩
  resumed := by
    rintro - branch _ status (rfl | rfl) hfind
    · exact hkeeps h (keepsContest_setBranch hfind id)
    · exact hkeeps (hkeeps h (keepsContest_rollbackToSavepoint _ _ _))
        (keepsContest_setBranch hfind id)
  committed := (returns_commitTask_keepsContest config _).mono fun _ hout => hkeeps h hout.1

theorem Contested.contest (h : Contested session) : Contest session.txn := by
  induction h with
  | submitted hsubmit => exact (contest_submitTask _ _ _).interfered hsubmit _ rfl
  | recovered hbuild =>
    exact ((keptByRecovery_of_keeps (contest_submitTask _) Contest.keeps).built _).interfered
      hbuild _ rfl
  | executed _ hexecute ih =>
    exact (keptByExecution_of_keeps (contest_submitTask _) Contest.keeps ih).returns.interfered
      hexecute
  | operated _ hop hperform ih =>
    exact ih.keeps ((returns_sessionOp_keepsContest _ _ hop).interfered hperform)

/-! ### The winner -/

/-- Each branch is the one that its id finds. -/
theorem findBranch_of_contest {txn : AgentTxnContext} (h : Contest txn) {branch : BranchContext}
    (hmem : branch ∈ txn.branches) :
    txn.findBranch branch.branchId = some branch := by
  obtain ⟨found, hfound⟩ := Option.isSome_iff_exists.1
    (BranchManager.findBranch_isSome.2 (List.mem_map_of_mem (f := (·.branchId)) hmem))
  have hsame : found = branch :=
    List.inj_on_of_nodup_map h.nodup (BranchManager.mem_of_findBranch hfound) hmem
    (BranchManager.branchId_of_findBranch hfound)
  exact hsame ▸ hfound

/-- In every session that is reached, a commit commits a staged branch which no other one
outdoes exactly if every branch that is not staged is outdone by a staged one. -/
theorem commitTask_stagedWinner_iff (hsession : Contested session)
    (h : Commits kind config session session') :
    StagedWinner session.txn session'.txn.winnerBranchId ↔
      UnstagedOutdone session.txn.branches := by
  have hcontest := hsession.contest
  obtain ⟨⟨calls, out, hcommit⟩, -⟩ := h
  obtain ⟨leader, hleads, hselect⟩ := BranchManager.exists_leads hcontest.nonempty hcontest.scored
  have hwinner := ((returns_commitTask_keepsContest config session).interfered hcommit).2 _ hselect
  have hfind := findBranch_of_contest hcontest hleads.mem
  have hstaged : StagedWinner session.txn session'.txn.winnerBranchId ↔
      leader.status = .staged := by
    rw [StagedWinner, hwinner, hfind]
    constructor
    · rintro ⟨winner, hsame, hstatus, -⟩
      rwa [Option.some.inj hsame]
    · intro hstatus
      exact ⟨leader, rfl, hstatus, fun other hother _ => hleads.le hother⟩
  exact hstaged.trans (hleads.satisfies_iff fun branch => branch.status = .staged)

/-- An operation alone is one among other writers. -/
theorem Contested.alone (h : Contested session) (op : SessionOp) (hop : ∀ w, op.StagesNumber w) :
    Contested ((op.perform {} session).run (handle .memory) {}).1 :=
  h.operated hop (Program.interfered_run (h := handle .memory) (op.perform {} session) {})

theorem contested_rivals : Contested rivals :=
  .submitted (Program.interfered_run (h := handle .memory) (submitTask {} noteTask rivalPlan) {})

def committedAlone (session : TaskSession) : TaskSession :=
  ((session.commitTask {}).run (handle .memory) {}).1.2

theorem commits_committedAlone (h : (committedAlone session).txn.status = .committed) :
    Commits .memory {} session (committedAlone session) :=
  ⟨⟨_, _, Program.interfered_run (h := handle .memory) (session.commitTask {}) {}⟩, h⟩

theorem commitTask_stagedWinner_rivalsStaged :
    StagedWinner (rivalsStaged 1 2).txn (committedAlone (rivalsStaged 1 2)).txn.winnerBranchId ↔
      UnstagedOutdone (rivalsStaged 1 2).txn.branches :=
  commitTask_stagedWinner_iff
    ((contested_rivals.alone (.stageBranch (ascii "a") (.finite 1) []) fun _ => ⟨1, rfl⟩).alone
      (.stageBranch (ascii "b") (.finite 2) []) fun _ => ⟨2, rfl⟩)
    (commits_committedAlone rfl)

/-- One branch has written and was never staged, the other is staged with a score below zero. -/
def neverStaged : TaskSession :=
  ((rivals.write (ascii "a") (ascii "k") .generic (appendToK (ascii "x"))).run (handle .memory)
    {}).1.stageBranch (ascii "b")
    (.finite (-1)) []

/-- The branch that was never staged wins. -/
theorem commitTask_not_stagedWinner :
    ¬∀ (kind : StoreKind) (config : FallbackCommitRuntimeConfig) (session session' : TaskSession),
      Contested session →
      Commits kind config session session' →
        StagedWinner session.txn session'.txn.winnerBranchId := by
  intro h
  have hreached : Contested neverStaged :=
    (contested_rivals.alone (.write (ascii "a") (ascii "k") .generic (appendToK (ascii "x")))
      fun _ => trivial).alone
      (.stageBranch (ascii "b") (.finite (-1)) []) fun _ => ⟨-1, rfl⟩
  obtain ⟨winner, hfind, hstaged, -⟩ :=
    h .memory {} neverStaged _ hreached (commits_committedAlone rfl)
  have hrunning : (neverStaged.txn.findBranch (committedAlone neverStaged).txn.winnerBranchId).map
    (·.status) =
    some .running := rfl
  rw [hfind, Option.map_some, hstaged] at hrunning
  cases hrunning

end DataAgentSystem.Runtime
