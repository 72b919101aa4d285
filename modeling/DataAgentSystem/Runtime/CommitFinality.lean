import DataAgentSystem.AgentTxn.EmptyCommit
import DataAgentSystem.Runtime.ArtifactFinalization

/-! Sessions after their commit. None of the operations on a session asks whether it
has committed already, so it stays committed, and its store untouched, only through
steps that neither abort it nor commit anything further. -/

namespace DataAgentSystem.Runtime

open Text Intent Cache Branch Storage Interaction AgentTxn

variable {config : FallbackCommitRuntimeConfig} {session session' : TaskSession}

inductive SessionOp where
  | read (branchId objectId : Bytes)
  | write (branchId objectId : Bytes) (objectType : ObjectType) (intent : WriteIntent)
  | savepoint (branchId savepointId : Bytes)
  | rollbackToSavepoint (branchId savepointId : Bytes)
  | stageBranch (branchId : Bytes) (score : Double) (summary : Bytes)
  | commitTask
  | abortTask

/-- The session after the operation, whether it returns or throws. -/
def SessionOp.perform (config : FallbackCommitRuntimeConfig) (session : TaskSession) :
    SessionOp → Prog TaskSession
  | .read branchId objectId => do
    let (_, session) ← session.read branchId objectId
    return session
  | .write branchId objectId objectType intent => session.write branchId objectId objectType intent
  | .savepoint branchId savepointId => return session.savepoint branchId savepointId
  | .rollbackToSavepoint branchId savepointId =>
    return (session.rollbackToSavepoint branchId savepointId).2
  | .stageBranch branchId score summary => return session.stageBranch branchId score summary
  | .commitTask => do
    let (_, session) ← session.commitTask config
    return session
  | .abortTask => return session.abortTask

/-- One operation on a session and the calls it made among other writers. -/
structure SessionStep where
  op : SessionOp
  before : TaskSession
  calls : List (Event Call World)
  after : TaskSession

/-- Operations one after the other; each call meets whatever world others have left. -/
inductive Runs (config : FallbackCommitRuntimeConfig) :
    TaskSession → List SessionStep → TaskSession → Prop
  | done (session : TaskSession) : Runs config session [] session
  | step {session after session' : TaskSession} {op : SessionOp} {calls : List (Event Call World)}
      {steps : List SessionStep} : (op.perform config session).Interfered
        (handle .memory) calls after →
      Runs config after steps session' →
        Runs config session (⟨op, session, calls, after⟩ :: steps) session'

/-- The session is committed. -/
structure IsCommitted (session : TaskSession) : Prop where
  status : session.txn.status = .committed
  committed : session.committed = true

/-- The step leaves the store alone and the session committed. -/
structure SessionStep.Preserves (step : SessionStep) : Prop extends IsCommitted step.after where
  store : ∀ e ∈ step.calls, CommitManager.KeepsStore e

/-- The step does not abort, and if it commits there is nothing to write. -/
def SessionStep.Permitted (step : SessionStep) : Prop :=
  match step.op with
  | .abortTask => False
  | .commitTask => ∀ winner, AgentTxnManager.Selects step.before.txn winner →
      NothingToWrite winner ∧ ReadsStill winner.readSet.entries step.calls
  | _ => True

/-! ### Operations on branches -/

/-- The operation keeps what a commit has decided. -/
def KeepsOutcome (session session' : TaskSession) : Prop :=
  session'.txn.status = session.txn.status ∧ session'.committed = session.committed

theorem KeepsOutcome.isCommitted (h : KeepsOutcome session session') (hc : IsCommitted session) :
    IsCommitted session' :=
  ⟨h.1.trans hc.status, h.2.trans hc.committed⟩

/-! ### Commits -/

section Finalize

variable (config : FallbackCommitRuntimeConfig)

theorem returns_finalize (session : TaskSession) :
    (session.finalize config).Returns fun r => ∀ ended, r = .ok ended → ended.txn = session.txn ∧
      ended.committed = session.committed ∧ ended.events = session.events := by
  refine (Program.returns_true _).bind fun finalized _ => ?_
  cases finalized with
  | error what => exact nofun
  | ok finalized =>
    simp only
    split
    · rintro _ ⟨⟩
      exact ⟨rfl, rfl, rfl⟩
    · rintro _ ⟨⟩
      exact ⟨rfl, rfl, rfl⟩

end Finalize

/-- The parts of a commit of a session: the commit of its transaction, and calls about files. -/
theorem commitTask_steps {kind : StoreKind} {calls : List (Event Call World)}
    {out : Except Bytes Bool}
    (h : (session.commitTask config).Interfered (handle kind) calls (out, session')) :
    ∃ committing finalizing result, calls = committing ++ finalizing ∧
      (AgentTxnManager.selectWinnerAndCommit session.txn).Interfered (handle kind)
        committing (result, session'.txn) ∧
      (∀ e ∈ finalizing, e.op.onFiles = true) ∧ (out = .ok true → result = .ok true) ∧
      session'.committed = match result with
        | .ok committed => committed
        | .error _ => session.committed := by
  obtain ⟨committing, ⟨result, txn⟩, rest, rfl, hcommit, h⟩ := Program.interfered_bind.1 h
  cases result with
  | error what =>
    obtain ⟨rfl, heq⟩ := Program.interfered_ret.1 h
    cases heq
    exact ⟨committing, [], _, rfl, hcommit, fun e he => absurd he List.not_mem_nil, nofun, rfl⟩
  | ok committed =>
    obtain ⟨finalizing, finalized, ending, rfl, hfinalize, h⟩ := Program.interfered_bind.1 h
    have hfiles := (only_finalize_onFiles config _).interfered hfinalize
    have hconclude : ∀ s : TaskSession, (s.conclude committed).txn = s.txn ∧
        (s.conclude committed).committed = committed := by
      intro s
      cases committed <;> exact ⟨rfl, rfl⟩
    cases finalized with
    | error what =>
      obtain ⟨rfl, heq⟩ := Program.interfered_ret.1 h
      cases heq
      refine ⟨committing, finalizing,
        .ok committed, by rw [List.append_nil], ?_, hfiles, nofun, (hconclude _).2⟩
      rw [(hconclude _).1]
      exact hcommit
    | ok ended =>
      obtain ⟨rfl, heq⟩ := Program.interfered_ret.1 h
      cases heq
      obtain ⟨htxn, hended, -⟩ := (returns_finalize config _).interfered hfinalize _ rfl
      refine ⟨committing, finalizing,
        .ok committed, by rw [List.append_nil], ?_, hfiles, id, hended.trans (hconclude _).2⟩
      rw [htxn, (hconclude _).1]
      exact hcommit

/-- A commit that has returned true leaves the session committed. -/
theorem isCommitted_commitTask {kind : StoreKind} {calls : List (Event Call World)}
    (h : (session.commitTask config).Interfered (handle kind) calls (.ok true, session')) :
    IsCommitted session' := by
  obtain ⟨committing, finalizing, result, rfl, hcommit, -, hresult, hcommitted⟩ :=
    commitTask_steps h
  obtain rfl := hresult rfl
  exact ⟨((AgentTxnManager.returns_selectWinnerAndCommit _).interfered hcommit).1, hcommitted⟩

/-! ### Steps of a committed session -/

theorem preserves_of_gets {op : SessionOp} {calls : List (Event Call World)}
    (hkeeps : KeepsOutcome session session') (hc : IsCommitted session)
    (hgets : ∀ e ∈ calls, ∃ key, e.op = .get key) :
    SessionStep.Preserves ⟨op, session, calls, session'⟩ where
  toIsCommitted := hkeeps.isCommitted hc
  store := by
    intro e he
    obtain ⟨key, hop⟩ := hgets e he
    exact CommitManager.Harmless.keepsStore (.inl (by rw [hop]; rfl))

/-- An operation on branches keeps a committed session as it is. -/
theorem preserves_of_other {op : SessionOp} {calls : List (Event Call World)}
    (hc : IsCommitted session)
    (h : (op.perform config session).Interfered (handle .memory) calls session')
    (hcommit : op ≠ .commitTask) (habort : op ≠ .abortTask) :
    SessionStep.Preserves ⟨op, session, calls, session'⟩ := by
  cases op with
  | read branchId objectId =>
    obtain ⟨looks, out, rest, rfl, houter, h⟩ := Program.interfered_bind.1 h
    obtain ⟨rfl, rfl⟩ := Program.interfered_ret.1 h
    obtain ⟨gets, ⟨result, txn⟩, rest, rfl, hread, h⟩ := Program.interfered_bind.1 houter
    obtain ⟨rfl, rfl⟩ := Program.interfered_ret.1 h
    simp only [List.append_nil]
    have hsame := (AgentTxnContext.returns_read _ _ _).interfered hread
    exact preserves_of_gets ⟨hsame.status, rfl⟩ hc
      ((AgentTxnContext.only_read _ _ _).interfered hread)
  | write branchId objectId objectType intent =>
    obtain ⟨gets, txn, rest, rfl, hwrite, h⟩ := Program.interfered_bind.1 h
    obtain ⟨rfl, rfl⟩ := Program.interfered_ret.1 h
    simp only [List.append_nil]
    have hsame := (AgentTxnContext.returns_write _ _ _ _ _).interfered hwrite
    exact preserves_of_gets ⟨hsame.status, rfl⟩ hc
      ((AgentTxnContext.only_write _ _ _ _ _).interfered hwrite)
  | savepoint branchId savepointId =>
    obtain ⟨rfl, rfl⟩ := Program.interfered_ret.1 h
    have hsame := AgentTxnContext.sameBesideBranches_savepoint session.txn branchId savepointId
    exact preserves_of_gets ⟨hsame.status, rfl⟩ hc fun e he => absurd he List.not_mem_nil
  | rollbackToSavepoint branchId savepointId =>
    obtain ⟨rfl, rfl⟩ := Program.interfered_ret.1 h
    have hsame := AgentTxnContext.sameBesideBranches_rollbackToSavepoint
      session.txn branchId savepointId
    refine preserves_of_gets ?_ hc fun e he => absurd he List.not_mem_nil
    rcases session.rollbackToSavepoint_cases branchId savepointId with ⟨-, hsession⟩ | ⟨-, hsession⟩
    · rw [hsession]
      exact ⟨rfl, rfl⟩
    · rw [hsession]
      exact ⟨hsame.status, rfl⟩
  | stageBranch branchId score summary =>
    obtain ⟨rfl, rfl⟩ := Program.interfered_ret.1 h
    have hsame := AgentTxnContext.sameBesideBranches_stageBranch session.txn branchId score summary
    exact preserves_of_gets ⟨hsame.status, rfl⟩ hc fun e he => absurd he List.not_mem_nil
  | commitTask => exact absurd rfl hcommit
  | abortTask => exact absurd rfl habort

/-- A further commit preserves what the first one did exactly if it is permitted. -/
theorem preserves_commitTask_iff {calls : List (Event Call World)} {out : Except Bytes Bool}
    (hc : IsCommitted session)
    (h : (session.commitTask config).Interfered (handle .memory) calls (out, session')) :
    SessionStep.Preserves ⟨.commitTask, session, calls, session'⟩ ↔
      SessionStep.Permitted ⟨.commitTask, session, calls, session'⟩ := by
  obtain ⟨committing, finalizing, result, rfl, hcommit, hfiles, -, hcommitted⟩ := commitTask_steps h
  have hfinal : ∀ e ∈ finalizing, CommitManager.KeepsStore e := fun e he =>
    store_handle_of_onFiles (hfiles e he) _
  have hstill : ∀ reads, ReadsStill reads finalizing := by
    intro reads e he read hread hasks
    have hop := hfiles e he
    rcases hasks with hasks | ⟨checks, writes, hasks⟩
    · rw [hasks] at hop
      cases hop
    · rw [hasks] at hop
      cases hop
  by_cases hbranches : session.txn.branches = []
  · have hselect : BranchManager.selectWinner session.txn.branches =
        .error (ascii "cannot select winner from empty branch list") := by rw [hbranches]; rfl
    rw [AgentTxnManager.selectWinnerAndCommit, hselect] at hcommit
    obtain ⟨rfl, heq⟩ := Program.interfered_ret.1 hcommit
    obtain ⟨rfl, htxn⟩ := Prod.mk.inj heq
    constructor
    · exact fun _ winner hs => absurd hs (AgentTxnManager.not_selects_of_nil hbranches)
    · intro _
      refine ⟨⟨?_, ?_⟩, hfinal⟩
      · rw [← htxn]
        exact hc.status
      · rw [hcommitted]
        exact hc.committed
  · obtain ⟨winner, hs⟩ := AgentTxnManager.exists_selects hbranches
    have hkeeps := AgentTxnManager.selectWinnerAndCommit_keepsStore_iff hs hcommit
    constructor
    · intro hp winner' hs'
      obtain rfl : winner' = winner := AgentTxnManager.selects_unique hs hs'
      have hok : result = .ok true := by
        obtain ⟨v, looks, -, ⟨-, -, rfl, -⟩ | ⟨-, -, tried, -, -, rfl, -⟩⟩ :=
          AgentTxnManager.selectWinnerAndCommit_steps hs hcommit
        · exact congrArg Except.ok (hcommitted.symm.trans hp.committed)
        · exact congrArg Except.ok (hcommitted.symm.trans hp.committed)
      obtain ⟨hn, hreads⟩ := hkeeps.1 ⟨hok, fun e he => hp.store e (List.mem_append_left _ he)⟩
      exact ⟨hn, hreads.append (hstill _)⟩
    · intro hp
      obtain ⟨hn, hreads⟩ := hp winner hs
      obtain ⟨rfl, hstore⟩ := hkeeps.2 ⟨hn, hreads.of_append.1⟩
      refine ⟨⟨((AgentTxnManager.returns_selectWinnerAndCommit _).interfered hcommit).1,
        hcommitted⟩, fun e he => ?_⟩
      rcases List.mem_append.1 he with hmem | hmem
      · exact hstore e hmem
      · exact hfinal e hmem

theorem SessionStep.preserves_iff {op : SessionOp} {calls : List (Event Call World)}
    (hc : IsCommitted session)
    (h : (op.perform config session).Interfered (handle .memory) calls session') :
    SessionStep.Preserves ⟨op, session, calls, session'⟩ ↔
      SessionStep.Permitted ⟨op, session, calls, session'⟩ := by
  cases op with
  | commitTask =>
    obtain ⟨calls, ⟨out, ended⟩, rest, rfl, hcommit, h⟩ := Program.interfered_bind.1 h
    obtain ⟨rfl, rfl⟩ := Program.interfered_ret.1 h
    simp only [List.append_nil]
    exact preserves_commitTask_iff hc hcommit
  | abortTask =>
    obtain ⟨rfl, rfl⟩ := Program.interfered_ret.1 h
    refine ⟨fun hp => ?_, False.elim⟩
    cases hp.committed
  | _ => exact iff_of_true (preserves_of_other hc h nofun nofun) trivial

/-- What a committed session has done stays done exactly in the runs of permitted steps. -/
theorem Runs.preserves_iff {steps : List SessionStep} (h : Runs config session steps session')
    (hc : IsCommitted session) : (∀ step ∈ steps, step.Preserves) ↔
      ∀ step ∈ steps, step.Permitted := by
  induction h with
  | done session => simp
  | step hop _ ih =>
    have hstep := SessionStep.preserves_iff hc hop
    simp only [List.forall_mem_cons]
    constructor
    · rintro ⟨hp, hrest⟩
      exact ⟨hstep.1 hp, (ih hp.toIsCommitted).1 hrest⟩
    · rintro ⟨hp, hrest⟩
      have hpreserves := hstep.2 hp
      exact ⟨hpreserves, (ih hpreserves.toIsCommitted).2 hrest⟩

/-- After a commit that has returned true, a run leaves the store alone and the
session committed exactly if no step aborts it or commits something further. -/
theorem commitTask_final_iff {session₀ : TaskSession} {calls₀ : List (Event Call World)}
    {steps : List SessionStep}
    (hcommit : (session₀.commitTask config).Interfered (handle .memory) calls₀ (.ok true, session))
    (hruns : Runs config session steps session') :
    (∀ step ∈ steps, step.Preserves) ↔ ∀ step ∈ steps, step.Permitted :=
  hruns.preserves_iff (isCommitted_commitTask hcommit)

/-- A task whose one branch has appended to an object. -/
def appendingSession : TaskSession :=
  (((TaskSession.createBranch { txn := AgentTxnManager.begin_ (ascii "txn:1") (ascii "1") }
    { branchId := ascii "b", candidateId := ascii "c", rationale := [] }).write
      (ascii "b") (ascii "k") .generic
    { objectId := ascii "k", intentType := .append, payload := ascii "x" }).run
      (handle .memory) {}).1

/-- The commit of the appending task on an empty store. -/
def firstCommit : (Except Bytes Bool × TaskSession) × World :=
  (appendingSession.commitTask {}).run (handle .memory) {}

theorem interfered_firstCommit : (appendingSession.commitTask {}).Interfered (handle .memory)
    ((appendingSession.commitTask {}).trace (handle .memory) {}) (.ok true, firstCommit.1.2) :=
  Program.interfered_run (h := handle .memory) (appendingSession.commitTask {}) {}

/-- The steps of operations that each meet the given world. -/
def stepsIn : TaskSession → List (SessionOp × World) → List SessionStep
  | _, [] => []
  | session, (op, w) :: ops =>
    let after := ((op.perform {} session).run (handle .memory) w).1
    ⟨op, session, (op.perform {} session).trace (handle .memory) w, after⟩ :: stepsIn after ops

theorem runs_stepsIn (session : TaskSession) (ops : List (SessionOp × World)) :
    ∃ session', Runs {} session (stepsIn session ops) session' := by
  induction ops generalizing session with
  | nil => exact ⟨session, .done session⟩
  | cons op ops ih =>
    obtain ⟨session', hruns⟩ := ih ((op.1.perform {} session).run (handle .memory) op.2).1
    exact ⟨session', .step (Program.interfered_run (op.1.perform {} session) op.2) hruns⟩

/-- After the commit somebody deletes `k`, the branch reads it and writes another object,
and the task is committed once more. -/
def afterCommit : List (SessionOp × World) := [
  (.read (ascii "b") (ascii "k"), {}),
  (.savepoint (ascii "b") (ascii "s"), {}),
  (.write (ascii "b") (ascii "l") .generic
    { objectId := ascii "l", intentType := .overwrite, payload := ascii "y" }, firstCommit.2),
  (.commitTask, firstCommit.2)]

theorem commitTask_final_afterCommit :
    (∀ step ∈ stepsIn firstCommit.1.2 afterCommit, step.Preserves) ↔
      ∀ step ∈ stepsIn firstCommit.1.2 afterCommit, step.Permitted := by
  obtain ⟨session', hruns⟩ := runs_stepsIn firstCommit.1.2 afterCommit
  exact commitTask_final_iff interfered_firstCommit hruns

/-- Committing once more appends once more. -/
theorem commitTask_not_final :
    ¬∀ (config : FallbackCommitRuntimeConfig) (session₀ session : TaskSession)
      (calls₀ : List (Event Call World)),
      (session₀.commitTask config).Interfered (handle .memory) calls₀ (.ok true, session) →
      ∀ steps session', Runs config session steps session' → ∀ step ∈ steps, step.Preserves := by
  intro h
  have hagain :=
      Program.interfered_run (h := handle .memory) (SessionOp.commitTask.perform {} firstCommit.1.2)
    firstCommit.2
  have hkeeps :=
    (h {} _ _ _ interfered_firstCommit _ _ (.step hagain (.done _)) _ List.mem_cons_self).store
  have hstore := Program.run_eq_of_trace World.store _ firstCommit.2 hkeeps
  have htwice :
    (((SessionOp.commitTask.perform {} firstCommit.1.2).run (handle .memory)
      firstCommit.2).2.store.get
        (ascii "k")).value = ascii "xx" := rfl
  have honce : (firstCommit.2.store.get (ascii "k")).value = ascii "x" := rfl
  rw [hstore, honce] at htwice
  exact absurd htwice (by decide)

end DataAgentSystem.Runtime
