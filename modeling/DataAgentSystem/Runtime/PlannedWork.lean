import DataAgentSystem.AgentTxn.CommittedIntents
import DataAgentSystem.Runtime.BranchOrder
import DataAgentSystem.Runtime.UndisturbedCommit

/-! A session whose work is known. Each branch is what the operations on it make of a new
one; so its score is the one that was staged last, its intents are those that its savepoints
and rollbacks leave, and the commit does to the store what the intents of the branch say
whose score leads. The work may be planned branch by branch, each to be staged at its end. -/

namespace DataAgentSystem.Runtime

open Text Intent Cache Branch Storage Interaction Containers AgentTxn AgentTxnManager CommitManager

variable {kind : StoreKind} {config : FallbackCommitRuntimeConfig}
  {session : TaskSession} {w : World}

/-- The operations on a branch, in order. -/
def historyOn (branchId : Bytes) (ops : List SessionOp) : List BranchOp :=
  ops.filterMap fun op => if op.branchId = branchId then op.toBranchOp else none

/-- The score that was staged last. -/
def stagedScore (ops : List BranchOp) : Double :=
  ops.foldl (fun score op => match op with | .stage staged _ => staged | _ => score) (.finite 0)

/-- The intents that are left in the end. -/
def writtenIntents (ops : List BranchOp) : List WriteIntent :=
  SnapshotLog.written (ops.map BranchOp.edit)

/-- `std::max_element` by a score: the first that no later one beats. -/
def leading {α : Type} (score : α → Double) : α → List α → α
  | largest, [] => largest
  | largest, a :: as =>
    if (score largest).lt (score a) then leading score a as else leading score largest as

def performAll (config : FallbackCommitRuntimeConfig) :
    List SessionOp → TaskSession → Prog TaskSession
  | [], session => return session
  | op :: ops, session => do performAll config ops (← op.perform config session)

/-- The metrics that are known before the work. -/
def withPlannedMetrics (session : TaskSession) (branchCount : ℕ) : TaskSession :=
  { session with txn := { session.txn with metrics := { session.txn.metrics with
      branchCount, plannedLoserCount := if branchCount = 0 then 0 else branchCount - 1 } } }

/-- Work only looks at the store. -/
theorem run_perform_snd {op : SessionOp} (hworks : op.works = true)
    (session : TaskSession) (w : World) :
    ((op.perform config session).run (handle kind) w).2 = w := by
  cases op with
  | commitTask => cases hworks
  | abortTask => cases hworks
  | read branchId objectId =>
    simp only [SessionOp.perform, TaskSession.read, Program.run_bind,
      Program.pure_eq_ret, Program.run_ret]
    exact AgentTxnContext.run_read kind session.txn branchId objectId w
  | write branchId objectId objectType intent =>
    simp only [SessionOp.perform, TaskSession.write, Program.run_bind,
      Program.pure_eq_ret, Program.run_ret]
    exact AgentTxnContext.run_write kind session.txn branchId objectId objectType intent w
  | _ => rfl

theorem performAll_append (ops ops' : List SessionOp) (session : TaskSession) :
    performAll config (ops ++ ops') session = performAll config ops session >>=
      performAll config ops' := by
  induction ops generalizing session with
  | nil => rfl
  | cons op ops ih =>
    rw [List.cons_append, performAll, performAll, bind_assoc]
    exact congrArg (op.perform config session >>= ·) (funext fun session => ih session)

theorem run_performAll {ops : List SessionOp} (hworks : ∀ op ∈ ops, op.works = true)
    (session : TaskSession) (w : World) :
    (performAll config ops session).run (handle kind) w =
      (performedOn kind config session (ops.map (·, w)), w) := by
  induction ops generalizing session with
  | nil => rfl
  | cons op ops ih =>
    rw [List.forall_mem_cons] at hworks
    rw [performAll, Program.run_bind, run_perform_snd hworks.1, ih hworks.2]
    rfl

/-! ### Each branch for itself -/

variable {ops : List (SessionOp × World)}

theorem historyOn_append (branchId : Bytes) (ops ops' : List SessionOp) :
    historyOn branchId (ops ++ ops') = historyOn branchId ops ++ historyOn branchId ops' :=
  List.filterMap_append

theorem map_fst_branchHistory (branchId : Bytes) (ops : List (SessionOp × World)) :
    (branchHistory branchId ops).map Prod.fst = historyOn branchId (ops.map Prod.fst) := by
  rw [branchHistory, historyOn, List.map_filterMap, List.filterMap_map]
  refine List.filterMap_congr fun op _ => ?_
  by_cases hid : op.1.branchId = branchId
  · simp [hid, Function.comp_def]
  · simp [hid]

theorem performAll_branchHistory {branch : BranchContext} (hworks : ∀ op ∈ ops, op.1.works = true) :
    (opsOn branch.branchId ops).foldl (fun branch op => op.1.onBranch kind op.2 branch) branch =
      BranchOp.performAll kind branch (branchHistory branch.branchId ops) := by
  induction ops using List.reverseRecOn with
  | nil => rfl
  | append_singleton ops op ih =>
    rw [List.forall_mem_append, List.forall_mem_singleton] at hworks
    rw [opsOn, List.filter_append, ← opsOn]
    by_cases hid : op.1.branchId = branch.branchId
    · obtain ⟨branchOp, hop, hperform⟩ :=
        @onBranch_eq_perform kind _ hworks.2 (BranchOp.performAll kind branch
          (branchHistory branch.branchId ops)) op.2
      rw [branchHistory_snoc_of_eq ops hid hop, performAll_snoc, ← hperform, ← ih hworks.1,
        List.filter_cons_of_pos (by simpa using hid), List.filter_nil, List.foldl_concat]
    · rw [branchHistory_snoc_of_ne ops hid, ← ih hworks.1,
        List.filter_cons_of_neg (by simpa using hid), List.filter_nil, List.append_nil]

/-- Once work has been done, each branch is what its own history makes of it. -/
theorem branches_performedOn {ids : List Bytes} (hworks : ∀ op ∈ ops, op.1.works = true)
    (hnodup : ids.Nodup) (hbranches : session.txn.branches = ids.map fun id => { branchId := id }) :
    (performedOn kind config session ops).txn.branches = ids.map fun id =>
        worked kind id (branchHistory id ops) := by
  have hids : (session.txn.branches.map (·.branchId)).Nodup := by
    rw [hbranches, List.map_map]
    simpa [Function.comp_def] using hnodup
  rw [txn_performedOn hworks hids]
  show session.txn.branches.map _ = _
  rw [hbranches, List.map_map]
  exact List.map_congr_left fun id _ => @performAll_branchHistory _ _ { branchId := id } hworks

variable {history : List (BranchOp × World)}

/-- Of the id and the score of a branch, operations change the score, and that by staging. -/
theorem head_perform (branch : BranchContext) (op : BranchOp × World) :
    (BranchOp.perform kind branch op).branchId = branch.branchId ∧
      (BranchOp.perform kind branch op).candidateResult.score =
        match op.1 with | .stage staged _ => staged | _ => branch.candidateResult.score := by
  obtain ⟨op, w⟩ := op
  cases op with
  | read objectId =>
    have hsame := @sameWork_readObject kind branch objectId w
    exact ⟨hsame.branchId, congrArg CandidateResult.score hsame.candidateResult⟩
  | write objectId objectType intent =>
    show ((BranchManager.bufferWrite branch objectId objectType intent).run
      (handle kind) w).1.branchId = _ ∧
      ((BranchManager.bufferWrite branch objectId objectType intent).run (handle kind)
        w).1.candidateResult.score = _
    unfold BranchManager.bufferWrite
    cases branch.writeBuffer.find objectId <;> exact ⟨rfl, rfl⟩
  | savepoint savepointId => exact ⟨rfl, rfl⟩
  | rollbackToSavepoint savepointId =>
    show (RollbackManager.rollbackToSavepoint branch savepointId).2.branchId = _ ∧
      (RollbackManager.rollbackToSavepoint branch savepointId).2.candidateResult.score = _
    unfold RollbackManager.rollbackToSavepoint
    split <;> exact ⟨rfl, rfl⟩
  | stage score summary => exact ⟨rfl, rfl⟩

theorem branchId_worked (kind : StoreKind) (branchId : Bytes) (history : List (BranchOp × World)) :
    (worked kind branchId history).branchId = branchId := by
  induction history using List.reverseRecOn with
  | nil => rfl
  | append_singleton history op ih => rw [worked_snoc, (head_perform _ op).1, ih]

theorem score_worked (kind : StoreKind) (branchId : Bytes) (history : List (BranchOp × World)) :
    (worked kind branchId history).candidateResult.score = stagedScore (history.map Prod.fst) := by
  induction history using List.reverseRecOn with
  | nil => rfl
  | append_singleton history op ih =>
    rw [worked_snoc, (head_perform _ op).2, List.map_append, List.map_singleton, stagedScore,
      List.foldl_concat, ← stagedScore, ih]

theorem upToDate_worked {s : MemoryKVStore} (branchId : Bytes) (hnamed : ∀ op ∈ history, op.1.Named)
    (hstores : ∀ op ∈ history, op.2.store = s) : UpToDate s (worked .memory branchId history) := by
  induction history using List.reverseRecOn with
  | nil => exact (kept_upToDate s).new branchId
  | append_singleton history op ih =>
    rw [List.forall_mem_append, List.forall_mem_singleton] at hnamed hstores
    have hbefore := ih hnamed.1 hstores.1
    rw [worked_snoc]
    obtain ⟨op, w⟩ := op
    cases op with
    | read objectId => exact hbefore.readObject objectId hstores.2
    | write objectId objectType intent => exact hbefore.bufferWrite objectType hnamed.2 hstores.2
    | savepoint savepointId => exact (kept_upToDate s).createSavepoint hbefore savepointId
    | rollbackToSavepoint savepointId =>
      exact (kept_upToDate s).rollbackToSavepoint hbefore savepointId
    | stage score summary => exact hbefore.congr rfl rfl rfl rfl

/-! ### The winner -/

theorem leading_mem {α : Type} (score : α → Double) (a : α) (as : List α) :
    leading score a as ∈ a :: as := by
  induction as generalizing a with
  | nil => exact List.mem_singleton_self a
  | cons b as ih =>
    rw [leading]
    split
    · exact List.mem_cons_of_mem _ (ih b)
    · rcases List.mem_cons.1 (ih a) with h | h
      · rw [h]
        exact List.mem_cons_self
      · exact List.mem_cons_of_mem _ (List.mem_cons_of_mem _ h)

theorem leading_map {α β : Type} (score : β → Double) (f : α → β) (a : α) (as : List α) :
    leading score (f a) (as.map f) = f (leading (fun a => score (f a)) a as) := by
  induction as generalizing a with
  | nil => rfl
  | cons b as ih =>
    rw [List.map_cons, leading, leading]
    split
    · exact ih b
    · exact ih a

theorem leading_congr {α : Type} {score score' : α → Double} {a : α} {as : List α}
    (h : ∀ b ∈ a :: as, score b = score' b) :
    leading score a as = leading score' a as := by
  induction as generalizing a with
  | nil => rfl
  | cons b as ih =>
    rw [List.forall_mem_cons, List.forall_mem_cons] at h
    rw [leading, leading, h.1, h.2.1, ih (List.forall_mem_cons.2 ⟨h.1, h.2.2⟩),
      ih (List.forall_mem_cons.2 h.2)]

theorem leading_concat {α : Type} (score : α → Double) (a : α) (as : List α) (b : α) :
    leading score a (as ++ [b]) = if (score (leading score a as)).lt (score b) then b
      else leading score a as := by
  induction as generalizing a with
  | nil => rfl
  | cons c as ih =>
    rw [List.cons_append, leading, leading]
    split
    · exact ih c
    · exact ih a

/-- Of numbered ones the first leads that beats all before it and is not beaten by a later one. -/
theorem leading_range' {score : ℕ → Double} {b n : ℕ} (hb : b ≤ n)
    (hbefore : ∀ i < b, (score i).lt (score b) = true)
    (hafter : ∀ i ≤ n, b < i → (score b).lt (score i) = false) :
    leading score 0 (List.range' 1 n) = b := by
  induction n with
  | zero => exact (Nat.le_zero.1 hb).symm
  | succ n ih =>
    rw [List.range'_1_concat, leading_concat, Nat.add_comm 1 n]
    rcases Nat.lt_or_ge n b with hlt | hle
    · obtain rfl : b = n + 1 := by omega
      have hmem := leading_mem score 0 (List.range' 1 n)
      have hearlier : leading score 0 (List.range' 1 n) < n + 1 := by
        rcases List.mem_cons.1 hmem with h | h
        · omega
        · have := List.mem_range'_1.1 h
          omega
      rw [if_pos (hbefore _ hearlier)]
    · rw [ih hle fun i hi => hafter i (hi.trans n.le_succ), hafter (n + 1) le_rfl (by omega),
        if_neg Bool.false_ne_true]

theorem maxElement_eq_leading (branch : BranchContext) (branches : List BranchContext) :
    BranchManager.maxElement branch branches = leading (fun branch => branch.candidateResult.score)
      branch branches := by
  induction branches generalizing branch with
  | nil => rfl
  | cons b branches ih => rw [BranchManager.maxElement, leading, ih, ih]

/-- With all ids different, each branch is found by its own. -/
theorem findBranch_of_mem {branches : List BranchContext}
    (hnodup : (branches.map (·.branchId)).Nodup) {branch : BranchContext}
    (hbranch : branch ∈ branches) :
    BranchManager.findBranch branches branch.branchId = some branch := by
  obtain ⟨found, hfound⟩ := Option.isSome_iff_exists.1
    (BranchManager.findBranch_isSome.2 (List.mem_map_of_mem (f := (·.branchId)) hbranch))
  have hsame := List.inj_on_of_nodup_map hnodup (BranchManager.mem_of_findBranch hfound) hbranch
    (BranchManager.branchId_of_findBranch hfound)
  rw [hfound, hsame]

/-- The branch that is selected is the one whose staged score leads. -/
theorem selects_worked {first : Bytes} {ids : List Bytes} {txn : AgentTxnContext}
    (hnodup : (first :: ids).Nodup) {histories : Bytes → List (BranchOp × World)}
    (hbranches : txn.branches = (first :: ids).map fun id => worked kind id (histories id)) :
    Selects txn (worked kind
      (leading (fun id => stagedScore ((histories id).map Prod.fst)) first ids)
      (histories (leading (fun id => stagedScore ((histories id).map Prod.fst)) first ids))) := by
  have hids : (((first :: ids).map fun id => worked kind id (histories id)).map
      (·.branchId)).Nodup := by
    rw [List.map_map]
    simpa only [Function.comp_def, branchId_worked, List.map_id'] using hnodup
  rw [Selects, hbranches]
  refine ⟨?_, findBranch_of_mem hids (List.mem_map_of_mem (leading_mem _ first ids))⟩
  rw [List.map_cons, BranchManager.selectWinner, maxElement_eq_leading,
    leading_map (fun branch => branch.candidateResult.score) fun id =>
    worked kind id (histories id)]
  simp only [score_worked]

/-! ### The commit -/

/-- A commit that returns says in the session what it returns. -/
theorem returns_committed (config : FallbackCommitRuntimeConfig) (session : TaskSession) :
    (session.commitTask config).Returns fun out => ∀ committed, out.1 = .ok committed →
      out.2.committed = committed := by
  refine (Program.returns_true _).bind fun selected _ => ?_
  obtain ⟨result, txn⟩ := selected
  cases result with
  | error what => exact nofun
  | ok committed =>
    refine (returns_finalize config _).bind fun finalized hfinalized => ?_
    cases finalized with
    | error what => exact nofun
    | ok ended =>
      rintro _ ⟨⟩
      rw [(hfinalized ended rfl).2.1]
      cases committed <;> rfl

theorem named_branchHistory {branchId : Bytes} (hnamed : ∀ op ∈ ops, op.1.NamesObject) :
    ∀ op ∈ branchHistory branchId ops, op.1.Named := by
  intro op hop
  obtain ⟨performed, hperformed, hsome⟩ := List.mem_filterMap.1 hop
  rw [Option.ite_none_right_eq_some, Option.map_eq_some_iff] at hsome
  obtain ⟨-, branchOp, hbranchOp, rfl⟩ := hsome
  have hnames := hnamed performed hperformed
  cases hcase : performed.1 with
  | write branchId objectId objectType intent =>
    rw [hcase] at hnames hbranchOp
    cases hbranchOp
    exact hnames
  | commitTask => rw [hcase] at hbranchOp; cases hbranchOp
  | abortTask => rw [hcase] at hbranchOp; cases hbranchOp
  | _ =>
    rw [hcase] at hbranchOp
    cases hbranchOp
    trivial

theorem store_branchHistory {s : MemoryKVStore} {branchId : Bytes}
    (hstores : ∀ op ∈ ops, op.2.store = s) :
    ∀ op ∈ branchHistory branchId ops, op.2.store = s := by
  intro op hop
  obtain ⟨performed, hperformed, hsome⟩ := List.mem_filterMap.1 hop
  rw [Option.ite_none_right_eq_some, Option.map_eq_some_iff] at hsome
  obtain ⟨-, branchOp, -, rfl⟩ := hsome
  exact hstores performed hperformed

/-- Where nobody disturbs the work on a new task, its commit does what the intents of the
leading branch say. -/
theorem run_commitTask_worked {first : Bytes} {ids : List Bytes}
    (config' : FallbackCommitRuntimeConfig) (hnodup : (first :: ids).Nodup)
    (hbranches : session.txn.branches = (first :: ids).map fun id => { branchId := id })
    (hworks : ∀ op ∈ ops, op.1.works = true) (hnamed : ∀ op ∈ ops, op.1.NamesObject)
    (hstores : ∀ op ∈ ops, op.2.store = w.store) :
    let history := fun id => historyOn id (ops.map Prod.fst)
    let intents := writtenIntents (history (leading (fun id => stagedScore (history id)) first ids))
    let out := ((performedOn .memory config session ops).commitTask config').run (handle .memory) w
    out.1.1 = .ok (allResolve intents w.store) ∧
      ∀ k, out.2.store.get k = if allResolve intents w.store then valueAfter intents w.store k
          else w.store.get k := by
  intro history intents out
  have hs := selects_worked hnodup
    (@branches_performedOn .memory config _ _ _ hworks hnodup hbranches)
  simp only [map_fst_branchHistory] at hs
  have hcommit := run_selectWinnerAndCommit_upToDate
    (upToDate_worked _ (named_branchHistory hnamed) (store_branchHistory hstores)) hs
  rw [intents_worked, ← Function.comp_def BranchOp.edit Prod.fst, ← List.map_map,
    map_fst_branchHistory] at hcommit
  have hlike := run_commitTask .memory config' (performedOn .memory config session ops) w
  exact ⟨hlike.result.trans hcommit.1, fun k =>
    (congrArg (·.get k) hlike.store).trans (hcommit.2 k)⟩

/-! ### Plans -/

/-- A branch and what is to be done on it before it is staged. -/
structure BranchWork where
  branchId : Bytes
  ops : List BranchOp := []
  score : Double := .finite 0
  summary : Bytes := []

def BranchWork.allOps (work : BranchWork) : List BranchOp :=
  work.ops ++ [.stage work.score work.summary]

/-- The operation on this branch of a session. -/
def onSession (branchId : Bytes) : BranchOp → SessionOp
  | .read objectId => .read branchId objectId
  | .write objectId objectType intent => .write branchId objectId objectType intent
  | .savepoint savepointId => .savepoint branchId savepointId
  | .rollbackToSavepoint savepointId => .rollbackToSavepoint branchId savepointId
  | .stage score summary => .stageBranch branchId score summary

/-- The whole work, one branch after the other. -/
def sessionOps (works : List BranchWork) : List SessionOp :=
  works.flatMap fun work => work.allOps.map (onSession work.branchId)

variable {works : List BranchWork} {work : BranchWork}

theorem branchId_onSession (branchId : Bytes) (op : BranchOp) :
    (onSession branchId op).branchId = branchId := by
  cases op <;> rfl

theorem toBranchOp_onSession (branchId : Bytes) (op : BranchOp) :
    (onSession branchId op).toBranchOp = some op := by
  cases op <;> rfl

theorem works_onSession (branchId : Bytes) (op : BranchOp) :
    (onSession branchId op).works = true := by
  cases op <;> rfl

theorem works_sessionOps (works : List BranchWork) : ∀ op ∈ sessionOps works, op.works = true := by
  intro op hop
  obtain ⟨work, -, hop⟩ := List.mem_flatMap.1 hop
  obtain ⟨branchOp, -, rfl⟩ := List.mem_map.1 hop
  exact works_onSession work.branchId branchOp

theorem namesObject_sessionOps (hnamed : ∀ work ∈ works, ∀ op ∈ work.ops, op.Named) :
    ∀ op ∈ sessionOps works, op.NamesObject := by
  intro op hop
  obtain ⟨work, hwork, hop⟩ := List.mem_flatMap.1 hop
  obtain ⟨branchOp, hbranchOp, rfl⟩ := List.mem_map.1 hop
  rcases List.mem_append.1 hbranchOp with hmem | hmem
  · have hnames := hnamed work hwork branchOp hmem
    cases branchOp with
    | write objectId objectType intent => exact hnames
    | _ => trivial
  · rw [List.mem_singleton.1 hmem]
    trivial

theorem historyOn_map_onSession (branchId branchId' : Bytes) (ops : List BranchOp) :
    historyOn branchId (ops.map (onSession branchId')) =
      if branchId' = branchId then ops else [] := by
  rw [historyOn, List.filterMap_map]
  simp only [Function.comp_def, branchId_onSession, toBranchOp_onSession]
  split
  · exact List.filterMap_some
  · exact List.filterMap_none ops

/-- Nothing is done on a branch that no work is for. -/
theorem historyOn_sessionOps_of_notMem {branchId : Bytes} (h : branchId ∉ works.map (·.branchId)) :
    historyOn branchId (sessionOps works) = [] := by
  refine List.filterMap_eq_nil_iff.2 fun op hop => ?_
  obtain ⟨work, hwork, hop⟩ := List.mem_flatMap.1 hop
  obtain ⟨branchOp, -, rfl⟩ := List.mem_map.1 hop
  have hne : work.branchId ≠ branchId := fun heq => h (heq ▸ List.mem_map_of_mem hwork)
  rw [branchId_onSession, if_neg hne]

/-- With all ids different, the operations on a branch are its own. -/
theorem historyOn_sessionOps (hnodup : (works.map (·.branchId)).Nodup) (hwork : work ∈ works) :
    historyOn work.branchId (sessionOps works) = work.allOps := by
  induction works with
  | nil => exact absurd hwork List.not_mem_nil
  | cons first works ih =>
    rw [List.map_cons, List.nodup_cons] at hnodup
    rw [sessionOps, List.flatMap_cons, historyOn_append, historyOn_map_onSession, ← sessionOps]
    rcases List.mem_cons.1 hwork with rfl | hmem
    · rw [if_pos rfl, historyOn_sessionOps_of_notMem hnodup.1, List.append_nil]
    · have hne : first.branchId ≠ work.branchId := fun heq =>
        hnodup.1 (heq ▸ List.mem_map_of_mem hmem)
      rw [if_neg hne, List.nil_append]
      exact ih hnodup.2 hmem

theorem stagedScore_allOps (work : BranchWork) : stagedScore work.allOps = work.score := by
  rw [stagedScore, BranchWork.allOps, List.foldl_concat]

theorem writtenIntents_allOps (work : BranchWork) :
    writtenIntents work.allOps = writtenIntents work.ops := by
  rw [writtenIntents, BranchWork.allOps, List.map_append, List.map_singleton,
    SnapshotLog.written, List.foldl_concat]
  rfl

/-- What has been done on the branch whose score leads, each time with the world as it is. -/
def leadingHistory (first : BranchWork) (works : List BranchWork) (w : World) :
    List (BranchOp × World) :=
  (leading BranchWork.score first works).allOps.map (·, w)

/-- Of a plan that has been worked off, the work is selected whose score leads. -/
theorem selects_planned {first : BranchWork} (hnodup : ((first :: works).map (·.branchId)).Nodup)
    (hbranches : session.txn.branches = (first :: works).map fun work =>
      { branchId := work.branchId }) :
    Selects (performedOn kind config session ((sessionOps (first :: works)).map (·, w))).txn
      (worked kind (leading BranchWork.score first works).branchId
          (leadingHistory first works w)) := by
  have hhistory : ∀ work ∈ first :: works,
      branchHistory work.branchId ((sessionOps (first :: works)).map (·, w)) =
          work.allOps.map (·, w) := by
    intro work hwork
    rw [← historyOn_sessionOps hnodup hwork, branchHistory, historyOn,
      List.filterMap_map, List.map_filterMap]
    refine List.filterMap_congr fun op _ => ?_
    by_cases hid : op.branchId = work.branchId
    · simp [hid]
    · simp [hid]
  have hscores : ∀ work ∈ first :: works,
      stagedScore ((branchHistory work.branchId ((sessionOps (first :: works)).map (·, w))).map
          Prod.fst) = work.score := by
    intro work hwork
    rw [hhistory work hwork, List.map_map]
    simpa only [Function.comp_def, List.map_id'] using stagedScore_allOps work
  have hworks : ∀ op ∈ (sessionOps (first :: works)).map (·, w), op.1.works = true :=
    List.forall_mem_map.2 (works_sessionOps (first :: works))
  have hids : session.txn.branches = ((first :: works).map (·.branchId)).map fun id =>
      { branchId := id } := by
    rw [hbranches, List.map_map]
    rfl
  have hs := selects_worked hnodup
    (@branches_performedOn kind config session _ _ hworks hnodup hids)
  rw [leading_map
    (fun id => stagedScore
      ((branchHistory id ((sessionOps (first :: works)).map (·, w))).map Prod.fst))
    BranchWork.branchId, leading_congr hscores, hhistory _ (leading_mem _ first works)] at hs
  exact hs

/-- Operations that write nothing but one object leave no other intents. -/
theorem objectId_of_mem_writtenIntents {ops : List BranchOp} {objectId : Bytes}
    (hwrites : ∀ op ∈ ops, ∀ intent, op.edit = .append intent → intent.objectId = objectId) :
    ∀ intent ∈ writtenIntents ops, intent.objectId = objectId := by
  intro intent hintent
  obtain ⟨op, hop, hedit⟩ := List.mem_map.1 (SnapshotLog.append_mem_of_mem_written hintent)
  exact hwrites op hop intent hedit

/-- A write that is only followed by the staging comes last. -/
theorem writtenIntents_written (ops : List BranchOp) (readId objectId : Bytes)
    (objectType : ObjectType) (intent : WriteIntent) (score : Double) (summary : Bytes) :
    writtenIntents
      (ops ++ ([.read readId, .write objectId objectType intent] ++ [.stage score summary])) =
      writtenIntents ops ++ [intent] := by
  rw [writtenIntents, List.map_append, SnapshotLog.written, List.foldl_append]
  rfl

/-- The commit of a plan that has been worked off does what the intents of the leading work say. -/
theorem run_commitTask_planned {first : BranchWork}
    (hnodup : ((first :: works).map (·.branchId)).Nodup)
    (hnamed : ∀ work ∈ first :: works, ∀ op ∈ work.ops, op.Named)
    (hbranches : session.txn.branches = (first :: works).map fun work =>
      { branchId := work.branchId }) :
    let intents := writtenIntents (leading BranchWork.score first works).ops
    let out := ((performedOn .memory config session
      ((sessionOps (first :: works)).map (·, w))).commitTask config).run
      (handle .memory) w
    out.1.1 = .ok (allResolve intents w.store) ∧
      ∀ k, out.2.store.get k = if allResolve intents w.store then valueAfter intents w.store k
          else w.store.get k := by
  have hscores : ∀ work ∈ first :: works,
      stagedScore (historyOn work.branchId (sessionOps (first :: works))) = work.score := by
    intro work hwork
    rw [historyOn_sessionOps hnodup hwork, stagedScore_allOps]
  have hcommit := @run_commitTask_worked config session w ((sessionOps (first :: works)).map (·, w))
    _ _ config hnodup (by rw [hbranches, ← List.map_cons, List.map_map]; rfl)
    (List.forall_mem_map.2 (works_sessionOps _))
      (List.forall_mem_map.2 (namesObject_sessionOps hnamed))
    (List.forall_mem_map.2 fun _ _ => rfl)
  simp only [List.map_map, Function.comp_def, List.map_id'] at hcommit
  rw [leading_map (fun id => stagedScore (historyOn id (sessionOps (first :: works))))
    BranchWork.branchId, leading_congr hscores,
    historyOn_sessionOps hnodup (leading_mem _ first works), writtenIntents_allOps] at hcommit
  exact hcommit

end DataAgentSystem.Runtime
