import DataAgentSystem.Experiments.Alphabet
import DataAgentSystem.Experiments.VerifyCommitLogs
import DataAgentSystem.Runtime.RecoveredOutcome

/-! The characters of a session's logs. Whatever is done with a session, in an alphabet that holds
what is printable, and whoever else writes, if they keep to the alphabet: so does every text of its
two logs. An alphabet of ASCII without odd line ends makes both of them readable to the scripts. -/

namespace DataAgentSystem.Experiments

open Text Intent Cache Branch Containers Storage Interaction AgentTxn
  AgentTxnManager DataAgentSystem.Runtime

variable {P : Byte → Prop} {txn : AgentTxnContext} {session : TaskSession}
  {branchId objectId : Bytes}

/-! ### Transactions -/

/-- What a transaction tells of itself is in the alphabet. -/
structure ReportOver (P : Byte → Prop) (txn : AgentTxnContext) : Prop where
  txnId : Over P txn.txnId
  taskId : Over P txn.taskId
  winnerBranchId : Over P txn.winnerBranchId
  reason : Over P txn.validationResult.reason
  commitLog : ∀ entry ∈ txn.commitLog.entries, Over P entry.key ∧ Over P entry.value
  artifactPath : Over P txn.fallbackCommit.artifactPath

structure TxnOver (P : Byte → Prop) (txn : AgentTxnContext) : Prop extends ReportOver P txn where
  branchIds : ∀ branchId ∈ txn.branches.map (·.branchId), Over P branchId
  branches : AllBranches (BranchOver P) txn

theorem TxnOver.createBranch (h : TxnOver P txn) (hid : Over P branchId) :
    TxnOver P (AgentTxnManager.createBranch txn branchId) where
  toReportOver := { h.toReportOver with }
  branchIds := by
    show ∀ id ∈ (BranchManager.createBranch txn.branches branchId).map (·.branchId), Over P id
    rw [BranchManager.createBranch, List.map_append, List.forall_mem_append]
    exact ⟨h.branchIds, List.forall_mem_singleton.2 hid⟩
  branches := h.branches.createBranch (kept_branchOver P) branchId

theorem TxnOver.setBranch (h : TxnOver P txn) {branch : BranchContext}
    (hbranch : BranchOver P branch) :
    TxnOver P (txn.setBranch branch) where
  toReportOver := { h.toReportOver with }
  branchIds := by
    show ∀ id ∈ (BranchManager.replaceBranch txn.branches branch).map (·.branchId), Over P id
    rw [BranchManager.map_branchId_replaceBranch]
    exact h.branchIds
  branches := h.branches.setBranch hbranch

theorem TxnOver.savepoint (h : TxnOver P txn) (branchId savepointId : Bytes) :
    TxnOver P (txn.savepoint branchId savepointId) := by
  unfold AgentTxnContext.savepoint
  cases hfind : txn.findBranch branchId with
  | none => exact h
  | some branch =>
    exact h.setBranch
      ((kept_branchOver P).createSavepoint (h.branches.findBranch hfind) savepointId)

theorem TxnOver.rollbackToSavepoint (h : TxnOver P txn) (branchId savepointId : Bytes) :
    TxnOver P (txn.rollbackToSavepoint branchId savepointId).2 := by
  unfold AgentTxnContext.rollbackToSavepoint
  cases hfind : txn.findBranch branchId with
  | none => exact h
  | some branch =>
    exact h.setBranch
      ((kept_branchOver P).rollbackToSavepoint (h.branches.findBranch hfind) savepointId)

theorem TxnOver.stageBranch (h : TxnOver P txn) (branchId : Bytes)
    (score : Double) (summary : Bytes) :
    TxnOver P (txn.stageBranch branchId score summary) := by
  unfold AgentTxnContext.stageBranch
  cases hfind : txn.findBranch branchId with
  | none => exact h
  | some branch =>
    have hbranch := h.branches.findBranch hfind
    have hstaged : BranchOver P (BranchManager.stageBranch branch score summary) :=
      ⟨hbranch.reads, hbranch.writes.congr rfl rfl rfl⟩
    exact h.setBranch hstaged

theorem TxnOver.abortTask (h : TxnOver P txn) : TxnOver P txn.abortTask where
  toReportOver := { h.toReportOver with }
  branchIds := by
    rw [(keepsContest_discarded rfl : KeepsContest txn txn.abortTask).branchIds]
    exact h.branchIds
  branches := h.branches.abortTask (kept_branchOver P)

theorem meets_txnRead (h : TxnOver P txn) (branchId : Bytes) (hid : Over P objectId) :
    (txn.read branchId objectId).Meets (alphabet P) fun out => Over P out.1.value ∧
      TxnOver P out.2 := by
  unfold AgentTxnContext.read
  cases hfind : txn.findBranch branchId with
  | none => exact ⟨over_nil, h⟩
  | some branch =>
    exact (meets_readObject (h.branches.findBranch hfind) hid).bind fun out hout =>
      ⟨hout.1, h.setBranch hout.2⟩

theorem meets_txnWrite (hP : ∀ c, isStructural c = true → P c) (h : TxnOver P txn)
    (branchId : Bytes) (hid : Over P objectId) {intent : WriteIntent}
    (hintent : IntentOver P intent) (objectType : ObjectType) :
    (txn.write branchId objectId objectType intent).Meets (alphabet P) (TxnOver P) := by
  unfold AgentTxnContext.write
  cases hfind : txn.findBranch branchId with
  | none => exact h
  | some branch =>
    exact (meets_bufferWrite hP (h.branches.findBranch hfind) hid hintent objectType).bind
      fun out hout => h.setBranch hout

/-! ### Commits -/

theorem meets_validateReads (hP : ∀ c, isStructural c = true → P c)
    (latest : UnorderedMap IntentType) {reads : List ReadRecord}
    (hreads : ∀ read ∈ reads, Over P read.objectId) :
    (ValidationManager.validateReads latest reads).Meets (alphabet P) fun validation =>
      Over P validation.reason := by
  induction reads with
  | nil => exact over_nil
  | cons read reads ih =>
    rw [List.forall_mem_cons] at hreads
    rw [ValidationManager.validateReads]
    split
    · exact ih hreads.2
    · rw [Store.getVersion_bind, Program.meets_call]
      refine ⟨trivial, fun version _ => ?_⟩
      split
      · exact over_append.2 ⟨forall_mem_of_all hP (by decide), hreads.1⟩
      · exact ih hreads.2

theorem ReportOver.refuse (h : ReportOver P txn) {reason : Bytes} (hreason : Over P reason) :
    ReportOver P (refuse txn reason) :=
  { h with reason := hreason }

theorem meets_commitMarked (hP : ∀ c, isStructural c = true → P c) (h : TxnOver P txn) :
    (commitMarked txn).Meets (alphabet P) fun out => ReportOver P out.2 := by
  unfold commitMarked
  cases hfind : BranchManager.findBranch txn.branches txn.winnerBranchId with
  | none => exact h.refuse (forall_mem_of_all hP (by decide))
  | some winner =>
    have hwinner := h.branches.findBranch hfind
    refine (meets_validateReads hP _ hwinner.reads).bind fun validation hvalidation => ?_
    have hvalidated : ReportOver P { txn with validationResult := validation } :=
        { h.toReportOver with reason := hvalidation }
    simp only
    split
    · exact { hvalidated with }
    · refine (meets_commitWinner hP _ hwinner).bind fun result hresult => ?_
      cases result with
      | error reason => exact hvalidated.refuse hresult
      | ok commitLog => exact { hvalidated with commitLog := hresult }

theorem TxnOver.mark (h : TxnOver P txn) {winnerBranchId : Bytes} (hid : Over P winnerBranchId) :
    TxnOver P (mark txn winnerBranchId) where
  toReportOver := { h.toReportOver with winnerBranchId := hid }
  branchIds := by
    show ∀ id ∈ (BranchManager.markWinnerAndLosers txn.branches winnerBranchId).map (·.branchId),
      Over P id
    rw [BranchManager.map_branchId_markWinnerAndLosers]
    exact h.branchIds
  branches := h.branches.mark (kept_branchOver P) winnerBranchId

theorem meets_selectWinnerAndCommit (hP : ∀ c, isStructural c = true → P c) (h : TxnOver P txn) :
    (selectWinnerAndCommit txn).Meets (alphabet P) fun out => TxnOver P out.2 := by
  have hreport : (selectWinnerAndCommit txn).Meets (alphabet P) fun out => ReportOver P out.2 := by
    unfold selectWinnerAndCommit
    cases hselect : BranchManager.selectWinner txn.branches with
    | error what => exact h.toReportOver
    | ok winnerBranchId =>
      have hid : Over P winnerBranchId := by
        have hne : txn.branches ≠ [] := by
          intro hnone
          rw [hnone] at hselect
          cases hselect
        obtain ⟨id, hid, hmem⟩ := BranchManager.selectWinner_ok hne
        rw [hselect] at hid
        obtain rfl := Except.ok.inj hid
        exact h.branchIds _ hmem
      exact (meets_commitMarked hP (h.mark hid)).bind fun out hout => hout
  have hbranches := h.branches.selectWinnerAndCommit (kept_branchOver P)
  refine ((hreport.returns hbranches).returns (returns_selectWinnerAndCommit_keepsContest txn)).mono
    fun out hout => ?_
  obtain ⟨⟨hreport, hbranches⟩, hcontest, -⟩ := hout
  refine ⟨hreport, ?_, hbranches⟩
  rw [hcontest.branchIds]
  exact h.branchIds

/-! ### Sessions -/

structure TaskOver (P : Byte → Prop) (task : TaskContext) : Prop where
  taskId : Over P task.taskId
  objective : Over P task.objective
  workloadName : Over P task.workloadName
  plannerId : Over P task.plannerId
  inputObjects : ∀ object ∈ task.inputObjects, Over P object.objectId ∧ Over P object.objectRole
  outputObjects : ∀ object ∈ task.outputObjects, Over P object.objectId ∧ Over P object.objectRole
  metadata : ∀ key value, task.metadata.lookup key = some value → Over P key ∧ Over P value

structure EventOver (P : Byte → Prop) (event : TaskEvent) : Prop where
  branchId : Over P event.branchId
  objectId : Over P event.objectId
  detail : Over P event.detail

/-- What a session has been told, has done and has recorded is in the alphabet. -/
structure SessionOver (P : Byte → Prop) (session : TaskSession) : Prop where
  task : TaskOver P session.task
  txn : TxnOver P session.txn
  events : ∀ event ∈ session.events, EventOver P event

theorem TaskOver.setMetadata {task : TaskContext} (h : TaskOver P task) {key value : Bytes}
    (hkey : Over P key) (hvalue : Over P value) :
    TaskOver P (task.setMetadata key value) := by
  refine { h with metadata := fun key' value' hlookup => ?_ }
  rw [TaskContext.setMetadata, UnorderedMap.lookup_insert_eq_ite] at hlookup
  split at hlookup
  next heq =>
    obtain rfl := Option.some.inj hlookup
    exact ⟨heq ▸ hkey, hvalue⟩
  next => exact h.metadata key' value' hlookup

theorem SessionOver.recordEvent (h : SessionOver P session) (type : TaskEventType) (n : Int64)
    {detail : Bytes} (hbranch : Over P branchId) (hobject : Over P objectId)
    (hdetail : Over P detail) :
    SessionOver P (session.recordEvent type branchId objectId detail n) where
  task := h.task
  txn := h.txn
  events := List.forall_mem_append.2
    ⟨h.events, List.forall_mem_singleton.2 ⟨hbranch, hobject, hdetail⟩⟩

theorem SessionOver.withTxn (h : SessionOver P session) (htxn : TxnOver P txn) :
    SessionOver P { session with txn } := { h with txn := htxn }

/-! ### Submission -/

theorem meets_configureFallbackCommit (hP : ∀ c, isStructural c = true → P c)
    {config : FallbackCommitRuntimeConfig} (hdir : Over P config.artifactDir) (h : TxnOver P txn) :
    (configureFallbackCommit config txn).Meets (alphabet P) (TxnOver P) := by
  unfold configureFallbackCommit
  split
  · exact h
  · refine ⟨trivial, fun supported _ => ?_⟩
    cases supported with
    | true => exact h
    | false =>
      have hslash : Over P (ascii "/") := forall_mem_of_all hP (by decide)
      have hsuffix : Over P (ascii ".fallback.log") := forall_mem_of_all hP (by decide)
      have hpath : Over P (config.artifactDir ++ ascii "/" ++ txn.txnId ++ ascii ".fallback.log") :=
        over_append.2 ⟨over_append.2 ⟨over_append.2 ⟨hdir, hslash⟩, h.txnId⟩, hsuffix⟩
      have hreport : ReportOver P { txn with fallbackCommit := { txn.fallbackCommit with
          artifactPath :=
            config.artifactDir ++ ascii "/" ++ txn.txnId ++ ascii ".fallback.log" } } :=
        { h.toReportOver with artifactPath := hpath }
      exact ⟨hreport, h.branchIds, h.branches⟩

theorem SessionOver.foldl_createBranch {branchPlans : List BranchPlan} (h : SessionOver P session)
    (hplans : ∀ branchPlan ∈ branchPlans, Over P branchPlan.branchId ∧
      Over P branchPlan.candidateId) :
    SessionOver P (branchPlans.foldl TaskSession.createBranch session) := by
  induction branchPlans generalizing session with
  | nil => exact h
  | cons branchPlan branchPlans ih =>
    rw [List.forall_mem_cons] at hplans
    have htxn := h.txn.createBranch hplans.1.1
    exact ih ((h.withTxn htxn).recordEvent _ _ hplans.1.1 over_nil hplans.1.2) hplans.2

/-- The texts that a task is submitted with. -/
structure Spells (P : Byte → Prop) (config : FallbackCommitRuntimeConfig) (task : TaskContext)
    (plan : ExecutionPlan) : Prop where
  artifactDir : Over P config.artifactDir
  task : TaskOver P task
  branchPlans : ∀ branchPlan ∈ plan.branchPlans, Over P branchPlan.branchId ∧
    Over P branchPlan.candidateId

theorem meets_submitTask (hP : ∀ c, isStructural c = true → P c)
    {config : FallbackCommitRuntimeConfig} {task : TaskContext} {plan : ExecutionPlan}
    (h : Spells P config task plan) :
    (submitTask config task plan).Meets (alphabet P) fun r => ∀ session, r = .ok session →
      SessionOver P session := by
  unfold submitTask
  split
  · exact forall_ok_error _
  · exact forall_ok_error _
  · have hbegun : TxnOver P (begin_ (ascii "txn:" ++ task.taskId) task.taskId) := by
      have hid : Over P (ascii "txn:" ++ task.taskId) :=
        over_append.2 ⟨forall_mem_of_all hP (by decide), h.task.taskId⟩
      have hreport : ReportOver P (begin_ (ascii "txn:" ++ task.taskId) task.taskId) :=
        ⟨hid, h.task.taskId, over_nil, over_nil, List.forall_mem_nil _, over_nil⟩
      exact ⟨hreport, List.forall_mem_nil _, List.forall_mem_nil _⟩
    refine (meets_configureFallbackCommit hP h.artifactDir hbegun).bind fun txn htxn => ?_
    have hopened : SessionOver P { task, plan, txn } := ⟨h.task, htxn, List.forall_mem_nil _⟩
    have hsubmitted :=
      (hopened.recordEvent .submitTask 0 over_nil over_nil h.task.objective).foldl_createBranch
      h.branchPlans
    rintro _ ⟨⟩
    exact { hsubmitted with task := { hsubmitted.task with } }

/-! ### Operations -/

theorem guarantees_of_onFiles {op : Call} (hop : op.onFiles = true) :
    (alphabet P).Guarantees op := by
  cases op <;> trivial

theorem meets_finalize (hP : ∀ c, isStructural c = true → P c)
    (config : FallbackCommitRuntimeConfig) (h : SessionOver P session) :
    (session.finalize config).Meets (alphabet P) fun r => ∀ ended, r = .ok ended →
      SessionOver P ended := by
  have hcalls : (finalizeFallbackCommitArtifact config session.txn).Only
      (alphabet P).Guarantees := by
    refine (only_finalizeFallbackCommitArtifact config session.txn).mono ?_
    rintro op (⟨-, hfiles⟩ | hfinalizing)
    · exact guarantees_of_onFiles hfiles
    · exact guarantees_of_onFiles hfinalizing.onFiles
  refine hcalls.meets.bind fun finalized _ => ?_
  cases finalized with
  | error what => exact forall_ok_error what
  | ok finalized =>
    simp only
    split
    · rintro _ ⟨⟩
      exact h
    · rintro _ ⟨⟩
      have hpath :
          TaskOver P (session.task.setMetadata (ascii "fallback_artifact_path")
            session.txn.fallbackCommit.artifactPath) :=
        h.task.setMetadata (forall_mem_of_all hP (by decide)) h.txn.artifactPath
      have hmaintenance :
          Over P (if finalized then ascii "finalized_or_pending" else ascii "finalize_failed") := by
        split
        · exact forall_mem_of_all hP (by decide)
        · exact forall_mem_of_all hP (by decide)
      exact ⟨hpath.setMetadata (forall_mem_of_all hP (by decide)) hmaintenance, h.txn, h.events⟩

theorem meets_commitTask (hP : ∀ c, isStructural c = true → P c)
    (config : FallbackCommitRuntimeConfig) (h : SessionOver P session) :
    (session.commitTask config).Meets (alphabet P) fun out => SessionOver P out.2 := by
  have hcounted : SessionOver P { session with commitAttempts := session.commitAttempts + 1 } :=
    { h with }
  have hdetail : Over P (ascii "commit_attempt") := forall_mem_of_all hP (by decide)
  have hattempt : SessionOver P session.attempt :=
    hcounted.recordEvent .commitAttempt _ over_nil over_nil hdetail
  refine (meets_selectWinnerAndCommit hP hattempt.txn).bind fun selected htxn => ?_
  obtain ⟨result, txn⟩ := selected
  have hended : SessionOver P { session.attempt with txn } := hattempt.withTxn htxn
  cases result with
  | error what => exact hended
  | ok committed =>
    have hconcluded :
        SessionOver P (({ session.attempt with txn } : TaskSession).conclude committed) := by
      cases committed with
      | true =>
        have hmarked : SessionOver P ({ session.attempt with txn } : TaskSession).markCommitted :=
          ⟨{ hended.task with }, htxn, hended.events⟩
        exact hmarked.recordEvent _ _ htxn.winnerBranchId over_nil htxn.reason
      | false =>
        have hmarked : SessionOver P ({ session.attempt with txn } : TaskSession).markAborted :=
          ⟨{ hended.task with }, htxn, hended.events⟩
        exact hmarked.recordEvent _ _ htxn.winnerBranchId over_nil htxn.reason
    refine (meets_finalize hP config hconcluded).bind fun finalized hfinalized => ?_
    cases finalized with
    | error what => exact hconcluded
    | ok ended => exact hfinalized ended rfl

/-- The texts that an operation is given. -/
def OpOver (P : Byte → Prop) : SessionOp → Prop
  | .read branchId objectId => Over P branchId ∧ Over P objectId
  | .write branchId objectId _ intent => Over P branchId ∧ Over P objectId ∧ IntentOver P intent
  | .savepoint branchId savepointId | .rollbackToSavepoint branchId savepointId =>
    Over P branchId ∧ Over P savepointId
  | .stageBranch branchId _ summary => Over P branchId ∧ Over P summary
  | .commitTask | .abortTask => True

theorem meets_perform (hP : ∀ c, isStructural c = true → P c) (config : FallbackCommitRuntimeConfig)
    (h : SessionOver P session) {op : SessionOp} (hop : OpOver P op) :
    (op.perform config session).Meets (alphabet P) (SessionOver P) := by
  cases op with
  | read branchId objectId =>
    obtain ⟨hbranch, hobject⟩ := hop
    have hread : (session.read branchId objectId).Meets (alphabet P) fun out =>
        SessionOver P out.2 :=
      (meets_txnRead h.txn branchId hobject).bind fun out hout =>
        (h.withTxn hout.2).recordEvent _ _ hbranch hobject hout.1
    exact hread.bind fun out hout => hout
  | write branchId objectId objectType intent =>
    obtain ⟨hbranch, hobject, hintent⟩ := hop
    exact (meets_txnWrite hP h.txn branchId hobject hintent objectType).bind fun txn htxn =>
      (h.withTxn htxn).recordEvent _ _ hbranch hobject hintent.payload
  | savepoint branchId savepointId =>
    exact (h.withTxn (h.txn.savepoint branchId savepointId)).recordEvent _ _ hop.1 over_nil hop.2
  | rollbackToSavepoint branchId savepointId =>
    show SessionOver P (session.rollbackToSavepoint branchId savepointId).2
    rcases session.rollbackToSavepoint_cases branchId savepointId with ⟨-, hsession⟩ | ⟨-, hsession⟩
    · rw [hsession]
      exact h
    · rw [hsession]
      exact (h.withTxn (h.txn.rollbackToSavepoint branchId savepointId)).recordEvent _ _ hop.1
        over_nil hop.2
  | stageBranch branchId score summary =>
    exact (h.withTxn (h.txn.stageBranch branchId score summary)).recordEvent _ _ hop.1
      over_nil hop.2
  | commitTask => exact (meets_commitTask hP config h).bind fun out hout => hout
  | abortTask =>
    have hmarked :
        SessionOver P ({ session with txn := session.txn.abortTask } : TaskSession).markAborted :=
      ⟨{ h.task with }, h.txn.abortTask, h.events⟩
    exact hmarked.recordEvent _ _ over_nil over_nil (forall_mem_of_all hP (by decide))

/-! ### The logs -/

theorem SessionOver.loggedTexts (h : SessionOver P session) :
    ∀ text ∈ loggedTexts session, Over P text := by
  have hobjects : ∀ {objects : List ObjectReference},
    (∀ object ∈ objects, Over P object.objectId ∧ Over P object.objectRole) →
      ∀ text ∈ objects.flatMap (fun object => [object.objectId, object.objectRole]),
          Over P text := by
    intro objects hall text htext
    obtain ⟨object, hobject, htext⟩ := List.mem_flatMap.1 htext
    rcases List.mem_pair.1 htext with rfl | rfl
    · exact (hall object hobject).1
    · exact (hall object hobject).2
  have hmetadata : ∀ text ∈ session.task.metadata.entries.flatMap (fun entry => [entry.1, entry.2]),
      Over P text := by
    intro text htext
    obtain ⟨⟨key, value⟩, hentry, htext⟩ := List.mem_flatMap.1 htext
    obtain ⟨hkey, hvalue⟩ := h.task.metadata key value (AList.mem_lookup_iff.2 hentry)
    rcases List.mem_pair.1 htext with rfl | rfl
    · exact hkey
    · exact hvalue
  have hevents :
      ∀ text ∈ session.events.flatMap (fun event => [event.branchId, event.objectId, event.detail]),
      Over P text := by
    intro text htext
    obtain ⟨event, hevent, htext⟩ := List.mem_flatMap.1 htext
    obtain ⟨hbranch, hobject, hdetail⟩ := h.events event hevent
    simp only [List.mem_cons, List.not_mem_nil, or_false] at htext
    rcases htext with rfl | rfl | rfl
    · exact hbranch
    · exact hobject
    · exact hdetail
  simp only [Experiments.loggedTexts, List.forall_mem_append, List.forall_mem_cons]
  exact ⟨⟨h.task.taskId, h.txn.txnId, h.task.workloadName, h.task.plannerId, List.forall_mem_nil _⟩,
    hobjects h.task.inputObjects, hobjects h.task.outputObjects, hmetadata, hevents⟩

theorem ReportOver.commitLogTexts (h : ReportOver P txn) :
    ∀ text ∈ commitLogTexts txn, Over P text := by
  simp only [Experiments.commitLogTexts, List.forall_mem_append, List.forall_mem_cons]
  refine ⟨⟨h.txnId, h.taskId, h.winnerBranchId, h.reason, List.forall_mem_nil _⟩,
    fun text htext => ?_⟩
  obtain ⟨entry, hentry, htext⟩ := List.mem_flatMap.1 htext
  rcases List.mem_pair.1 htext with rfl | rfl
  · exact (h.commitLog entry hentry).1
  · exact (h.commitLog entry hentry).2

/-- The sessions that submission and operations in the alphabet lead to, on whatever stores and
among whatever other writers that keep to it. -/
inductive ReachedOver (P : Byte → Prop) : TaskSession → Prop
  | submitted {config : FallbackCommitRuntimeConfig} {kind : StoreKind}
      {task : TaskContext} {plan : ExecutionPlan}
      {calls : List (Event Call World)} {session : TaskSession} : Spells P config task plan →
        (∀ e ∈ calls, StoreOver P e.before.store) →
      (submitTask config task plan).Interfered (handle kind) calls (.ok session) →
        ReachedOver P session
  | operated {config : FallbackCommitRuntimeConfig} {kind : StoreKind} {op : SessionOp}
      {calls : List (Event Call World)}
      {session session' : TaskSession} : ReachedOver P session → OpOver P op →
        (∀ e ∈ calls, StoreOver P e.before.store) →
      (op.perform config session).Interfered (handle kind) calls session' → ReachedOver P session'

theorem ReachedOver.sessionOver (hP : ∀ c, isStructural c = true → P c)
    (h : ReachedOver P session) : SessionOver P session := by
  induction h with
  | submitted hspells hothers hsubmit =>
    exact ((meets_submitTask hP hspells).interfered (alphabet_sustains P _) hsubmit hothers).1 _ rfl
  | operated _ hop hothers hperform ih =>
    exact ((meets_perform hP _ ih hop).interfered (alphabet_sustains P _) hperform hothers).1

/-- No text of the two logs of a session leaves the alphabet, and no operation makes the store
leave it. -/
theorem logs_of_reachedOver (hP : ∀ c, isStructural c = true → P c) (h : ReachedOver P session) :
    (∀ text ∈ loggedTexts session, ∀ c ∈ text, P c) ∧
      (∀ text ∈ commitLogTexts session.txn, ∀ c ∈ text, P c) ∧
      ∀ {config kind op calls session'}, OpOver P op → (∀ e ∈ calls, StoreOver P e.before.store) →
        (op.perform config session).Interfered (handle kind) calls session' → ∀ e ∈ calls,
          StoreOver P (e.after (handle kind)).store := by
  have hsession := h.sessionOver hP
  refine ⟨hsession.loggedTexts, hsession.txn.toReportOver.commitLogTexts,
    fun hop hothers hperform => ?_⟩
  exact ((meets_perform hP _ hsession hop).interfered (alphabet_sustains P _) hperform hothers).2

theorem storeOver_empty (P : Byte → Prop) : StoreOver P {} := fun _ => over_nil

/-- The task that appends to an object is spelled in printable characters. -/
theorem reachedOver_notedAppend : ReachedOver (fun c => isStructural c = true) notedAppend := by
  have hspells : Spells (fun c => isStructural c = true) {} noteTask notePlan := by
    have htask : TaskOver (fun c => isStructural c = true) noteTask :=
      ⟨by decide, by decide, by decide, by decide, by decide, by decide, fun key value h => by cases h⟩
    exact ⟨by decide, htask, by decide⟩
  have hsubmit := Program.interfered_run (h := handle .memory) (submitTask {} noteTask notePlan) {}
  have hnoted : ReachedOver (fun c => isStructural c = true) noted :=
    .submitted hspells (List.forall_mem_nil _) hsubmit
  have hop : OpOver (fun c => isStructural c = true)
      (.write (ascii "b") (ascii "k") .text (appendToK (ascii "x"))) :=
    ⟨by decide, by decide, by decide, by decide⟩
  have happend := Program.interfered_run (h := handle .memory)
    ((SessionOp.write (ascii "b") (ascii "k") .text (appendToK (ascii "x"))).perform {} noted) {}
  exact .operated hnoted hop (List.forall_mem_singleton.2 (storeOver_empty _)) happend

theorem logs_of_reachedOver_notedAppend :
    let calls := (SessionOp.commitTask.perform {} notedAppend).trace (handle .memory) {}
    (∀ text ∈ commitLogTexts notedAppend.txn, ∀ c ∈ text, isStructural c = true) ∧
      ∀ e ∈ calls, StoreOver (fun c => isStructural c = true) (e.after (handle .memory)).store := by
  intro calls
  obtain ⟨-, hcommitLog, hkept⟩ := logs_of_reachedOver (fun _ h => h) reachedOver_notedAppend
  have hcommit :=
      Program.interfered_run (h := handle .memory) (SessionOp.commitTask.perform {} notedAppend) {}
  have hbefore : calls.map (·.before.store) = List.replicate 3 {} := rfl
  refine ⟨hcommitLog, @hkept _ _ .commitTask _ _ trivial (fun e he => ?_) hcommit⟩
  have hempty : e.before.store = {} := List.eq_of_mem_replicate (hbefore ▸ List.mem_map_of_mem he)
  exact hempty ▸ storeOver_empty _

end DataAgentSystem.Experiments
