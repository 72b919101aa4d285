import DataAgentSystem.Runtime.TaskWork

/-! What an operation leaves of its session, on whatever store it is performed and
whoever else writes. It works on branches and records that or not; or it attempts a
commit, which throws, or concludes the task and notes what became of its artifact; or
it aborts. What holds of sessions in any run is read off these cases. -/

namespace DataAgentSystem.Runtime

open Text Intent Cache Branch Storage Interaction AgentTxn

/-- The session with what a commit notes about its artifact. -/
def TaskSession.noted (session : TaskSession) (artifactPath maintenance : Bytes) : TaskSession :=
  (session.setMetadata (ascii "fallback_artifact_path") artifactPath).setMetadata
    (ascii "fallback_artifact_maintenance")
    maintenance

inductive Performed (session : TaskSession) : TaskSession → Prop
  | unrecorded {txn : AgentTxnContext} : AgentTxnContext.SameBesideBranches session.txn txn →
      Performed session { session with txn }
  | recorded {txn : AgentTxnContext} {type : TaskEventType} (branchId objectId detail : Bytes)
      (n : Int64) :
      AgentTxnContext.SameBesideBranches session.txn txn → type.ofWork = true →
      Performed session ({ session with txn }.recordEvent type branchId objectId detail n)
  | thrown {txn : AgentTxnContext} : txn.status = session.txn.status →
      Performed session { session.attempt with txn }
  | concluded {txn : AgentTxnContext} {committed : Bool} :
      txn.status = AgentTxnManager.statusAfter session.txn (.ok committed) →
      Performed session ({ session.attempt with txn }.conclude committed)
  | noted {txn : AgentTxnContext} {committed : Bool} (artifactPath maintenance : Bytes) :
      txn.status = AgentTxnManager.statusAfter session.txn (.ok committed) →
      Performed session
        (({ session.attempt with txn }.conclude committed).noted artifactPath maintenance)
  | aborted : Performed session session.abortTask

/-- One operation, for some runtime and store and among other writers. -/
def OperationStep (session session' : TaskSession) : Prop :=
  ∃ config kind op, ∃ calls : List (Event Call World),
    (SessionOp.perform config session op).Interfered (handle kind) calls session'

/-- Operations one after the other. -/
abbrev Operated : TaskSession → TaskSession → Prop := Relation.ReflTransGen OperationStep

variable {config : FallbackCommitRuntimeConfig} {session session' : TaskSession}

/-- The end of a commit notes something or not. -/
theorem returns_finalize_noted (config : FallbackCommitRuntimeConfig) (session : TaskSession) :
    (session.finalize config).Returns fun r => ∀ ended, r = .ok ended →
      ended = session ∨ ∃ artifactPath maintenance,
        ended = session.noted artifactPath maintenance := by
  refine (Program.returns_true _).bind fun finalized _ => ?_
  cases finalized with
  | error what => exact nofun
  | ok finalized =>
    simp only
    split
    · rintro _ ⟨⟩
      exact .inl rfl
    · rintro _ ⟨⟩
      exact .inr ⟨_, _, rfl⟩

theorem returns_commitTask (config : FallbackCommitRuntimeConfig) (session : TaskSession) :
    (session.commitTask config).Returns fun out => Performed session out.2 := by
  apply (AgentTxnManager.returns_selectWinnerAndCommit session.attempt.txn).bind
  rintro ⟨result, txn⟩ ⟨hstatus, -⟩
  cases result with
  | error what => exact .thrown hstatus
  | ok committed =>
    have hended : txn.status = AgentTxnManager.statusAfter session.txn (.ok committed) := by
      cases committed <;> exact hstatus
    refine (returns_finalize_noted config _).bind fun finalized hfinalized => ?_
    cases finalized with
    | error what => exact .concluded hended
    | ok ended =>
      rcases hfinalized ended rfl with rfl | ⟨artifactPath, maintenance, rfl⟩
      · exact .concluded hended
      · exact .noted artifactPath maintenance hended

/-- Whatever its calls answer, an operation leaves the session in one of these ways. -/
theorem returns_sessionOp (config : FallbackCommitRuntimeConfig)
    (session : TaskSession) (op : SessionOp) :
    (op.perform config session).Returns (Performed session) := by
  cases op with
  | read branchId objectId =>
    have hread : (session.read branchId objectId).Returns fun out => Performed session out.2 := by
      apply (AgentTxnContext.returns_read session.txn branchId objectId).bind
      rintro ⟨result, txn⟩ hsame
      exact .recorded branchId objectId result.value result.version.toInt64 hsame rfl
    exact hread.bind fun out hout => hout
  | write branchId objectId objectType intent =>
    apply (AgentTxnContext.returns_write session.txn branchId objectId objectType intent).bind
    intro txn hsame
    exact .recorded branchId objectId intent.payload (intentTypeValue intent.intentType) hsame rfl
  | savepoint branchId savepointId =>
    exact .recorded branchId [] savepointId 0
      (AgentTxnContext.sameBesideBranches_savepoint session.txn branchId savepointId) rfl
  | rollbackToSavepoint branchId savepointId =>
    have hsame := AgentTxnContext.sameBesideBranches_rollbackToSavepoint
      session.txn branchId savepointId
    show Performed session (session.rollbackToSavepoint branchId savepointId).2
    rcases session.rollbackToSavepoint_cases branchId savepointId with ⟨-, hsession⟩ | ⟨-, hsession⟩
    · rw [hsession]
      exact .unrecorded (AgentTxnContext.SameBesideBranches.refl session.txn)
    · rw [hsession]
      exact .recorded branchId [] savepointId 0 hsame rfl
  | stageBranch branchId score summary =>
    exact .recorded branchId [] summary score.toInt64
      (AgentTxnContext.sameBesideBranches_stageBranch session.txn branchId score summary) rfl
  | commitTask => exact (returns_commitTask config session).bind fun out hout => hout
  | abortTask => exact .aborted

theorem OperationStep.performed (h : OperationStep session session') :
    Performed session session' := by
  obtain ⟨config, kind, op, calls, hop⟩ := h
  exact (returns_sessionOp config session op).interfered hop

end DataAgentSystem.Runtime
