import DataAgentSystem.Runtime.TaskRuntime
import DataAgentSystem.Storage.Unreliable

/-! Which calls take an artifact away once its transaction has ended. They concern the
artifact itself and the place the archive has for it, and no other file. -/

namespace DataAgentSystem.Runtime

open Text Storage Interaction AgentTxn

namespace FallbackCommitRuntimeConfig

/-- Where the archive keeps an artifact. -/
def archiveTarget (config : FallbackCommitRuntimeConfig) (artifactPath : Bytes) : Bytes :=
  joinPath config.archiveDir (filename artifactPath)

def usesArchivePolicy (config : FallbackCommitRuntimeConfig) : Bool :=
  config.committedArtifactPolicy = .archive ∨ config.rolledBackArtifactPolicy = .archive

end FallbackCommitRuntimeConfig

/-- The calls that take an artifact away. -/
inductive FinalizingCall (config : FallbackCommitRuntimeConfig) (artifactPath : Bytes) : Call → Prop
  | remove : FinalizingCall config artifactPath (.removeFile artifactPath)
  | createArchive : FinalizingCall config artifactPath (.createDirectories config.archiveDir)
  | removeTarget : config.usesArchivePolicy = true → config.archiveDir ≠ [] →
      FinalizingCall config artifactPath (.removeFile (config.archiveTarget artifactPath))
  | archive : config.usesArchivePolicy = true → config.archiveDir ≠ [] →
      FinalizingCall config artifactPath
        (.renameFile artifactPath (config.archiveTarget artifactPath))

theorem FinalizingCall.onFiles {config : FallbackCommitRuntimeConfig}
    {artifactPath : Bytes} {op : Call} (h : FinalizingCall config artifactPath op) :
    op.onFiles = true := by
  cases h <;> rfl

/-- A file is safe if it is neither the artifact nor where the archive would put it. -/
theorem FinalizingCall.notMem_touched {config : FallbackCommitRuntimeConfig}
    {artifactPath path : Bytes} {op : Call} (h : FinalizingCall config artifactPath op)
    (hne : path ≠ artifactPath)
    (harchive : config.usesArchivePolicy = true → config.archiveDir ≠ [] →
      path ≠ config.archiveTarget artifactPath) :
    path ∉ op.touched := by
  cases h with
  | remove => simpa [Call.touched] using hne
  | createArchive => exact List.not_mem_nil
  | removeTarget hpolicy hdir => simpa [Call.touched] using harchive hpolicy hdir
  | archive hpolicy hdir => simpa [Call.touched] using ⟨hne, harchive hpolicy hdir⟩

theorem only_ensureDirectory (path : Bytes) :
    (ensureDirectory path).Only fun op => op = .createDirectories path := by
  unfold ensureDirectory
  split
  next => trivial
  next =>
    refine ⟨rfl, fun created => ?_⟩
    cases created <;> trivial

theorem only_applyTerminalFallbackArtifactPolicy (config : FallbackCommitRuntimeConfig)
    (artifactPath : Bytes) {policy : FallbackTerminalArtifactPolicy}
    (hpolicy : policy = .archive → config.usesArchivePolicy = true) :
    (applyTerminalFallbackArtifactPolicy config artifactPath policy).Only
      (FinalizingCall config artifactPath) := by
  cases policy with
  | keep => trivial
  | delete => exact ⟨.remove, fun removed => trivial⟩
  | archive =>
    rw [applyTerminalFallbackArtifactPolicy]
    split
    next => trivial
    next hdir =>
      have hensure : (ensureDirectory config.archiveDir).Only
          (FinalizingCall config artifactPath) := by
        apply (only_ensureDirectory config.archiveDir).mono
        rintro op rfl
        exact .createArchive
      apply Program.only_bind hensure
      rintro (what | _)
      · trivial
      · exact ⟨.removeTarget (hpolicy rfl) hdir, fun removed =>
          ⟨.archive (hpolicy rfl) hdir, fun renamed => trivial⟩⟩

/-- The policy for a phase, if it is to archive, is one of the configured ones. -/
theorem usesArchivePolicy_of_policy {config : FallbackCommitRuntimeConfig}
    {phase : FallbackCommitPhase}
    (h : (if phase = .committed then config.committedArtifactPolicy
      else config.rolledBackArtifactPolicy) = .archive) :
    config.usesArchivePolicy = true := by
  rw [FallbackCommitRuntimeConfig.usesArchivePolicy, decide_eq_true_eq]
  split at h
  next => exact .inl h
  next => exact .inr h

theorem only_tryParseFallbackArtifact (artifactPath : Bytes) :
    (tryParseFallbackArtifact artifactPath).Only fun op => op.reads = true ∧ op.onFiles = true := by
  refine ⟨⟨rfl, rfl⟩, fun found => ?_⟩
  cases found with
  | false => trivial
  | true => exact ⟨⟨rfl, rfl⟩, fun contents => trivial⟩

/-- Finalizing looks at the artifact of the transaction and takes at most that one away. -/
theorem only_finalizeFallbackCommitArtifact (config : FallbackCommitRuntimeConfig)
    (txn : AgentTxnContext) :
    (finalizeFallbackCommitArtifact config txn).Only fun op =>
      (op.reads = true ∧ op.onFiles = true) ∨
          FinalizingCall config txn.fallbackCommit.artifactPath op := by
  rw [finalizeFallbackCommitArtifact]
  split
  next => trivial
  next =>
    apply Program.only_bind ((only_tryParseFallbackArtifact _).mono fun _ => .inl)
    rintro (_ | artifact)
    · trivial
    · simp only
      split
      next =>
        apply (only_applyTerminalFallbackArtifactPolicy config _ usesArchivePolicy_of_policy).mono
        exact fun _ => .inr
      next => trivial

theorem only_finalize (config : FallbackCommitRuntimeConfig) (session : TaskSession) :
    (session.finalize config).Only fun op =>
      (op.reads = true ∧ op.onFiles = true) ∨
          FinalizingCall config session.txn.fallbackCommit.artifactPath op := by
  apply Program.only_bind (only_finalizeFallbackCommitArtifact config session.txn)
  rintro (what | finalized)
  · trivial
  · simp only
    split <;> trivial

theorem only_finalize_onFiles (config : FallbackCommitRuntimeConfig) (session : TaskSession) :
    (session.finalize config).Only fun op => op.onFiles = true := by
  apply (only_finalize config session).mono
  rintro op (⟨-, hfiles⟩ | hfinalizing)
  · exact hfiles
  · exact hfinalizing.onFiles

end DataAgentSystem.Runtime
