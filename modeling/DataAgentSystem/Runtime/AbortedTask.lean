import DataAgentSystem.AgentTxn.UnreliableCommit
import DataAgentSystem.Runtime.ArtifactFinalization

/-! A task whose commit returns false without a crash, in an unreliable world. The
runtime then reports an aborted transaction, but what is on disk is decided by the
commit alone: the artifact may still go forward, and then a later recovery commits it. -/

namespace DataAgentSystem.Runtime

open Text Storage Interaction AgentTxn

variable {kind : StoreKind} {path : Bytes} {x : World × List (Answer Call Call.Resp)}

/-! ### Finalizing the artifact -/

/-- Nothing of the commit is on disk that still goes forward. -/
def Quiet (path : Bytes) (y : World × List (Answer Call Call.Resp)) : Prop :=
  Unwritten path y.2 ∨ ∃ entries, Built entries ∧ Retreating path entries y

theorem Quiet.aborted {y : World × List (Answer Call Call.Resp)} (h : Quiet path y) :
    Aborted path y :=
  h.imp_right fun ⟨entries, hb, hretreating⟩ => ⟨entries, hb, .inr hretreating⟩

theorem Quiet.finalizing {config : FallbackCommitRuntimeConfig} {op : Call} {r : op.Resp}
    {y : World × List (Answer Call Call.Resp)} (h : Quiet path x)
    (hop : FinalizingCall config path op) (henv : (unreliable kind path).remembering op x r y) :
    Quiet path y := by
  have hne : ∀ contents, op ≠ .replaceFile path contents := by
    rintro contents rfl
    cases hop
  obtain ⟨hanswer, hlog⟩ := henv
  rcases h with hunwritten | ⟨entries, hb, hretreating⟩
  · left
    rw [hlog]
    exact hunwritten.keep hne
  · refine .inr ⟨entries, hb, ?_, ?_, ?_⟩
    · rw [hlog]
      exact hretreating.toWrote.keep hne
    · rw [hlog]
      exact hretreating.back.append _
    · have hgone : y.1.files.lookup path = none ∨ SameFile path x.1 y.1 := by
        cases hop with
        | remove => exact unreliable_removeFile hanswer
        | createArchive => exact .inr (sameFile_of_notMem_touched hanswer List.not_mem_nil)
        | removeTarget =>
          by_cases htarget : path ∈ (Call.removeFile (config.archiveTarget path)).touched
          · rw [← List.mem_singleton.1 htarget] at hanswer
            exact unreliable_removeFile hanswer
          · exact .inr (sameFile_of_notMem_touched hanswer htarget)
        | archive => exact unreliable_renameFile hanswer
      exact hgone.elim goesBack_of_missing hretreating.backward.sameFile

/-- Only what does not go forward is read as terminal. -/
theorem quiet_of_terminal (h : Aborted path x) {a : FallbackCommitArtifact}
    (hparse : parseFallbackCommitArtifact (x.1.files.lookup path) {} = (true, a))
    (hterminal : isTerminalFallbackPhase a.phase = true) : Quiet path x := by
  rcases h with hunwritten | ⟨entries, hb, hadvancing | hretreating⟩
  · exact .inl hunwritten
  · obtain ⟨b, hdisk, -, -, hphase⟩ := hadvancing.forward
    rw [show x.1.files.lookup path = some b.text from hdisk,
      parseFallbackCommitArtifact_recounted] at hparse
    have hsame : a.phase = b.phase :=
      (congrArg FallbackCommitArtifact.phase (Prod.mk.inj hparse).2).symm
    rw [isTerminalFallbackPhase, decide_eq_true_eq, hsame] at hterminal
    rcases hphase with hphase | hphase <;> simp [hphase] at hterminal
  · exact .inr ⟨entries, hb, hretreating⟩

theorem withstands_tryParse (h : Aborted path x) :
    (tryParseFallbackArtifact path).Withstands (unreliable kind path).remembering
      (fun _ => True) x fun parsed y =>
      Aborted path y ∧ ∀ a, parsed = some a → isTerminalFallbackPhase a.phase = true →
          Quiet path y := by
  refine ⟨trivial, fun found y henv => ?_⟩
  have hy := h.reads rfl henv
  cases found with
  | false => exact ⟨trivial, hy, nofun⟩
  | true =>
    refine ⟨trivial, fun contents z henv => ?_⟩
    have hz := hy.reads rfl henv
    obtain ⟨hcontents, -⟩ := unreliable_of_reads rfl henv.1
    have hfile : contents = z.1.files.lookup path := hcontents
    subst hfile
    refine ⟨trivial, hz, fun a ha hterminal => ?_⟩
    have hread : (if (parseFallbackCommitArtifact (z.1.files.lookup path) {}).1 = true then
        some (parseFallbackCommitArtifact (z.1.files.lookup path) {}).2 else none) = some a := ha
    split at hread
    next haccepted =>
      exact quiet_of_terminal hz (Prod.ext haccepted (Option.some.inj hread)) hterminal
    next => cases hread

theorem withstands_finalizeFallbackCommitArtifact {config : FallbackCommitRuntimeConfig}
    {txn : AgentTxnContext} (hpath : txn.fallbackCommit.artifactPath = path)
    (hne : path ≠ []) (h : Aborted path x) :
    (finalizeFallbackCommitArtifact config txn).Withstands (unreliable kind path).remembering
      (fun _ => True) x
      fun _ y => Aborted path y := by
  subst hpath
  rw [finalizeFallbackCommitArtifact, if_neg hne, Program.withstands_bind]
  apply (withstands_tryParse h).mono
  rintro (_ | a) y - ⟨hy, hquiet⟩
  · exact ⟨trivial, hy⟩
  · simp only
    split
    next hterminal =>
      have hkept : (applyTerminalFallbackArtifactPolicy config txn.fallbackCommit.artifactPath
          (if a.phase = .committed then config.committedArtifactPolicy
            else config.rolledBackArtifactPolicy)).Withstands
          (unreliable kind txn.fallbackCommit.artifactPath).remembering
            (Quiet txn.fallbackCommit.artifactPath) y
            fun _ _ => True := by
        apply (only_applyTerminalFallbackArtifactPolicy config
          _ usesArchivePolicy_of_policy).withstands _
          (hquiet a rfl hterminal)
        exact fun op hop z r z' henv hz => hz.finalizing hop henv
      exact (hkept.mono fun _ _ hz _ => hz.aborted).weaken fun _ _ => trivial
    next => exact ⟨trivial, hy⟩

theorem withstands_finalize {config : FallbackCommitRuntimeConfig} {session : TaskSession}
    (hpath : session.txn.fallbackCommit.artifactPath = path)
    (hne : path ≠ []) (h : Aborted path x) :
    (session.finalize config).Withstands (unreliable kind path).remembering (fun _ => True) x
      fun _ y => Aborted path y := by
  unfold TaskSession.finalize
  rw [Program.withstands_bind]
  apply (withstands_finalizeFallbackCommitArtifact hpath hne h).mono
  rintro (what | finalized) y - hy
  · exact ⟨trivial, hy⟩
  · simp only
    split <;> exact ⟨trivial, hy⟩

/-! ### The task -/

/-- A commit that returns false leaves things as an aborted commit does. -/
theorem withstands_commitTask {config : FallbackCommitRuntimeConfig} {session : TaskSession}
    (hpath : session.txn.fallbackCommit.artifactPath = path) (hne : path ≠ [])
    (h : Unwritten path x.2) :
    (session.commitTask config).Withstands (unreliable .nonBatchMemory path).remembering
      (fun _ => True) x
      fun out y => out.1 = .ok false → Aborted path y := by
  have hattempt : session.attempt.txn.fallbackCommit.artifactPath = path := hpath
  unfold TaskSession.commitTask
  rw [Program.withstands_bind]
  apply (withstands_selectWinnerAndCommit hattempt hne h).mono
  rintro ⟨_ | committed, txn⟩ y - ⟨hpath', hout⟩
  · exact ⟨trivial, nofun⟩
  · simp only
    cases committed with
    | true =>
      rw [Program.withstands_bind]
      apply (Program.withstands_true _ y).mono
      rintro (what | ended) z - -
      · exact ⟨trivial, nofun⟩
      · exact ⟨trivial, nofun⟩
    | false =>
      rw [Program.withstands_bind]
      have hconcluded :
          (TaskSession.conclude { session.attempt with txn }
            false).txn.fallbackCommit.artifactPath = path :=
        hpath'
      apply (withstands_finalize hconcluded hne (hout rfl)).mono
      rintro (what | ended) z - hz
      · exact ⟨trivial, nofun⟩
      · exact ⟨trivial, fun _ => hz⟩

theorem aborted_of_reaches {config : FallbackCommitRuntimeConfig} {session session' : TaskSession}
    {w w' : World} {answers : List (Answer Call Call.Resp)}
    (hpath : session.txn.fallbackCommit.artifactPath ≠ [])
    (hrun : (session.commitTask config).Reaches
      (unreliable .nonBatchMemory session.txn.fallbackCommit.artifactPath) w
        answers (.ret (.ok false, session')) w') :
    Aborted session.txn.fallbackCommit.artifactPath (w', answers) := by
  have hstart : Unwritten session.txn.fallbackCommit.artifactPath
      (w, ([] : List (Answer Call Call.Resp))).2 :=
    fun a ha => absurd ha List.not_mem_nil
  exact (withstands_commitTask rfl hpath hstart).ends (hrun.remembering []) rfl

/-- A commit that returns false is never committed later, exactly if its prepared
artifact never got on disk or a rolling back one did. -/
theorem commitTask_abort_stands_iff (config : FallbackCommitRuntimeConfig)
    (session session' : TaskSession) (w w' : World) (answers : List (Answer Call Call.Resp))
    (hpath : session.txn.fallbackCommit.artifactPath ≠ [])
    (hrun : (session.commitTask config).Reaches
      (unreliable .nonBatchMemory session.txn.fallbackCommit.artifactPath) w
        answers (.ret (.ok false, session')) w') :
    (∀ a, Persisted session.txn.fallbackCommit.artifactPath a answers →
        NeverCommitted .nonBatchMemory session.txn.fallbackCommit.artifactPath a.entries w') ↔
      (PersistedIn session.txn.fallbackCommit.artifactPath [.prepared] answers →
        PersistedIn session.txn.fallbackCommit.artifactPath [.rollingBack, .rolledBack]
          answers) := by
  exact (aborted_of_reaches hpath hrun).neverCommitted_iff

/-- A task that appends to an object of the store and has an artifact path. -/
def appendingTask (w : World) : TaskSession :=
  (((TaskSession.createBranch { txn := { AgentTxnManager.begin_ (ascii "txn:1") (ascii "1") with
      fallbackCommit := { artifactPath := ascii "log" } } }
    { branchId := ascii "b", candidateId := ascii "c", rationale := [] }).write
      (ascii "b") (ascii "k") .generic
    { objectId := ascii "k", intentType := .append, payload := ascii "x" }).run
      (handle .nonBatchMemory) w).1

/-- Its commit, as far as the script answers it. -/
def appendingCommit (script : List (Handler Call Call.Resp World)) (w : World) :
    List (Answer Call Call.Resp) × Prog (Except Bytes Bool × TaskSession) × World :=
  ((appendingTask w).commitTask {}).follow script w

/-- A missing object is not created by a crash-safe commit, which takes itself back. -/
def createsMissing := appendingCommit (List.replicate 11 (handle .nonBatchMemory)) {}

/-- The object is written, but not the progress of the artifact. -/
def losesProgress :=
  appendingCommit (List.replicate 6 (handle .nonBatchMemory) ++ refuse .nonBatchMemory ::
    List.replicate 2 (handle .nonBatchMemory))
    { store := MemoryKVStore.write {} (ascii "k") (ascii "a") }

theorem commitTask_abort_stands_createsMissing :
    (∀ a, Persisted (ascii "log") a createsMissing.1 →
        NeverCommitted .nonBatchMemory (ascii "log") a.entries createsMissing.2.2) ↔
      (PersistedIn (ascii "log") [.prepared] createsMissing.1 →
        PersistedIn (ascii "log") [.rollingBack, .rolledBack] createsMissing.1) := by
  have hscript : ∀ h ∈ List.replicate 11 (handle .nonBatchMemory),
      (unreliable .nonBatchMemory (ascii "log")).Allows h := by
    intro h hh
    rw [List.eq_of_mem_replicate hh]
    exact allows_undisturbed
  have hrun := Program.reaches_follow _ hscript ((appendingTask {}).commitTask {}) {}
  exact commitTask_abort_stands_iff {} (appendingTask {}) _ {} _ _ (by decide) hrun

theorem reaches_losesProgress :
    ((appendingTask { store := MemoryKVStore.write {} (ascii "k") (ascii "a") }).commitTask
      {}).Reaches
      (unreliable .nonBatchMemory (ascii "log"))
        { store := MemoryKVStore.write {} (ascii "k") (ascii "a") }
      losesProgress.1 losesProgress.2.1 losesProgress.2.2 := by
  apply Program.reaches_follow
  intro h hh
  rcases List.mem_append.1 hh with hh | hh
  · rw [List.eq_of_mem_replicate hh]
    exact allows_undisturbed
  · rcases List.mem_cons.1 hh with rfl | hh
    · exact allows_refuse
    · rw [List.eq_of_mem_replicate hh]
      exact allows_undisturbed

/-- The artifact that is left. -/
def leftPrepared : FallbackCommitArtifact where
  txnId := ascii "txn:1"
  taskId := ascii "1"
  entries := [
    { key := ascii "k", expectedVersion := 1, targetValue := ascii "ax", previousValue := ascii "a",
      previousVersion := 1,
      previousExists := true }]

theorem persisted_losesProgress (a : FallbackCommitArtifact) :
    Persisted (ascii "log") a losesProgress.1 ↔ a.text = leftPrepared.text := by
  have hanswers : losesProgress.1 = [⟨.get (ascii "k"), ⟨ascii "a", 1, true⟩⟩,
      ⟨.supportsAtomicBatchConditionalWrite, false⟩, ⟨.get (ascii "k"), ⟨ascii "a", 1, true⟩⟩,
      ⟨.replaceFile (ascii "log") leftPrepared.text, true⟩,
      ⟨.get (ascii "k"), ⟨ascii "a", 1, true⟩⟩,
      ⟨.putIfVersion (ascii "k") 1 (ascii "ax"), true⟩,
      ⟨.replaceFile (ascii "log") { leftPrepared with appliedCount := 1, phase := .applying }.text,
        false⟩,
      ⟨.fileExists (ascii "log"), true⟩, ⟨.readFile (ascii "log"), some leftPrepared.text⟩] := rfl
  rw [Persisted, hanswers]
  simp [Answer.mk.injEq]

/-- The task is told that it is aborted, and recovery can still commit it. -/
theorem commitTask_abort_not_stands :
    ¬∀ (config : FallbackCommitRuntimeConfig) (session session' : TaskSession) (w w' : World)
      (answers : List (Answer Call Call.Resp)), session.txn.fallbackCommit.artifactPath ≠ [] →
      session.txn.fallbackCommit.simulateCrashAfterApplyCount = 0 →
      (session.commitTask config).Reaches
        (unreliable .nonBatchMemory session.txn.fallbackCommit.artifactPath) w
        answers (.ret (.ok false, session')) w' →
      ∀ a, Persisted session.txn.fallbackCommit.artifactPath a answers →
        NeverCommitted .nonBatchMemory session.txn.fallbackCommit.artifactPath a.entries w' := by
  intro h
  have hpath : (appendingTask { store := MemoryKVStore.write {} (ascii "k") (ascii "a")
    }).txn.fallbackCommit.artifactPath ≠ [] := by decide
  have hnever := h {} _ _ _ _ _ hpath (by decide) reaches_losesProgress
  have haborted := aborted_of_reaches hpath reaches_losesProgress
  obtain ⟨a, ha, hphase⟩ := haborted.neverCommitted_iff.1 hnever
    ⟨leftPrepared, (persisted_losesProgress _).2 rfl, by decide⟩
  rw [FallbackCommitArtifact.phase_eq_of_text_eq ((persisted_losesProgress a).1 ha)] at hphase
  exact absurd hphase (by decide)

end DataAgentSystem.Runtime
