import DataAgentSystem.AgentTxn.CommitFootprint
import DataAgentSystem.AgentTxn.UnreliableCommit
import DataAgentSystem.Runtime.StartupMaintenance
import DataAgentSystem.Runtime.TaskContinuation

/-! What becomes of an artifact whose commit was cut off, over any run of the runtimes
that share its directory. The artifact is found again by its path alone, and a commit
that prepares its own artifact there does not look at what it replaces. -/

namespace DataAgentSystem.Runtime

open Text Intent Storage Interaction AgentTxn AgentTxnManager

/-! ### Runs -/

/-- What a runtime can be asked to do about commits. The names and the listing are what
the artifact directory shows at that time. -/
inductive RuntimeOp where
  | construct (names : List Bytes) (listing : Option (List Bytes))
  | recoverPending (names : List Bytes) (listing : Option (List Bytes))
  | sweepTerminal (listing : Option (List Bytes))
  | submitTask (task : TaskContext) (plan : ExecutionPlan)
  | commitTask (session : TaskSession)
  | executeRecovery (execution : TaskRecoveryExecution)

/-- A step of the runtime with the configuration. -/
structure RuntimeStep where
  config : FallbackCommitRuntimeConfig
  op : RuntimeOp

namespace RuntimeStep

def perform (step : RuntimeStep) : Prog Unit :=
  match step.op with
  | .construct names listing => do
    let _ ← initializeFallbackCommitRuntime step.config names listing
  | .recoverPending names listing => do
    let _ ← recoverPendingFallbackCommits step.config names listing
  | .sweepTerminal listing => do
    let _ ← sweepTerminalFallbackArtifacts step.config listing
  | .submitTask task plan => do
    let _ ← Runtime.submitTask step.config task plan
  | .commitTask session => do
    let _ ← session.commitTask step.config
  | .executeRecovery execution => do
    let _ ← executeRecoveryExecution step.config execution

/-- The step recovers what is pending. -/
def recovers (step : RuntimeStep) : Bool :=
  match step.op with
  | .construct _ _ => step.config.autoRecoverOnStartup
  | .recoverPending _ _ => true
  | _ => false

/-- The session that the step commits, if it is to commit one. -/
def commits (step : RuntimeStep) : Option TaskSession :=
  match step.op with
  | .commitTask session => some session
  | .executeRecovery execution =>
    if execution.commandType = .revalidateCommit then some execution.session else none
  | _ => none

/-- The artifacts that the step takes away if they are terminal. -/
def finalizes (step : RuntimeStep) : List Bytes :=
  match step.op with
  | .construct _ listing | .recoverPending _ listing | .sweepTerminal listing =>
    (listing.getD []).map (joinPath step.config.artifactDir)
  | _ => step.commits.toList.map (·.txn.fallbackCommit.artifactPath)

end RuntimeStep

/-- A step as it was taken, perhaps not to its end. -/
structure TakenStep where
  step : RuntimeStep
  before : World
  answers : List (Answer Call Call.Resp)

/-- Steps one after the other, each of which may be cut off anywhere. Between the steps
anything may happen but to the file at the path. -/
inductive ProcessRuns (path : Bytes) : World → List TakenStep → World → Prop
  | start (w : World) : ProcessRuns path w [] w
  | step {w₀ w before w' : World} {steps : List TakenStep} {step : RuntimeStep}
      {answers : List (Answer Call Call.Resp)}
      {rest : Prog Unit} : ProcessRuns path w₀ steps w → SameFile path w before →
      step.perform.Reaches (alone .nonBatchMemory) before answers rest w' →
      ProcessRuns path w₀ (steps ++ [⟨step, before, answers⟩]) w'

/-- The file holds the entries, and they wait for their commit to be concluded. -/
def Pending (path : Bytes) (entries : List FallbackCommitEntry) (w : World) : Prop :=
  ∃ a, OnDisk path a w ∧ a.entries = entries ∧ isTerminalFallbackPhase a.phase = false

/-- The entries were put on disk as those of a commit that is concluded. -/
def Concluded (path : Bytes) (entries : List FallbackCommitEntry)
    (answers : List (Answer Call Call.Resp)) : Prop :=
  ∃ a, Persisted path a answers ∧ a.entries = entries ∧ isTerminalFallbackPhase a.phase = true

/-- The step, taken in the world, leaves the file at the path to those it belongs to: it
makes no commit that prepares an artifact there, and the archive puts none there. -/
structure RuntimeStep.Spares (step : RuntimeStep) (path : Bytes) (w : World) : Prop where
  commits : ∀ session ∈ step.commits, session.txn.fallbackCommit.artifactPath = path →
    ¬Prepares session.txn w.store
  archives : ∀ p ∈ step.finalizes, p ≠ path → step.config.usesArchivePolicy = true →
    step.config.archiveDir ≠ [] →
    path ≠ step.config.archiveTarget p

variable {kind : StoreKind} {path : Bytes} {entries : List FallbackCommitEntry}
  {config : FallbackCommitRuntimeConfig} {w w' : World}

/-! ### Steps that do not recover -/

theorem Pending.sameFile (h : Pending path entries w) (hsame : SameFile path w w') :
    Pending path entries w' := by
  obtain ⟨a, hdisk, hrest⟩ := h
  exact ⟨a, Eq.trans hsame hdisk, hrest⟩

/-- What does not touch the file leaves it pending. -/
theorem Pending.withstands {α : Type} {p : Prog α} (h : Pending path entries w)
    (hp : p.Only fun op => path ∉ op.touched) :
    p.Withstands (alone kind) (Pending path entries) w fun _ _ => True :=
  hp.withstands (fun _ hop _ _ _ henv hw =>
    hw.sameFile (sameFile_of_notMem_touched (unreliable_of_alone henv) hop)) h

/-- Looking touches nothing. -/
theorem notMem_touched_of_reads {op : Call} (h : op.reads = true) : path ∉ op.touched := by
  rw [Call.touched_of_reads h]
  exact List.not_mem_nil

/-- Reading the pending artifact. -/
theorem Pending.parsed (h : Pending path entries w) {accepted : Bool}
    {artifact : FallbackCommitArtifact}
    (hparse : parseFallbackCommitArtifact (w.files.lookup path) {} = (accepted, artifact)) :
    artifact.entries = entries ∧ isTerminalFallbackPhase artifact.phase = false := by
  obtain ⟨a, hdisk, hentries, hphase⟩ := h
  rw [show w.files.lookup path = some a.text from hdisk,
    parseFallbackCommitArtifact_recounted] at hparse
  obtain ⟨-, rfl⟩ := Prod.mk.inj hparse
  exact ⟨hentries, hphase⟩

/-- Who reads the file reads the pending artifact. -/
theorem Pending.read (h : Pending path entries w) {contents : Option Bytes}
    (henv : alone kind (.readFile path) w contents w') :
    Pending path entries w' ∧ contents = w'.files.lookup path := by
  obtain ⟨hcontents, hsame⟩ := @unreliable_of_reads _ path _ _ _ rfl _ (unreliable_of_alone henv)
  exact ⟨h.sameFile hsame, hcontents⟩

theorem Pending.sweepFrom {names : List Bytes} {result : FallbackArtifactMaintenanceResult}
    (h : Pending path entries w)
    (harchives : ∀ name ∈ names, joinPath config.artifactDir name ≠ path →
      config.usesArchivePolicy = true →
        config.archiveDir ≠ [] → path ≠ config.archiveTarget (joinPath config.artifactDir name)) :
    (sweepFrom config names result).Withstands (alone kind) (Pending path entries) w fun _ _ =>
      True := by
  induction names generalizing result w with
  | nil => exact ⟨h, trivial⟩
  | cons name names ih =>
    rw [List.forall_mem_cons] at harchives
    rw [Runtime.sweepFrom]
    split
    next => exact ih h harchives.2
    next =>
      rw [Files.read_bind, Program.withstands_call]
      refine ⟨h, fun contents w' henv => ?_⟩
      generalize hparse : parseFallbackCommitArtifact contents {} = parsed
      obtain ⟨accepted, artifact⟩ := parsed
      by_cases hown : joinPath config.artifactDir name = path
      · rw [hown] at henv
        obtain ⟨hw', rfl⟩ := h.read henv
        cases accepted with
        | false => exact ⟨hw', trivial⟩
        | true =>
          simp only [(hw'.parsed hparse).2, Bool.not_false, ↓reduceIte]
          exact ih hw' harchives.2
      · have hw' : Pending path entries w' :=
          h.sameFile (sameFile_of_notMem_touched (unreliable_of_alone henv)
            (notMem_touched_of_reads rfl))
        cases accepted with
        | false => exact ⟨hw', trivial⟩
        | true =>
          simp only
          generalize hpolicy : (if artifact.phase = .committed then config.committedArtifactPolicy
            else config.rolledBackArtifactPolicy) = policy
          split
          next => exact ih hw' harchives.2
          next =>
            split
            next => exact ih hw' harchives.2
            next =>
              rw [Program.withstands_bind]
              have hcalls :=
                (only_applyTerminalFallbackArtifactPolicy config (joinPath config.artifactDir name)
                  fun harchive => usesArchivePolicy_of_policy (hpolicy.trans harchive)).mono
                    fun op hop =>
                  hop.notMem_touched (Ne.symm hown) (harchives.1 hown)
              apply (hw'.withstands hcalls).mono
              rintro (what | finalized) y hy -
              · exact ⟨hy, trivial⟩
              · cases finalized with
                | false => exact ⟨hy, trivial⟩
                | true => exact ih hy harchives.2

theorem Pending.sweepTerminal {listing : Option (List Bytes)} (h : Pending path entries w)
    (harchives : ∀ p ∈ (listing.getD []).map (joinPath config.artifactDir), p ≠ path →
      config.usesArchivePolicy = true →
      config.archiveDir ≠ [] → path ≠ config.archiveTarget p) :
    (sweepTerminalFallbackArtifacts config listing).Withstands (alone kind)
      (Pending path entries) w fun _ _ => True := by
  cases listing with
  | none =>
    rw [sweepTerminalFallbackArtifacts]
    split <;> exact ⟨h, trivial⟩
  | some names =>
    rw [sweepTerminalFallbackArtifacts]
    split
    next => exact ⟨h, trivial⟩
    next => exact h.sweepFrom fun name hname => harchives _ (List.mem_map_of_mem hname)

/-- A commit that prepares no artifact at the path leaves the one that is there. -/
theorem Pending.selectWinnerAndCommit {txn : AgentTxnContext} (h : Pending path entries w)
    (hcommits : txn.fallbackCommit.artifactPath = path → ¬Prepares txn w.store) :
    (selectWinnerAndCommit txn).Withstands (alone .nonBatchMemory)
      (Pending path entries) w fun out _ =>
      out.2.fallbackCommit = txn.fallbackCommit := by
  have hkept : (AgentTxnManager.selectWinnerAndCommit txn).Withstands
    (alone .nonBatchMemory) (Pending path entries) w
      fun _ _ => True := by
    by_cases hown : txn.fallbackCommit.artifactPath = path ∧ path ≠ []
    · obtain ⟨rfl, hne⟩ := hown
      apply (withstands_selectWinnerAndCommit_refused hne (hcommits rfl)).weaken
      rintro y rfl
      exact h
    · apply h.withstands
      apply (only_selectWinnerAndCommit txn).mono
      intro op hop htouched
      obtain ⟨hpath, hne⟩ := hop path htouched
      exact hown ⟨hpath.symm, hne⟩
  apply (hkept.returns (returns_selectWinnerAndCommit txn)).mono
  exact fun _ _ _ hout => hout.1.2

theorem Pending.tryParse (h : Pending path entries w) :
    (tryParseFallbackArtifact path).Withstands (alone kind) (Pending path entries) w fun parsed _ =>
      ∀ a, parsed = some a → isTerminalFallbackPhase a.phase = false := by
  refine ⟨h, fun found y henv => ?_⟩
  have hy : Pending path entries y :=
    h.sameFile (sameFile_of_notMem_touched (unreliable_of_alone henv) (notMem_touched_of_reads rfl))
  cases found with
  | false => exact ⟨hy, nofun⟩
  | true =>
    refine ⟨hy, fun contents z henv => ?_⟩
    obtain ⟨hz, rfl⟩ := hy.read henv
    refine ⟨hz, fun a ha => ?_⟩
    have hread : (if (parseFallbackCommitArtifact (z.files.lookup path) {}).1 = true then
        some (parseFallbackCommitArtifact (z.files.lookup path) {}).2 else none) = some a := ha
    split at hread
    next haccepted => exact (hz.parsed (Prod.ext haccepted (Option.some.inj hread))).2
    next => cases hread

/-- A commit does not take the artifact away while it is pending. -/
theorem Pending.finalizeArtifact {txn : AgentTxnContext} (h : Pending path entries w)
    (harchive : txn.fallbackCommit.artifactPath ≠ path → config.usesArchivePolicy = true →
      config.archiveDir ≠ [] → path ≠ config.archiveTarget txn.fallbackCommit.artifactPath) :
    (finalizeFallbackCommitArtifact config txn).Withstands (alone kind)
      (Pending path entries) w fun _ _ => True := by
  by_cases hown : txn.fallbackCommit.artifactPath = path
  · rw [finalizeFallbackCommitArtifact, hown]
    split
    next => exact ⟨h, trivial⟩
    next =>
      rw [Program.withstands_bind]
      apply h.tryParse.mono
      rintro (_ | a) y hy hphase
      · exact ⟨hy, trivial⟩
      · simp only [hphase a rfl, Bool.false_eq_true, ↓reduceIte]
        exact ⟨hy, trivial⟩
  · apply h.withstands
    apply (only_finalizeFallbackCommitArtifact config txn).mono
    rintro op (⟨hreads, -⟩ | hfinalizing)
    · exact notMem_touched_of_reads hreads
    · exact hfinalizing.notMem_touched (Ne.symm hown) (harchive hown)

theorem Pending.commitTask {session : TaskSession} (h : Pending path entries w)
    (hcommits : session.txn.fallbackCommit.artifactPath = path → ¬Prepares session.txn w.store)
    (harchive : session.txn.fallbackCommit.artifactPath ≠ path → config.usesArchivePolicy = true →
      config.archiveDir ≠ [] →
        path ≠ config.archiveTarget session.txn.fallbackCommit.artifactPath) :
    (session.commitTask config).Withstands (alone .nonBatchMemory)
      (Pending path entries) w fun _ _ => True := by
  unfold TaskSession.commitTask
  rw [Program.withstands_bind]
  have hattempt : session.attempt.txn = session.txn := rfl
  rw [hattempt]
  apply (h.selectWinnerAndCommit hcommits).mono
  rintro ⟨_ | committed, txn⟩ y hy hout
  · exact ⟨hy, trivial⟩
  · simp only at hout ⊢
    unfold TaskSession.finalize
    rw [Program.withstands_bind, Program.withstands_bind]
    have hsame :
      (TaskSession.conclude { session.attempt with txn }
        committed).txn.fallbackCommit.artifactPath =
        session.txn.fallbackCommit.artifactPath := by
      rw [← hout]
      cases committed <;> rfl
    apply (hy.finalizeArtifact (by rw [hsame]; exact harchive)).mono
    rintro (what | finalized) z hz -
    · exact ⟨hz, hz, trivial⟩
    · simp only
      split <;> exact ⟨hz, hz, trivial⟩

theorem only_submitTask (config : FallbackCommitRuntimeConfig)
    (task : TaskContext) (plan : ExecutionPlan) :
    (submitTask config task plan).Only fun op => op.reads = true := by
  have hconfigure : ∀ txn, (configureFallbackCommit config txn).Only fun op => op.reads = true := by
    intro txn
    rw [configureFallbackCommit]
    split
    next => trivial
    next =>
      refine ⟨rfl, fun supports => ?_⟩
      cases supports <;> trivial
  unfold submitTask
  cases task.validate with
  | error what => trivial
  | ok _ =>
    cases plan.validate with
    | error what => trivial
    | ok _ => exact Program.only_bind (hconfigure _) fun txn => trivial

theorem Pending.executeRecovery {execution : TaskRecoveryExecution} (h : Pending path entries w)
    (hcommits : execution.commandType = .revalidateCommit →
      execution.session.txn.fallbackCommit.artifactPath = path →
      ¬Prepares execution.session.txn w.store)
    (harchive : execution.commandType = .revalidateCommit →
      execution.session.txn.fallbackCommit.artifactPath ≠ path →
      config.usesArchivePolicy = true → config.archiveDir ≠ [] →
      path ≠ config.archiveTarget execution.session.txn.fallbackCommit.artifactPath) :
    (executeRecoveryExecution config execution).Withstands
      (alone .nonBatchMemory) (Pending path entries) w
      fun _ _ => True := by
  unfold executeRecoveryExecution
  cases hcommand : execution.commandType with
  | noop => exact ⟨h, trivial⟩
  | submitFreshTask =>
    simp only
    rw [Program.withstands_bind]
    apply (h.withstands ((only_submitTask config _ _).mono fun op => notMem_touched_of_reads)).mono
    rintro (what | session) y hy - <;> exact ⟨hy, trivial⟩
  | resumeBranch =>
    simp only
    split <;> exact ⟨h, trivial⟩
  | resumeFromSavepoint =>
    simp only
    split
    next => exact ⟨h, trivial⟩
    next =>
      split
      next => exact ⟨h, trivial⟩
      next => split <;> exact ⟨h, trivial⟩
  | revalidateCommit =>
    simp only
    rw [Program.withstands_bind]
    apply (@Pending.commitTask _ _ _ _ (execution.setStatus (ascii "revalidate_commit")).session h
      (hcommits hcommand)
      (harchive hcommand)).mono
    exact fun out y hy _ => ⟨hy, trivial⟩

theorem Pending.ensureDirectories (h : Pending path entries w) :
    (ensureFallbackDirectories config).Withstands (alone kind) (Pending path entries) w fun _ _ =>
      True := by
  have hensure : ∀ directory, (ensureDirectory directory).Only fun op => path ∉ op.touched := by
    intro directory
    apply (only_ensureDirectory directory).mono
    rintro op rfl
    exact List.not_mem_nil
  apply h.withstands
  refine Program.only_bind (hensure _) fun ensured => ?_
  cases ensured with
  | error what => trivial
  | ok _ =>
    simp only
    split
    next => exact hensure _
    next => trivial

/-- A runtime that does not recover leaves what is pending. -/
theorem Pending.initialized {names : List Bytes} {listing : Option (List Bytes)}
    (h : Pending path entries w) (hauto : config.autoRecoverOnStartup = false)
    (harchives : ∀ p ∈ (listing.getD []).map (joinPath config.artifactDir), p ≠ path →
      config.usesArchivePolicy = true →
      config.archiveDir ≠ [] → path ≠ config.archiveTarget p) :
    (initializeFallbackCommitRuntime config names listing).Withstands
      (alone kind) (Pending path entries) w
      fun _ _ => True := by
  rw [initializeFallbackCommitRuntime]
  split
  next => exact ⟨h, trivial⟩
  next =>
    rw [Program.withstands_bind]
    apply h.ensureDirectories.mono
    rintro (what | _) y hy -
    · exact ⟨hy, trivial⟩
    · simp only [hauto, Bool.false_eq_true, ↓reduceIte]
      rw [Program.withstands_bind]
      apply (hy.sweepTerminal harchives).mono
      rintro (what | maintenance) z hz -
      · exact ⟨hz, trivial⟩
      · simp only
        split <;> exact ⟨hz, trivial⟩

/-! ### Recovery -/

/-- The entries are pending, or their commit has been concluded. -/
def Kept (path : Bytes) (entries : List FallbackCommitEntry)
    (x : World × List (Answer Call Call.Resp)) : Prop :=
  Pending path entries x.1 ∨ Concluded path entries x.2

variable {x y : World × List (Answer Call Call.Resp)}

/-- What was put on disk once, was. -/
theorem Concluded.withstands {α : Type} (h : Concluded path entries x.2) (p : Prog α) :
    p.Withstands (alone kind).remembering (Kept path entries) x fun _ _ => True := by
  have hkept : p.Withstands (alone kind).remembering (fun y => Concluded path entries y.2) x
      fun _ _ => True := by
    apply (Program.only_true p).withstands (I := fun y : World × List (Answer Call Call.Resp) =>
      Concluded path entries y.2) _ h
    rintro op - y r z ⟨-, hlog⟩ ⟨a, ha, hrest⟩
    rw [hlog]
    exact ⟨a, List.mem_append_left _ ha, hrest⟩
  exact hkept.weaken fun _ => .inr

theorem Pending.remembered {α : Type} {p : Prog α} {Q : α → World → Prop}
    (h : p.Withstands (alone kind) (Pending path entries) x.1 Q) :
    p.Withstands (alone kind).remembering (Kept path entries) x fun a z => Q a z.1 :=
  (h.remembering x.2).weaken fun _ => .inl

/-- The call leaves the file alone or writes the entries to it. -/
def KeepingCall (path : Bytes) (entries : List FallbackCommitEntry) (op : Call) : Prop :=
  path ∉ op.touched ∨ ∃ a : FallbackCommitArtifact, op = .replaceFile path a.text ∧
    a.entries = entries

theorem Kept.call {op : Call} {r : op.Resp} (h : Kept path entries x)
    (hop : KeepingCall path entries op) (henv : (alone kind).remembering op x r y) :
    Kept path entries y := by
  obtain ⟨hanswer, hlog⟩ := henv
  rcases h with hpending | ⟨a, ha, hrest⟩
  · rcases hop with htouched | ⟨a, rfl, hentries⟩
    · exact .inl
        (hpending.sameFile (sameFile_of_notMem_touched (unreliable_of_alone hanswer) htouched))
    · rcases unreliable_replaceFile (unreliable_of_alone hanswer) with ⟨rfl, hfile⟩ | ⟨-, hsame⟩
      · cases hphase : isTerminalFallbackPhase a.phase with
        | false => exact .inl ⟨a, hfile, hentries, hphase⟩
        | true =>
          right
          rw [hlog]
          exact ⟨a, persisted_append.2 (.inr rfl), hentries, hphase⟩
      · exact .inl (hpending.sameFile hsame)
  · right
    rw [hlog]
    exact ⟨a, List.mem_append_left _ ha, hrest⟩

theorem keepingCall_of_artifactCall {act : FallbackCommitEntry → Call}
    {phases : List FallbackCommitPhase} {op : Call} (h : ArtifactCall path entries act phases op)
    (hact : ∀ e ∈ entries, (act e).touched = []) :
    KeepingCall path entries op := by
  rcases h with hreads | ⟨e, he, rfl⟩ | ⟨a, rfl, hentries, -⟩
  · exact .inl (notMem_touched_of_reads hreads)
  · left
    rw [hact e he]
    exact List.not_mem_nil
  · exact .inr ⟨a, rfl, hentries⟩

theorem keepingCall_of_recoveryCall {a : FallbackCommitArtifact} {op : Call}
    (h : RecoveryCall path a op) :
    KeepingCall path a.entries op := by
  unfold RecoveryCall at h
  split at h
  next => exact keepingCall_of_artifactCall h fun e _ => touched_undoCall e
  next => exact keepingCall_of_artifactCall h.2 fun e _ => touched_applyCall e

/-- Recovery of the pending artifact keeps its entries, and that of another one its file. -/
theorem Kept.recover (h : Kept path entries x) (artifactPath : Bytes)
    (result : FallbackRecoveryResult) :
    (recoverFallbackCommitArtifact artifactPath result).Withstands
      (alone kind).remembering (Kept path entries) x
      fun _ _ => True := by
  rcases h with hpending | hconcluded
  · by_cases hown : artifactPath = path
    · subst hown
      obtain ⟨next, hnext, hcalls⟩ := recover_next artifactPath result
      rw [hnext, Program.withstands_call]
      refine ⟨.inl hpending, fun contents y henv => ?_⟩
      obtain ⟨hy, rfl⟩ := hpending.read henv.1
      have hentries :=
          (hy.parsed (Prod.mk.eta
            (p := parseFallbackCommitArtifact (y.1.files.lookup artifactPath) {})).symm).1
      have hkeeping : (next (y.1.files.lookup artifactPath)).Only
          (KeepingCall artifactPath entries) := by
        apply (hcalls _).mono
        intro op hop
        rw [← hentries]
        exact keepingCall_of_recoveryCall hop.2
      exact hkeeping.withstands (fun op hop y r z henv hy => hy.call hop henv) (.inl hy)
    · apply (only_recover_touched artifactPath result).withstands _ (.inl hpending)
      intro op hop y r z henv hy
      exact hy.call (.inl fun htouched => hown (hop path htouched).symm) henv
  · exact hconcluded.withstands _

theorem Kept.recoverFrom (artifactPaths : List Bytes) {result : FallbackRecoveryResult}
    (h : Kept path entries x) :
    (recoverArtifactsFrom artifactPaths result).Withstands
      (alone kind).remembering (Kept path entries) x
      fun _ _ => True := by
  induction artifactPaths generalizing result x with
  | nil => exact ⟨h, trivial⟩
  | cons artifactPath artifactPaths ih =>
    rw [recoverArtifactsFrom, Program.withstands_bind]
    apply (h.recover artifactPath result).mono
    rintro ⟨goesOn, result⟩ y hkept -
    cases goesOn with
    | false => exact ⟨hkept, trivial⟩
    | true => exact ih hkept

theorem Kept.recoverPending {names : List Bytes} {listing : Option (List Bytes)}
    (h : Kept path entries x)
    (harchives : ∀ p ∈ (listing.getD []).map (joinPath config.artifactDir), p ≠ path →
      config.usesArchivePolicy = true →
        config.archiveDir ≠ [] → path ≠ config.archiveTarget p) :
    (recoverPendingFallbackCommits config names listing).Withstands
      (alone kind).remembering (Kept path entries) x
      fun _ _ => True := by
  rw [recoverPendingFallbackCommits]
  split
  next => exact ⟨h, trivial⟩
  next =>
    rw [Program.withstands_bind]
    apply (h.recoverFrom (listFallbackCommitArtifacts config.artifactDir names)).mono
    rintro recovery y hkept -
    cases hsuccess : recovery.success with
    | false => exact ⟨hkept, trivial⟩
    | true =>
      simp only [Bool.not_true, Bool.false_eq_true, ↓reduceIte]
      rcases hkept with hpending | hconcluded
      · rw [Program.withstands_bind]
        apply (Pending.remembered (hpending.sweepTerminal harchives)).mono
        rintro (what | maintenance) z hz - <;> exact ⟨hz, trivial⟩
      · exact hconcluded.withstands _

theorem Pending.initializeRecovering {names : List Bytes} {listing : Option (List Bytes)}
    (h : Pending path entries x.1)
    (harchives : ∀ p ∈ (listing.getD []).map (joinPath config.artifactDir), p ≠ path →
      config.usesArchivePolicy = true →
        config.archiveDir ≠ [] → path ≠ config.archiveTarget p) :
    (initializeFallbackCommitRuntime config names listing).Withstands
      (alone kind).remembering (Kept path entries) x
      fun _ _ => True := by
  cases hauto : config.autoRecoverOnStartup with
  | false => exact (Pending.remembered (h.initialized hauto harchives)).mono fun _ _ _ _ => trivial
  | true =>
    rw [initializeFallbackCommitRuntime]
    split
    next => exact ⟨.inl h, trivial⟩
    next =>
      rw [Program.withstands_bind]
      apply (Pending.remembered (@Pending.ensureDirectories _ _ _ config _ h)).mono
      rintro (what | _) y hkept -
      · exact ⟨hkept, trivial⟩
      · simp only
        rw [Program.withstands_bind]
        apply (hkept.recoverPending harchives).mono
        rintro (what | result) z hz -
        · exact ⟨hz, trivial⟩
        · simp only
          split <;> exact ⟨hz, trivial⟩

/-! ### Runs -/

/-- A step that spares the file keeps the entries pending, if it does not recover. -/
theorem RuntimeStep.Spares.withstands {step : RuntimeStep} (hspares : step.Spares path w)
    (h : Pending path entries w) (hrecovers : step.recovers = false) :
    step.perform.Withstands (alone .nonBatchMemory) (Pending path entries) w fun _ _ => True := by
  obtain ⟨config, op⟩ := step
  unfold RuntimeStep.perform
  cases op with
  | construct names listing =>
    exact Program.withstands_bind.2
      ((h.initialized hrecovers hspares.archives).mono fun _ _ hy _ => ⟨hy, trivial⟩)
  | recoverPending names listing => cases hrecovers
  | sweepTerminal listing =>
    exact Program.withstands_bind.2
      ((h.sweepTerminal hspares.archives).mono fun _ _ hy _ => ⟨hy, trivial⟩)
  | submitTask task plan =>
    exact Program.withstands_bind.2 ((h.withstands ((only_submitTask config task plan).mono fun _ =>
      notMem_touched_of_reads)).mono fun _ _ hy _ => ⟨hy, trivial⟩)
  | commitTask session =>
    apply Program.withstands_bind.2
    apply (h.commitTask (hspares.commits session rfl) (hspares.archives _ List.mem_cons_self)).mono
    exact fun _ _ hy _ => ⟨hy, trivial⟩
  | executeRecovery execution =>
    have hcommit : execution.commandType = .revalidateCommit →
        (RuntimeStep.mk config (.executeRecovery execution)).commits = some execution.session :=
          fun hcommand => if_pos hcommand
    apply Program.withstands_bind.2
    apply (h.executeRecovery (fun hcommand => hspares.commits _ (hcommit hcommand)) fun hcommand =>
      hspares.archives _ ?_).mono
    · exact fun _ _ hy _ => ⟨hy, trivial⟩
    · rw [RuntimeStep.finalizes, hcommit hcommand]
      exact List.mem_cons_self

/-- A step that recovers keeps the entries or concludes their commit. -/
theorem RuntimeStep.Spares.withstands_recovering {step : RuntimeStep}
    (hspares : step.Spares path x.1) (h : Pending path entries x.1)
    (hrecovers : step.recovers = true) :
    step.perform.Withstands (alone .nonBatchMemory).remembering
      (Kept path entries) x fun _ _ => True := by
  obtain ⟨config, op⟩ := step
  unfold RuntimeStep.perform
  cases op with
  | construct names listing =>
    exact Program.withstands_bind.2
      ((h.initializeRecovering hspares.archives).mono fun _ _ hy _ => ⟨hy, trivial⟩)
  | recoverPending names listing =>
    have hkept : Kept path entries x := .inl h
    exact Program.withstands_bind.2
      ((hkept.recoverPending hspares.archives).mono fun _ _ hy _ => ⟨hy, trivial⟩)
  | sweepTerminal listing => cases hrecovers
  | submitTask task plan => cases hrecovers
  | commitTask session => cases hrecovers
  | executeRecovery execution => cases hrecovers

/-- As long as every step spares it, an artifact stays pending with its entries until a
recovery concludes their commit. -/
theorem pending_until_concluded (path : Bytes) (entries : List FallbackCommitEntry)
    (w₀ w : World) (steps : List TakenStep) (hrun : ProcessRuns path w₀ steps w)
    (hpending : Pending path entries w₀)
    (hspares : ∀ taken ∈ steps, Pending path entries taken.before →
      taken.step.Spares path taken.before) :
    Pending path entries w ∨
      ∃ taken ∈ steps, taken.step.recovers = true ∧ Concluded path entries taken.answers := by
  induction hrun with
  | start => exact .inl hpending
  | @step w before w' steps step answers rest hrun hsame hreaches ih =>
    rw [List.forall_mem_append, List.forall_mem_singleton] at hspares
    rcases ih hspares.1 with hkept | ⟨taken, htaken, hconcluded⟩
    · have hbefore := hkept.sameFile hsame
      cases hrecovers : step.recovers with
      | false =>
        exact .inl (((hspares.2 hbefore).withstands hbefore hrecovers).reaches hreaches).now
      | true =>
        have hwithstands := RuntimeStep.Spares.withstands_recovering (x := (before, []))
          (hspares.2 hbefore) hbefore hrecovers
        rcases (hwithstands.reaches (hreaches.remembering [])).now with hafter | hconcluded
        · exact .inl hafter
        · exact .inr ⟨_, List.mem_append_right _ List.mem_cons_self, hrecovers, hconcluded⟩
    · exact .inr ⟨taken, List.mem_append_left _ htaken, hconcluded⟩

/-! ### The same task submitted again -/

/-- A configuration with a directory for artifacts. -/
def withDirectory : FallbackCommitRuntimeConfig :=
  { artifactDir := ascii "d", autoRecoverOnStartup := true }

/-- The step that submits the task. -/
def submission : RuntimeOp :=
  .submitTask { taskId := ascii "1", objective := ascii "o" }
    { branchPlans := [{ branchId := ascii "b", candidateId := ascii "c", rationale := [] }] }

/-- The task as it is submitted, with one object appended to. -/
def submittedTask (payload : Bytes) (w : World) : TaskSession :=
  match (submitTask withDirectory { taskId := ascii "1", objective := ascii "o" }
    { branchPlans := [{ branchId := ascii "b", candidateId := ascii "c", rationale := [] }] }).run
        (handle .nonBatchMemory) w with
  | (.ok session, w) => ((session.write (ascii "b") (ascii "k") .generic
      { objectId := ascii "k", intentType := .append, payload }).run (handle .nonBatchMemory) w).1
  | (.error _, _) => {}

def pendingPath : Bytes := ascii "d/txn:1.fallback.log"

/-- Its commit is cut off when the object is written and the artifact says so. -/
def cutOff : World :=
  ((submittedTask (ascii "x")
    { store := MemoryKVStore.write {} (ascii "k") (ascii "a") }).commitTask withDirectory).crash
    (handle .nonBatchMemory) 7 { store := MemoryKVStore.write {} (ascii "k") (ascii "a") }

/-- The artifact that is left, in the phase, with the entry. -/
def artifactOf (phase : FallbackCommitPhase) (entry : FallbackCommitEntry) :
    FallbackCommitArtifact where
  txnId := ascii "txn:1"
  taskId := ascii "1"
  phase := phase
  appliedCount := 1
  entries := [entry]

def firstEntry : FallbackCommitEntry where
  key := ascii "k"
  expectedVersion := 1
  targetValue := ascii "ax"
  previousValue := ascii "a"
  previousVersion := 1
  previousExists := true

theorem onDisk_cutOff : OnDisk pendingPath (artifactOf .applying firstEntry) cutOff := by
  show cutOff.files.lookup pendingPath = some (artifactOf .applying firstEntry).text
  decide +kernel

/-- A runtime that is constructed then and recovers. -/
def restart : RuntimeStep where
  config := withDirectory
  op := .construct [ascii "txn:1.fallback.log"] (some [ascii "txn:1.fallback.log"])

def restarted := restart.perform.follow (List.replicate 9 (handle .nonBatchMemory)) cutOff

theorem pending_until_concluded_restarted :
    Pending pendingPath [firstEntry] restarted.2.2 ∨
      ∃ taken ∈ [TakenStep.mk restart cutOff restarted.1], taken.step.recovers = true ∧
        Concluded pendingPath [firstEntry] taken.answers := by
  have hscript : ∀ h ∈ List.replicate 9 (handle .nonBatchMemory),
      (alone .nonBatchMemory).Allows h := by
    intro h hh
    rw [List.eq_of_mem_replicate hh]
    exact alone_allows_handle
  have hreaches := Program.reaches_follow _ hscript restart.perform cutOff
  apply pending_until_concluded pendingPath [firstEntry] cutOff restarted.2.2
    [⟨restart, cutOff, restarted.1⟩]
    (.step (.start cutOff) rfl hreaches) ⟨_, onDisk_cutOff, rfl, rfl⟩
  intro taken htaken _
  obtain rfl := List.mem_singleton.1 htaken
  refine ⟨nofun, fun p hp hne => ?_⟩
  exact absurd (List.mem_singleton.1 hp) hne

/-- Submitted once more, the same task writes its artifact over the one that is pending. -/
theorem pending_not_until_concluded :
    ¬∀ (path : Bytes) (w₀ w : World) (steps : List TakenStep) (a : FallbackCommitArtifact),
      (∀ taken ∈ steps, taken.step.config.artifactDir = ascii "d") →
        OnDisk path a w₀ → 0 < a.appliedCount →
      isTerminalFallbackPhase a.phase = false → ProcessRuns path w₀ steps w →
      Pending path a.entries w ∨
        ∃ taken ∈ steps, taken.step.recovers = true ∧ Concluded path a.entries taken.answers := by
  intro h
  let submit : RuntimeStep := ⟨withDirectory, submission⟩
  let commit : RuntimeStep := ⟨withDirectory, .commitTask (submittedTask (ascii "y") cutOff)⟩
  obtain ⟨answers, hsubmit⟩ :=
    Program.reaches_run (@alone_allows_handle .nonBatchMemory) submit.perform cutOff
  obtain ⟨answers', hcommit⟩ :=
    Program.reaches_run (@alone_allows_handle .nonBatchMemory) commit.perform
    (submit.perform.run (handle .nonBatchMemory) cutOff).2
  have hfinal : (commit.perform.run (handle .nonBatchMemory)
      (submit.perform.run (handle .nonBatchMemory) cutOff).2).2.files.lookup pendingPath =
        some (artifactOf .committed { firstEntry with
          expectedVersion := 2, targetValue := ascii "axy", previousValue := ascii "ax",
              previousVersion := 2 }).text := by
    decide +kernel
  rcases h pendingPath cutOff _ _ (artifactOf .applying firstEntry)
    (by simp [submit, commit, withDirectory]) onDisk_cutOff
    (by decide) rfl (.step (.step (.start cutOff) rfl hsubmit) rfl hcommit) with ⟨a, hdisk,
      hentries, -⟩ | ⟨taken, htaken, hrecovers, -⟩
  · have htext := Option.some.inj (hfinal.symm.trans hdisk)
    have hsame := (FallbackCommitArtifact.entries_eq_of_text_eq htext).trans hentries
    exact absurd hsame (by decide)
  · simp only [List.nil_append, List.cons_append, List.mem_cons,
      List.not_mem_nil, or_false] at htaken
    rcases htaken with rfl | rfl <;> cases hrecovers

end DataAgentSystem.Runtime
