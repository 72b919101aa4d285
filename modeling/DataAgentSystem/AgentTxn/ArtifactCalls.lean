import DataAgentSystem.AgentTxn.ForwardRecovery
import DataAgentSystem.Storage.Unreliable

/-! The calls that a commit and a recovery make for one artifact: they look, they act
on entries of the artifact, and they write the artifact again with the same entries.
Going forward only applies entries, going back only undoes them, and each has phases
of its own. All of this holds whatever the calls are answered. -/

namespace DataAgentSystem.AgentTxn

open Text Storage Interaction Containers CommitManager

namespace FallbackCommitEntry

/-- The write of an entry. -/
def applyCall (e : FallbackCommitEntry) : Call :=
  .putIfVersion e.key e.expectedVersion e.targetValue

/-- Taking the write of an entry back. -/
def undoCall (e : FallbackCommitEntry) : Call :=
  if e.previousExists then .putIfVersion e.key (e.previousVersion + 1) e.previousValue
  else .deleteIfVersion e.key (e.expectedVersion + 1)

theorem undoCall_of_exists {e : FallbackCommitEntry} (h : e.previousExists = true) :
    e.undoCall = .putIfVersion e.key (e.previousVersion + 1) e.previousValue := if_pos h

theorem undoCall_of_missing {e : FallbackCommitEntry} (h : e.previousExists = false) :
    e.undoCall = .deleteIfVersion e.key (e.expectedVersion + 1) := if_neg (by simp [h])

end FallbackCommitEntry

open FallbackCommitEntry

/-- The call looks, acts on an entry, or writes the artifact in one of the phases. -/
def ArtifactCall (path : Bytes) (entries : List FallbackCommitEntry)
    (act : FallbackCommitEntry → Call) (phases : List FallbackCommitPhase) (op : Call) : Prop :=
  op.reads = true ∨ (∃ e ∈ entries, op = act e) ∨
    ∃ a : FallbackCommitArtifact, op = .replaceFile path a.text ∧
      a.entries = entries ∧ a.phase ∈ phases

section Rules

variable {path : Bytes} {entries : List FallbackCommitEntry} {act : FallbackCommitEntry → Call}
  {phases : List FallbackCommitPhase}

theorem artifactCall_reads {op : Call} (h : op.reads = true) :
    ArtifactCall path entries act phases op := .inl h

theorem artifactCall_act {e : FallbackCommitEntry} (h : e ∈ entries) :
    ArtifactCall path entries act phases (act e) :=
  .inr (.inl ⟨e, h, rfl⟩)

theorem artifactCall_replaceFile {a : FallbackCommitArtifact} (hentries : a.entries = entries)
    (hphase : a.phase ∈ phases) : ArtifactCall path entries act phases (.replaceFile path a.text) :=
  .inr (.inr ⟨a, rfl, hentries, hphase⟩)

/-- Nobody but the artifact's own file is touched. -/
theorem ArtifactCall.touched {op : Call} (h : ArtifactCall path entries act phases op)
    (hact : ∀ e ∈ entries, (act e).touched = []) : ∀ p ∈ op.touched, p = path := by
  rcases h with hreads | ⟨e, he, rfl⟩ | ⟨a, rfl, -, -⟩
  · exact Call.forall_touched (Call.touched_of_reads hreads)
  · exact Call.forall_touched (hact e he)
  · exact fun p hp => List.mem_singleton.1 hp

theorem abides_detect (artifact : FallbackCommitArtifact) (result : FallbackRecoveryResult) :
    (detectCommittedPrefix artifact result).Abides (ArtifactCall path entries act phases) fun _ =>
      True :=
  ((only_detectCommittedPrefix artifact result).mono fun _ => artifactCall_reads).abides

end Rules

theorem touched_applyCall (e : FallbackCommitEntry) : e.applyCall.touched = [] := rfl

theorem touched_undoCall (e : FallbackCommitEntry) : e.undoCall.touched = [] := by
  unfold undoCall
  split <;> rfl

/-- The calls of going forward. -/
abbrev ForwardCall (path : Bytes) (entries : List FallbackCommitEntry) : Call → Prop :=
  ArtifactCall path entries applyCall [.applying, .committed]

/-- The calls of going back. -/
abbrev UndoingCall (path : Bytes) (entries : List FallbackCommitEntry) : Call → Prop :=
  ArtifactCall path entries undoCall [.rollingBack, .rolledBack]

variable {path : Bytes} {entries : List FallbackCommitEntry} {artifact : FallbackCommitArtifact}

/-- The artifact that recovery is left with. -/
def HasEntries (entries : List FallbackCommitEntry)
    (out : Bool × FallbackCommitArtifact × FallbackRecoveryResult) :
    Prop := out.2.1.entries = entries

/-! ### Going forward -/

theorem abides_applyForward {todo : List FallbackCommitEntry} {i : ℕ}
    {result : FallbackRecoveryResult} (hentries : artifact.entries = entries)
    (htodo : ∀ e ∈ todo, e ∈ entries) :
    (applyForward path todo i artifact result).Abides (ForwardCall path entries)
      (HasEntries entries) := by
  induction todo generalizing i artifact result with
  | nil => exact hentries
  | cons e todo ih =>
    rw [List.forall_mem_cons] at htodo
    rw [applyForward, Store.putIfVersion_bind, Program.abides_call]
    refine ⟨artifactCall_act htodo.1, fun put => ?_⟩
    cases put with
    | false => exact hentries
    | true =>
      simp only [Bool.not_true, Bool.false_eq_true, ↓reduceIte]
      rw [writeFallbackCommitArtifact, Files.replace_bind, Program.abides_call]
      refine ⟨artifactCall_replaceFile hentries (by simp), fun written => ?_⟩
      cases written with
      | false => exact hentries
      | true =>
        simp only [Bool.not_true, Bool.false_eq_true, ↓reduceIte]
        exact ih hentries htodo.2

theorem abides_resumeForward (hentries : artifact.entries = entries)
    (result : FallbackRecoveryResult) :
    (resumeForwardFallbackCommit artifact path result).Abides (ForwardCall path entries)
      (HasEntries entries) := by
  apply (abides_detect artifact result).bind
  rintro ⟨committedPrefix, result⟩ -
  simp only
  split
  next => exact hentries
  next =>
    rw [writeFallbackCommitArtifact, Files.replace_bind, Program.abides_call]
    refine ⟨artifactCall_replaceFile hentries ?_, fun written => ?_⟩
    · simp only
      split <;> simp
    cases written with
    | false => exact hentries
    | true =>
      simp only [Bool.not_true, Bool.false_eq_true, ↓reduceIte]
      have htodo : ∀ e ∈ artifact.entries.drop committedPrefix, e ∈ entries :=
        fun e he => hentries ▸ List.mem_of_mem_drop he
      apply Program.Abides.bind (abides_applyForward (by exact hentries) htodo)
      rintro ⟨applied, advanced, result⟩ hadvanced
      cases applied with
      | false => exact hadvanced
      | true =>
        simp only [Bool.not_true, Bool.false_eq_true, ↓reduceIte]
        rw [writeFallbackCommitArtifact, Files.replace_bind, Program.abides_call]
        refine ⟨artifactCall_replaceFile hadvanced (by simp), fun written => ?_⟩
        cases written <;> exact hadvanced

/-! ### Going back -/

theorem abides_undoEntry {e : FallbackCommitEntry} (he : e ∈ entries) :
    (undoEntry e).Abides (UndoingCall path entries) fun _ => True := by
  have hact : UndoingCall path entries e.undoCall := artifactCall_act he
  cases hp : e.previousExists with
  | true =>
    rw [undoCall_of_exists hp] at hact
    rw [undoEntry, hp, if_pos rfl]
    exact ⟨hact, fun r => trivial⟩
  | false =>
    rw [undoCall_of_missing hp] at hact
    rw [undoEntry, hp, if_neg (by simp)]
    exact ⟨hact, fun r => trivial⟩

theorem abides_undoBackward {todo : List FallbackCommitEntry} {result : FallbackRecoveryResult}
    (hentries : artifact.entries = entries) (hphase : artifact.phase = .rollingBack)
    (htodo : ∀ e ∈ todo, e ∈ entries) :
    (undoBackward path todo artifact result).Abides (UndoingCall path entries)
      (HasEntries entries) := by
  induction todo generalizing artifact result with
  | nil => exact hentries
  | cons e todo ih =>
    rw [List.forall_mem_cons] at htodo
    rw [undoBackward, Store.get_bind, Program.abides_call]
    refine ⟨artifactCall_reads rfl, fun current => ?_⟩
    split
    next =>
      rw [writeFallbackCommitArtifact, Files.replace_bind, Program.abides_call]
      refine ⟨artifactCall_replaceFile hentries (by simp [hphase]), fun written => ?_⟩
      cases written with
      | false => exact hentries
      | true =>
        simp only [Bool.not_true, Bool.false_eq_true, ↓reduceIte]
        exact ih hentries hphase htodo.2
    next =>
      split
      next => exact hentries
      next =>
        apply (abides_undoEntry htodo.1).bind
        intro undone _
        cases undone with
        | false => exact hentries
        | true =>
          simp only [Bool.not_true, Bool.false_eq_true, ↓reduceIte]
          rw [writeFallbackCommitArtifact, Files.replace_bind, Program.abides_call]
          refine ⟨artifactCall_replaceFile hentries (by simp [hphase]), fun written => ?_⟩
          cases written with
          | false => exact hentries
          | true =>
            simp only [Bool.not_true, Bool.false_eq_true, ↓reduceIte]
            exact ih hentries hphase htodo.2

/-- What a rollback does once it has said that it rolls back. -/
theorem abides_resumeRollback (hentries : artifact.entries = entries)
    (result : FallbackRecoveryResult) :
    (resumeRollbackFallbackCommit artifact path result).Abides (UndoingCall path entries)
      (HasEntries entries) := by
  apply (abides_detect artifact result).bind
  rintro ⟨committedPrefix, result⟩ -
  simp only
  split
  next => exact hentries
  next =>
    rw [writeFallbackCommitArtifact, Files.replace_bind, Program.abides_call]
    refine ⟨artifactCall_replaceFile hentries (by simp), fun written => ?_⟩
    cases written with
    | false => exact hentries
    | true =>
      simp only [Bool.not_true, Bool.false_eq_true, ↓reduceIte]
      have htodo : ∀ e ∈ (artifact.entries.take committedPrefix).reverse, e ∈ entries :=
        fun e he => hentries ▸ List.mem_of_mem_take (List.mem_reverse.1 he)
      apply Program.Abides.bind (abides_undoBackward (by exact hentries) rfl htodo)
      rintro ⟨undone, taken, result⟩ htaken
      cases undone with
      | false => exact htaken
      | true =>
        simp only [Bool.not_true, Bool.false_eq_true, ↓reduceIte]
        rw [writeFallbackCommitArtifact, Files.replace_bind, Program.abides_call]
        refine ⟨artifactCall_replaceFile htaken (by simp), fun written => ?_⟩
        cases written <;> exact htaken

/-! ### Recovery of one artifact -/

/-- The calls that recovery makes for an artifact once it has accepted it. -/
def RecoveryCall (path : Bytes) (a : FallbackCommitArtifact) (op : Call) : Prop :=
  if a.phase = .rollingBack then UndoingCall path a.entries op
  else (a.phase = .prepared ∨ a.phase = .applying) ∧ ForwardCall path a.entries op

theorem RecoveryCall.touched {a : FallbackCommitArtifact} {op : Call} (h : RecoveryCall path a op) :
    ∀ p ∈ op.touched, p = path := by
  unfold RecoveryCall at h
  split at h
  next => exact ArtifactCall.touched h fun e _ => touched_undoCall e
  next => exact ArtifactCall.touched h.2 fun e _ => touched_applyCall e

/-- Recovery of one artifact reads the file and then does what it says. -/
theorem recover_next (path : Bytes) (result : FallbackRecoveryResult) :
    ∃ next, recoverFallbackCommitArtifact path result = .call (.readFile path) next ∧
      ∀ contents, (next contents).Only fun op =>
        (parseFallbackCommitArtifact contents {}).1 = true ∧
        RecoveryCall path (parseFallbackCommitArtifact contents {}).2 op := by
  refine ⟨_, Files.read_bind path _, fun contents => ?_⟩
  generalize parseFallbackCommitArtifact contents {} = parsed
  obtain ⟨accepted, artifact⟩ := parsed
  cases accepted with
  | false => trivial
  | true =>
    simp only
    split
    next => trivial
    next hlive =>
      rw [not_or] at hlive
      by_cases hroll : artifact.phase = .rollingBack
      · rw [if_pos hroll]
        have hcalls : (resumeRollbackFallbackCommit artifact path result).Only fun op =>
            True ∧ RecoveryCall path artifact op :=
          (abides_resumeRollback rfl result).only.mono fun op hop => by
            rw [RecoveryCall, if_pos hroll]
            exact ⟨trivial, hop⟩
        refine Program.only_bind hcalls fun out => ?_
        split <;> trivial
      · rw [if_neg hroll]
        have hphase : artifact.phase = .prepared ∨ artifact.phase = .applying := by
          cases hp : artifact.phase <;> simp_all
        have hcalls : (resumeForwardFallbackCommit artifact path result).Only fun op =>
            True ∧ RecoveryCall path artifact op :=
          (abides_resumeForward rfl result).only.mono fun op hop => by
            rw [RecoveryCall, if_neg hroll]
            exact ⟨trivial, hphase, hop⟩
        refine Program.only_bind hcalls fun out => ?_
        split <;> trivial

/-- Recovery of an artifact touches no file but its own. -/
theorem only_recover_touched (path : Bytes) (result : FallbackRecoveryResult) :
    (recoverFallbackCommitArtifact path result).Only fun op => ∀ p ∈ op.touched, p = path := by
  obtain ⟨next, hnext, hcalls⟩ := recover_next path result
  rw [hnext]
  exact ⟨fun p hp => absurd hp List.not_mem_nil, fun contents => (hcalls contents).mono fun _ hop =>
    hop.2.touched⟩

end DataAgentSystem.AgentTxn
