import DataAgentSystem.AgentTxn.RollbackRecovery

/-! How one undisturbed recovery of one artifact ends, whatever the store holds. From
a prefix of the entries it goes all the way in its direction; from anything else it
reports a conflict before its first write. -/

namespace DataAgentSystem.AgentTxn

open Text Storage Interaction Containers

variable {kind : StoreKind} {path : Bytes} {w : World}

inductive RecoveryOutcome where
  | committed | rolledBack | conflict
  deriving DecidableEq

/-- A recovery that started in the world `w` has this outcome. -/
def RecoveryOutcome.Of (path : Bytes) (entries : List FallbackCommitEntry) (w : World)
    (out : FallbackRecoveryResult × World) : RecoveryOutcome → Prop
  | .committed => out.1.success = true ∧ Finished path entries out.2
  | .rolledBack => out.1.success = true ∧ UndoFinished path entries out.2
  | .conflict => out.1.success = false ∧ out.1.conflictCount = 1 ∧ out.2.store = w.store

/-- No recovery has two outcomes. -/
theorem RecoveryOutcome.Of.eq {entries : List FallbackCommitEntry}
    {out : FallbackRecoveryResult × World} {o o' : RecoveryOutcome} (h : o.Of path entries w out)
    (h' : o'.Of path entries w out) : o = o' := by
  have hphase : Finished path entries out.2 → UndoFinished path entries out.2 → False := by
    rintro ⟨-, a, hdisk, -, -, hcommitted⟩ ⟨-, b, hdisk', -, hrolledBack⟩
    have hmarked : MarkedRolledBack path out.2 := ⟨b, hdisk', hrolledBack⟩
    rw [hmarked.phase hdisk] at hcommitted
    cases hcommitted
  cases o with
  | committed => cases o' with
    | committed => rfl
    | rolledBack => exact absurd h'.2 (hphase h.2)
    | conflict => exact absurd (h.1.symm.trans h'.1) (by decide)
  | rolledBack => cases o' with
    | committed => exact absurd h.2 (hphase h'.2)
    | rolledBack => rfl
    | conflict => exact absurd (h.1.symm.trans h'.1) (by decide)
  | conflict => cases o' with
    | committed => exact absurd (h.1.symm.trans h'.1) (by decide)
    | rolledBack => exact absurd (h.1.symm.trans h'.1) (by decide)
    | conflict => rfl

/-- Going forward from anything but a prefix gives up at once. -/
theorem safely_resumeForward_conflict {artifact : FallbackCommitArtifact}
    {result : FallbackRecoveryResult} {I : World → Prop} (hI : I w)
    (h : ¬PrefixState artifact.entries w.store) :
    (resumeForwardFallbackCommit artifact path result).Safely (handle kind) I w
      fun out _ => out.1 = false ∧ ∃ reason, out.2.2 = result.conflict reason := by
  obtain ⟨key, hdetect⟩ := run_detectCommittedPrefix_of_not_prefixState kind result h
  rw [resumeForwardFallbackCommit, Program.safely_bind]
  apply (looks_detectCommittedPrefix artifact result w).safely hI
  rw [hdetect]
  simp only [gt_iff_lt, Nat.lt_add_one, ↓reduceIte]
  exact Program.safely_ret.2 ⟨hI, rfl, _, rfl⟩

variable {artifact : FallbackCommitArtifact}

/-- A recovery that meets anything but a prefix of its entries. -/
theorem recover_conflict (hdisk : OnDisk path artifact w)
    (hcount : artifact.appliedCount ≤ artifact.entries.length)
    (hsize : artifact.entries.length < 2 ^ 64)
    (hlive : artifact.phase ≠ .committed ∧ artifact.phase ≠ .rolledBack)
    (h : ¬PrefixState artifact.entries w.store) :
    RecoveryOutcome.conflict.Of path artifact.entries w
      ((recoverFallbackCommitArtifacts [path]).run (handle kind) w) := by
  have hsafe : (recoverFallbackCommitArtifacts [path]).Safely (handle kind) (· = w) w
      fun result _ => result.success = false ∧ result.conflictCount = 1 := by
    apply safely_recover (I := (· = w)) hdisk hcount hsize hlive rfl
    split
    next =>
      refine (safely_resumeRollback_conflict (I := (· = w)) rfl h).mono ?_
      rintro out w' - ⟨hok, reason, hconflict⟩
      rw [if_neg (by simp [hok]), hconflict]
      exact ⟨rfl, rfl⟩
    next =>
      refine (safely_resumeForward_conflict (I := (· = w)) rfl h).mono ?_
      rintro out w' - ⟨hok, reason, hconflict⟩
      rw [if_neg (by simp [hok]), hconflict]
      exact ⟨rfl, rfl⟩
  exact ⟨hsafe.ends.1, hsafe.ends.2, congrArg World.store hsafe.always.finally⟩

/-- A recovery that meets a prefix of its entries. -/
theorem recover_prefixState (hb : Built artifact.entries) (hdisk : OnDisk path artifact w)
    (hcount : artifact.appliedCount ≤ artifact.entries.length)
    (hsize : artifact.entries.length < 2 ^ 64)
    (hlive : artifact.phase ≠ .committed ∧ artifact.phase ≠ .rolledBack)
    (h : PrefixState artifact.entries w.store) :
    (if artifact.phase = .rollingBack then RecoveryOutcome.rolledBack
      else RecoveryOutcome.committed).Of path
      artifact.entries w ((recoverFallbackCommitArtifacts [path]).run (handle kind) w) := by
  by_cases hroll : artifact.phase = .rollingBack
  · have hundo : (resumeRollbackFallbackCommit artifact path {}).Safely
      (handle kind) (fun _ => True) w
        (Undid path artifact.entries {}) :=
      Program.safely_logged_iff.1
        (safely_resumeRollback [] hb rfl h (fun _ _ => trivial) fun _ _ => trivial)
    have hsafe : (recoverFallbackCommitArtifacts [path]).Safely (handle kind) (fun _ => True) w
        fun result w' => result.success = true ∧ UndoFinished path artifact.entries w' := by
      apply safely_recover hdisk hcount hsize hlive trivial
      rw [if_pos hroll]
      refine hundo.mono ?_
      rintro out w' - ⟨hok, hsuccess, hfinished⟩
      rw [if_pos hok]
      exact ⟨hsuccess, hfinished⟩
    rw [if_pos hroll]
    exact hsafe.ends
  · have hphase : artifact.phase = .prepared ∨ artifact.phase = .applying := by
      obtain ⟨hcommitted, hrolledBack⟩ := hlive
      cases hp : artifact.phase <;> simp_all
    have hforward : Forward path artifact.entries w :=
      ⟨h, artifact, hdisk, rfl, hcount, hphase.imp_right .inl⟩
    rw [if_neg hroll]
    exact (safely_recover_forward hb hsize hforward).ends

/-- An artifact that counts more applied entries than it has is not accepted. -/
theorem run_recover_overcounted (hdisk : OnDisk path artifact w)
    (hword : artifact.appliedCount < 2 ^ 64)
    (hcount : artifact.entries.length < artifact.appliedCount) :
    (recoverFallbackCommitArtifacts [path]).run (handle kind) w = ({
      success := false, reason := ascii "failed to parse fallback artifact: " ++ path,
        parseFailureCount := 1 }, w) := by
  have hparse : parseFallbackCommitArtifact (w.files.lookup path) {} = (false, artifact) := by
    rw [show w.files.lookup path = some artifact.text from hdisk,
      parseFallbackCommitArtifact_text artifact {} hword, decide_eq_false (by omega)]
  rw [recoverFallbackCommitArtifacts, recoverArtifactsFrom, recoverFallbackCommitArtifact,
    Program.bind_bind, Files.read_bind, Program.run_call, handle_readFile, hparse]
  rfl

/-- One recovery of a live artifact whose count is in range has exactly one of the
three outcomes; where the count is out of range the file is not accepted and the
recovery fails without touching anything. -/
theorem recoverFallbackCommitArtifacts_allOrNothing (kind : StoreKind)
    (artifact : FallbackCommitArtifact) (path : Bytes) (w : World) (hb : Built artifact.entries)
    (hsize : artifact.entries.length < 2 ^ 64) (hword : artifact.appliedCount < 2 ^ 64)
    (hlive : artifact.phase ≠ .committed ∧ artifact.phase ≠ .rolledBack)
    (hdisk : OnDisk path artifact w) :
    let out := (recoverFallbackCommitArtifacts [path]).run (handle kind) w
    (artifact.appliedCount ≤ artifact.entries.length →
        ∃! outcome : RecoveryOutcome, outcome.Of path artifact.entries w out) ∧
      (artifact.entries.length < artifact.appliedCount →
        out.1.success = false ∧ out.1.parseFailureCount = 1 ∧ out.1.conflictCount = 0 ∧
            out.2 = w) := by
  intro out
  refine ⟨fun hcount => ?_, fun hcount => ?_⟩
  · by_cases hstarts : PrefixState artifact.entries w.store
    · exact ⟨_, recover_prefixState hb hdisk hcount hsize hlive hstarts,
        fun o ho => ho.eq (recover_prefixState hb hdisk hcount hsize hlive hstarts)⟩
    · exact ⟨_, recover_conflict hdisk hcount hsize hlive hstarts,
        fun o ho => ho.eq (recover_conflict hdisk hcount hsize hlive hstarts)⟩
  · have hrun : out = _ := run_recover_overcounted hdisk hword hcount
    rw [hrun]
    exact ⟨rfl, rfl, rfl, rfl⟩

/-- A created key and an updated one, of which the first is written. -/
def halfApplied : FallbackCommitArtifact where
  phase := .rollingBack
  appliedCount := 2
  entries := [
    { key := ascii "a", targetValue := ascii "x" },
    { key := ascii "b", expectedVersion := 1, targetValue := ascii "y", previousValue := ascii "b",
      previousVersion := 1,
      previousExists := true }]

def halfAppliedWorld : World :=
  withArtifact (ascii "f") halfApplied
    { store := (MemoryKVStore.write {} (ascii "a") (ascii "x")).write (ascii "b") (ascii "b") }

theorem recoverFallbackCommitArtifacts_allOrNothing_halfApplied :
    let out := (recoverFallbackCommitArtifacts [ascii "f"]).run
      (handle .nonBatchMemory) halfAppliedWorld
    (halfApplied.appliedCount ≤ halfApplied.entries.length →
        ∃! outcome : RecoveryOutcome,
          outcome.Of (ascii "f") halfApplied.entries halfAppliedWorld out) ∧
      (halfApplied.entries.length < halfApplied.appliedCount →
        out.1.success = false ∧ out.1.parseFailureCount = 1 ∧ out.1.conflictCount = 0 ∧
            out.2 = halfAppliedWorld) :=
  recoverFallbackCommitArtifacts_allOrNothing .nonBatchMemory halfApplied
    (ascii "f") halfAppliedWorld
    ⟨by decide, by decide, by decide⟩ (by decide) (by decide) (by decide)
      (onDisk_withArtifact _ _ _)

/-- An artifact without entries that counts one of them as applied. -/
def overcounted : FallbackCommitArtifact where
  appliedCount := 1

/-- It is live, but recovery has none of the three outcomes. -/
theorem recoverFallbackCommitArtifacts_overcounted :
    ¬∃ outcome : RecoveryOutcome,
      outcome.Of (ascii "f") overcounted.entries (withArtifact (ascii "f") overcounted {})
      ((recoverFallbackCommitArtifacts [ascii "f"]).run (handle .nonBatchMemory)
        (withArtifact (ascii "f") overcounted {})) := by
  rw [run_recover_overcounted (onDisk_withArtifact (ascii "f") overcounted {}) (by decide)
    (by decide)]
  rintro ⟨outcome, h⟩
  cases outcome with
  | committed => exact absurd h.1 (by decide)
  | rolledBack => exact absurd h.1 (by decide)
  | conflict => exact absurd h.2.1 (by decide)

end DataAgentSystem.AgentTxn
