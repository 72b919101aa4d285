import DataAgentSystem.AgentTxn.RollbackRecovery

/-! A crash-safe fallback commit that loses a race. A foreign writer acts between the
calls of the commit until it has lost; the rollback then goes through the detection
of recovery, which also looks at the key that lost. It takes the writes back exactly
if the foreign writer left every key either as it was or as the commit would have. -/

namespace DataAgentSystem.AgentTxn

open Text Storage Interaction Containers CommitManager

variable {kind : StoreKind} {path : Bytes} {w : World}

/-- What a foreign writer does to the store. -/
def onStore (move : MemoryKVStore → MemoryKVStore) (w : World) : World := withStore w (move w.store)

@[simp] theorem onStore_files (move : MemoryKVStore → MemoryKVStore) (w : World) :
    (onStore move w).files = w.files := rfl

theorem OnDisk.onStore {artifact : FallbackCommitArtifact} (move : MemoryKVStore → MemoryKVStore)
    (h : OnDisk path artifact w) : OnDisk path artifact (onStore move w) := h

/-- The commit has lost a race and is about to take its writes back. -/
def losing (artifact : FallbackCommitArtifact) (path reason : Bytes) : Prog (Except Bytes Unit) :=
  rollbackCrashSafeArtifact artifact path reason >>= fun reason => .ret (.error reason)

/-- What was still as the commit wrote it when the race was lost is as it was before
the commit, and the file says so. -/
def TakenBack (path : Bytes) (entries : List FallbackCommitEntry) (lost final : World) : Prop :=
  (∀ e ∈ entries, lost.store.get e.key = e.target → Restored e final.store) ∧
    MarkedRolledBack path final

/-! ### Up to the loss -/

/-- A commit whose expected versions are current records the previous state of each key. -/
theorem advance_prepareEntries {α : Type} {expected : UnorderedMap UInt64} {writes : List WriteOp}
    (f : Except Bytes (List FallbackCommitEntry) → Prog α)
    (hexpected : ∀ write ∈ writes, expected.lookup write.key =
      some (w.store.getVersion write.key)) :
    ∀ entries n, (prepareEntries expected writes entries >>= f).advance
      (handle kind) (writes.length + n) w =
      (f (.ok (entries ++ writes.map (preparedEntry w.store)))).advance (handle kind) n w := by
  induction writes with
  | nil =>
    intro entries n
    rw [List.length_nil, Nat.zero_add, List.map_nil, List.append_nil]
    rfl
  | cons write writes ih =>
    intro entries n
    rw [List.forall_mem_cons] at hexpected
    have hlen : (write :: writes).length + n = (writes.length + n) + 1 := by
      rw [List.length_cons]
      omega
    rw [hlen, prepareEntries, hexpected.1]
    simp only
    have hcurrent : ¬(w.store.get write.key).version ≠ w.store.getVersion write.key := not_not.2 rfl
    rw [Program.bind_bind, Store.get_bind, Program.advance_call, handle_get,
      if_neg hcurrent, ih hexpected.2, List.append_assoc]
    rfl

/-- A commit that fails without crashing has lost a race on the way. -/
theorem exists_losing {config : FallbackCommitConfig}
    (hsimulate : config.simulateCrashAfterApplyCount = 0)
    {f : Except Bytes FallbackCommitArtifact → Prog (Except Bytes Unit)} {reason : Bytes}
    (herror : ∀ r, f (.error r) = .ret (.error r))
    (hok : ∀ a moves w, ((f (.ok a)).advanceWith (handle kind) moves w).1 ≠ .ret (.error reason))
    {rest : List FallbackCommitEntry} :
    ∀ {artifact : FallbackCommitArtifact} {foreign : List (MemoryKVStore → MemoryKVStore)}
      {w : World},
      artifact.phase ≠ .rolledBack → OnDisk config.artifactPath artifact w →
      ((applyEntries config rest artifact >>= f).advanceWith (handle kind)
        (foreign.map onStore) w).1 =
        .ret (.error reason) →
      ∃ k lost r, ((applyEntries config rest artifact >>= f).advanceWith (handle kind)
          ((foreign.map onStore).take k) w).1 = losing lost config.artifactPath r ∧
        lost.entries = artifact.entries ∧ lost.phase ≠ .rolledBack ∧
        OnDisk config.artifactPath lost
          ((applyEntries config rest artifact >>= f).advanceWith (handle kind)
            ((foreign.map onStore).take k) w).2 := by
  induction rest with
  | nil =>
    intro artifact foreign w _ _ hrun
    exact absurd hrun (hok artifact _ w)
  | cons e rest ih =>
    intro artifact foreign w hphase hdisk hrun
    -- the loss may come at the look, at the write, or later
    have hlosing : ∀ reason,
      ((do return Except.error (← rollbackCrashSafeArtifact artifact config.artifactPath reason)) >>= f) =
        losing artifact config.artifactPath reason := by
      intro reason
      rw [Program.bind_bind]
      simp only [Program.pure_eq_ret, Program.ret_bind, herror]
      rfl
    rw [applyEntries, Program.bind_bind, Store.get_bind] at hrun ⊢
    cases foreign with
    | nil => cases hrun
    | cons look foreign =>
      rw [List.map_cons, Program.advanceWith_call, handle_get] at hrun
      split at hrun
      next hchanged =>
        refine ⟨1, artifact, ascii "fallback write version changed for " ++ e.key, ?_⟩
        rw [List.map_cons, List.take_succ_cons, List.take_zero, Program.advanceWith_call,
          handle_get, if_pos hchanged, hlosing]
        exact ⟨rfl, rfl, hphase, hdisk.onStore look⟩
      next hcurrent =>
        rw [Program.bind_bind, Store.putIfVersion_bind] at hrun
        cases foreign with
        | nil => cases hrun
        | cons put foreign =>
          rw [List.map_cons, Program.advanceWith_call] at hrun
          split at hrun
          next hrefused =>
            refine ⟨2, artifact, ascii "fallback conditional write failed for " ++ e.key, ?_⟩
            rw [List.map_cons, List.map_cons, List.take_succ_cons,
              List.take_succ_cons, List.take_zero, Program.advanceWith_call, handle_get,
              if_neg hcurrent, Program.bind_bind, Store.putIfVersion_bind,
              Program.advanceWith_call, if_pos hrefused, hlosing]
            exact ⟨rfl, rfl, hphase, hdisk⟩
          next hput =>
            simp only at hrun
            rw [writeFallbackCommitArtifact, Program.bind_bind, Files.replace_bind] at hrun
            cases foreign with
            | nil => cases hrun
            | cons write foreign =>
              rw [List.map_cons, Program.advanceWith_call, handle_replaceFile] at hrun
              simp only [Bool.not_true, Bool.false_eq_true, ↓reduceIte, hsimulate,
                gt_iff_lt, Nat.lt_irrefl, false_and] at hrun
              obtain ⟨k, lost, r, hrest⟩ := ih (by simp) (onDisk_withArtifact _ _ _) hrun
              refine ⟨k + 3, lost, r, ?_⟩
              rw [List.map_cons, List.map_cons, List.map_cons,
                List.take_succ_cons, List.take_succ_cons, List.take_succ_cons,
                Program.advanceWith_call, handle_get, if_neg hcurrent, Program.bind_bind,
                Store.putIfVersion_bind, Program.advanceWith_call, if_neg hput]
              simp only
              rw [writeFallbackCommitArtifact, Program.bind_bind, Files.replace_bind,
                Program.advanceWith_call, handle_replaceFile]
              simp only [Bool.not_true, Bool.false_eq_true, ↓reduceIte, hsimulate,
                gt_iff_lt, Nat.lt_irrefl, false_and]
              exact hrest

/-! ### From the loss on -/

theorem run_losing_world (artifact : FallbackCommitArtifact) (path reason : Bytes) (w : World) :
    ((losing artifact path reason).run (handle kind) w).2 =
      ((resumeRollbackFallbackCommit artifact path {}).run (handle kind) w).2 := by
  rw [losing, Program.run_bind, Program.run_ret, rollbackCrashSafeArtifact, Program.run_bind]
  simp only
  split <;> rfl

theorem run_losing_error (artifact : FallbackCommitArtifact) (path reason : Bytes) (w : World) :
    ((losing artifact path reason).run (handle kind) w).1 ≠ .ok () := by
  rw [losing, Program.run_bind, Program.run_ret]
  exact nofun

/-- The rollback of a lost race succeeds exactly from a prefix. -/
theorem takenBack_iff {artifact : FallbackCommitArtifact} {reason : Bytes}
    (hb : Built artifact.entries) (hphase : artifact.phase ≠ .rolledBack)
    (hdisk : OnDisk path artifact w) :
    TakenBack path artifact.entries w ((losing artifact path reason).run (handle kind) w).2 ↔
      PrefixState artifact.entries w.store := by
  rw [run_losing_world]
  constructor
  · rintro ⟨-, hmarked⟩
    by_contra hstarts
    have hstill := (@safely_resumeRollback_conflict kind path _ _ {} (· = w) rfl
      hstarts).always.finally
    rw [hstill] at hmarked
    exact hphase (hmarked.phase hdisk)
  · intro hstarts
    have hsafe : (resumeRollbackFallbackCommit artifact path {}).Safely
      (handle kind) (fun _ => True) w
        (Undid path artifact.entries {}) :=
      Program.safely_logged_iff.1
        (safely_resumeRollback [] hb rfl hstarts (fun _ _ => trivial) fun _ _ => trivial)
    obtain ⟨-, -, hrestored, written, hwritten, -, hrolled⟩ := hsafe.ends
    exact ⟨fun e he _ => hrestored e he, written, hwritten, hrolled⟩

/-! ### The whole run -/

/-- The commit and what it has left to do among foreign moves, which begin when it has prepared. -/
def racing (txn : AgentTxnContext) (checks : List VersionCheck) (writes : List WriteOp)
    (foreign : List (MemoryKVStore → MemoryKVStore)) (w : World) :
    Prog (Except Bytes Unit) × World :=
  (commitWinnerWithoutBatchCrashSafe txn checks writes).advanceWith (handle .nonBatchMemory)
    (List.replicate (writes.length + 1) id ++ foreign.map onStore) w

/-- What is left of a commit once its entries have been applied or not. -/
def commitApplied (config : FallbackCommitConfig) :
    Except Bytes FallbackCommitArtifact → Prog (Except Bytes Unit)
  | .error reason => return .error reason
  | .ok artifact => do
    if !(← writeFallbackCommitArtifact { artifact with phase := .committed }
      config.artifactPath) then
      return .error (ascii "failed to persist fallback commit state")
    return .ok ()

/-- Where the foreign writer begins, the artifact is on disk and the apply loop is next. -/
theorem racing_eq {txn : AgentTxnContext} {checks : List VersionCheck} {writes : List WriteOp}
    (hchecks : ∀ write ∈ writes, (expectedVersions checks).lookup write.key =
      some (w.store.getVersion write.key)) :
    ∃ (f : Except Bytes FallbackCommitArtifact → Prog (Except Bytes Unit))
      (artifact : FallbackCommitArtifact),
      artifact.entries = writes.map (preparedEntry w.store) ∧ artifact.phase = .prepared ∧
      (∀ r, f (.error r) = .ret (.error r)) ∧
      (∀ a moves reason w, ((f (.ok a)).advanceWith (handle .nonBatchMemory) moves w).1 ≠
        .ret (.error reason)) ∧
      ∀ foreign, racing txn checks writes foreign w =
        (applyEntries txn.fallbackCommit artifact.entries artifact >>= f).advanceWith
          (handle .nonBatchMemory)
          (foreign.map onStore) (withArtifact txn.fallbackCommit.artifactPath artifact w) := by
  refine ⟨commitApplied txn.fallbackCommit,
    { txnId := txn.txnId, taskId := txn.taskId, phase := .prepared,
                                              entries := writes.map (preparedEntry w.store) }, rfl,
                                              rfl, fun _ => rfl, ?_, ?_⟩
  · intro a moves reason w
    cases moves with
    | nil => exact fun h => by cases h
    | cons move moves =>
      simp only [commitApplied]
      rw [writeFallbackCommitArtifact, Files.replace_bind, Program.advanceWith_call,
        handle_replaceFile]
      simp
  · intro foreign
    rw [racing, Program.advanceWith_append, Program.advanceWith_idle,
      commitWinnerWithoutBatchCrashSafe, advance_prepareEntries _ hchecks, List.nil_append]
    simp only
    rw [commitPrepared, writeFallbackCommitArtifact, Files.replace_bind,
      Program.advance_call, handle_replaceFile]
    rfl

/-- A commit that returns false after it has prepared has lost a race, and if nobody
else acts from then on it takes its writes back exactly if the store it lost in is at
a prefix of its entries. -/
theorem commitWinnerWithoutBatchCrashSafe_takesBack_iff (w : World) (txn : AgentTxnContext)
    (checks : List VersionCheck) (writes : List WriteOp)
    (foreign : List (MemoryKVStore → MemoryKVStore)) (reason : Bytes)
    (hnodup : (writes.map WriteOp.key).Nodup)
    (hsimulate : txn.fallbackCommit.simulateCrashAfterApplyCount = 0)
    (hchecks : ∀ write ∈ writes, (expectedVersions checks).lookup write.key =
      some (w.store.getVersion write.key))
    (hfalse : (racing txn checks writes foreign w).1 = .ret (.error reason))
    (hquiet : ∀ k artifact r, (racing txn checks writes (foreign.take k) w).1 =
      losing artifact txn.fallbackCommit.artifactPath r → ∀ move ∈ foreign.drop k, move = id) :
    ∃ k artifact r, (racing txn checks writes (foreign.take k) w).1 =
        losing artifact txn.fallbackCommit.artifactPath r ∧
      artifact.entries = writes.map (preparedEntry w.store) ∧
      (TakenBack txn.fallbackCommit.artifactPath artifact.entries
        (racing txn checks writes (foreign.take k) w).2
          (racing txn checks writes foreign w).2 ↔
        PrefixState artifact.entries (racing txn checks writes (foreign.take k) w).2.store) := by
  obtain ⟨f, prepared, hentries, hprepared, herror, hok, hracing⟩ := @racing_eq _ txn _ _ hchecks
  have hfalse' := hfalse
  rw [hracing] at hfalse'
  obtain ⟨k, lost, r, hlosing, hsame, hphase, hdisk⟩ :=
    exists_losing hsimulate herror (fun a moves w => hok a moves _ w)
    (by simp [hprepared]) (onDisk_withArtifact _ _ _) hfalse'
  rw [← List.map_take, ← hracing] at hlosing hdisk
  refine ⟨k, lost, r, hlosing, hsame.trans hentries, ?_⟩
  have hb : Built lost.entries := by
    rw [hsame, hentries]
    exact built_preparedEntries w.store hnodup
  have hidle : (foreign.drop k).map onStore = List.replicate (foreign.drop k).length id := by
    rw [← List.map_const]
    refine List.map_congr_left fun move hmove => ?_
    rw [hquiet k lost r hlosing move hmove]
    rfl
  have hsplit : racing txn checks writes foreign w =
    (losing lost txn.fallbackCommit.artifactPath r).advance
      (handle .nonBatchMemory) (foreign.drop k).length
          (racing txn checks writes (foreign.take k) w).2 := by
    rw [← hlosing, ← Program.advanceWith_idle, ← hidle, racing,
      racing, ← Program.advanceWith_append, List.append_assoc, ← List.map_append,
      List.take_append_drop]
  have hfinal : ((losing lost txn.fallbackCommit.artifactPath r).run (handle .nonBatchMemory)
      (racing txn checks writes (foreign.take k) w).2).2 =
          (racing txn checks writes foreign w).2 := by
    rw [← Program.run_advance _ (foreign.drop k).length, ← hsplit, hfalse]
    rfl
  rw [← hfinal]
  exact takenBack_iff hb hphase hdisk

def twoKeys : World where
  store := (MemoryKVStore.write {} (ascii "a") (ascii "1")).write (ascii "b") (ascii "1")

def crashSafe : AgentTxnContext := { fallbackCommit := { artifactPath := ascii "f" } }

def twoChecks : List VersionCheck := [⟨ascii "a", 1⟩, ⟨ascii "b", 1⟩]

def twoWrites : List WriteOp := [⟨ascii "a", ascii "2"⟩, ⟨ascii "b", ascii "2"⟩]

/-- A foreign writer that happens to write what the commit was about to write. -/
theorem commitWinnerWithoutBatchCrashSafe_takesBack_sameWrite :
    let foreign : List (MemoryKVStore → MemoryKVStore) :=
      (fun s => s.write (ascii "a") (ascii "2")) :: List.replicate 8 id
    ∃ k artifact r, (racing crashSafe twoChecks twoWrites (foreign.take k) twoKeys).1 =
        losing artifact crashSafe.fallbackCommit.artifactPath r ∧
      artifact.entries = twoWrites.map (preparedEntry twoKeys.store) ∧
      (TakenBack crashSafe.fallbackCommit.artifactPath artifact.entries
          (racing crashSafe twoChecks twoWrites (foreign.take k) twoKeys).2
          (racing crashSafe twoChecks twoWrites foreign twoKeys).2 ↔
        PrefixState artifact.entries
            (racing crashSafe twoChecks twoWrites (foreign.take k) twoKeys).2.store) := by
  intro foreign
  refine commitWinnerWithoutBatchCrashSafe_takesBack_iff twoKeys crashSafe
    twoChecks twoWrites foreign
    (ascii "fallback write version changed for a") (by decide) rfl (by decide) (by rfl) ?_
  intro k artifact r hlosing move hmove
  cases k with
  | zero =>
    -- before the foreign move the commit would still succeed
    have hrun := congrArg (fun p => (Program.run (handle .nonBatchMemory) p twoKeys).1) hlosing
    exact absurd hrun.symm (run_losing_error _ _ _ _)
  | succ k => exact List.eq_of_mem_replicate (List.mem_of_mem_drop hmove)

/-- The foreign writer changes the second key after the first is written. -/
def changesSecond : List (MemoryKVStore → MemoryKVStore) :=
  [id, id, id, fun s => s.write (ascii "b") (ascii "3"), id, id, id]

/-- The key that lost the race is in nobody's state, so nothing is taken back. -/
theorem commitWinnerWithoutBatchCrashSafe_not_takesBack :
    (racing crashSafe twoChecks twoWrites changesSecond twoKeys).1 =
        .ret (.error (ascii "fallback write version changed for b")) ∧
      (racing crashSafe twoChecks twoWrites changesSecond twoKeys).2.store.get (ascii "a") =
        { value := ascii "2", version := 2, exists_ := true } ∧
      ¬MarkedRolledBack (ascii "f")
          (racing crashSafe twoChecks twoWrites changesSecond twoKeys).2 := by
  refine ⟨rfl, rfl, fun hmarked => ?_⟩
  have hdisk : OnDisk (ascii "f")
      { phase := .applying, appliedCount := 1,
        entries := twoWrites.map (preparedEntry twoKeys.store) }
      (racing crashSafe twoChecks twoWrites changesSecond twoKeys).2 := rfl
  exact absurd (hmarked.phase hdisk) (by decide)

end DataAgentSystem.AgentTxn
