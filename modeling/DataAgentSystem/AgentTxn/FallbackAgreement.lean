import DataAgentSystem.AgentTxn.CommitWithoutBatch
import DataAgentSystem.AgentTxn.ReachedTransaction

/-! The three ways to commit compared, when nobody else acts. The batch checks every
read and every write; the plain fallback checks the writes only, which for the
transactions that occur comes to the same, since validation has looked at the
reads. The crash-safe fallback refuses what the plain one refuses, and besides
every commit that creates a key. -/

namespace DataAgentSystem.AgentTxn

open Text Intent Cache Branch Storage Interaction Containers CommitManager AgentTxnManager

/-- Every write is current. -/
def WritesCurrent (winner : BranchContext) (s : MemoryKVStore) : Prop :=
  ∀ entry ∈ writtenEntries winner, Current winner s entry

/-- Every key to be written is there. -/
def WritesExist (winner : BranchContext) (s : MemoryKVStore) : Prop :=
  ∀ entry ∈ writtenEntries winner, (s.get entry.objectId).exists_ = true

/-- The values and the existence of all keys are the same. -/
def SameContents (s s' : MemoryKVStore) : Prop :=
  ∀ k, (s'.get k).value = (s.get k).value ∧ (s'.get k).exists_ = (s.get k).exists_

theorem SameContents.refl (s : MemoryKVStore) : SameContents s s := fun _ => ⟨rfl, rfl⟩

theorem SameContents.symm {s s' : MemoryKVStore} (h : SameContents s s') : SameContents s' s :=
  fun k => ⟨(h k).1.symm, (h k).2.symm⟩

theorem TookBack.sameContents {keys : List Bytes} {s s' : MemoryKVStore} (h : TookBack keys s s') :
    SameContents s s' := h.restores

namespace CommitManager

variable {txn : AgentTxnContext} {winner : BranchContext} {w : World}
  {seenChecks : UnorderedMap UInt64}

/-- The plain path with a write that is not current. -/
theorem run_publish_plain_refused (hpath : txn.fallbackCommit.artifactPath = [])
    (h : Checks winner w.store seenChecks) (hstale : ¬WritesCurrent winner w.store) :
    ∃ reason w', (publish txn seenChecks (plannedWrites winner w.store)).run
      (handle .nonBatchMemory) w =
      (.error reason, w') ∧ SameContents w.store w'.store := by
  rcases exists_first_failure (Current winner w.store) (writtenEntries winner) with hall |
    ⟨front, entry, rest, hsplit, hfront, hentry⟩
  · exact absurd hall hstale
  · obtain ⟨reason, store, hrun, hback⟩ := run_publish_plain_stale hpath h hsplit hfront hentry
    exact ⟨reason, _, hrun, hback.sameContents⟩

/-- The crash-safe path with a key that is not there. -/
theorem run_publish_crashSafe_refused (hpath : txn.fallbackCommit.artifactPath ≠ [])
    (hsimulate : txn.fallbackCommit.simulateCrashAfterApplyCount = 0)
    (h : Checks winner w.store seenChecks) (hcurrent : WritesCurrent winner w.store)
    (hmissing : ¬WritesExist winner w.store) :
    ∃ reason w', (publish txn seenChecks (plannedWrites winner w.store)).run
      (handle .nonBatchMemory) w =
      (.error reason, w') ∧ SameContents w.store w'.store := by
  rcases exists_first_failure (fun entry => (w.store.get entry.objectId).exists_ = true)
      (writtenEntries winner) with
    hall | ⟨front, entry, rest, hsplit, hfront, hentry⟩
  · exact absurd hall hmissing
  · obtain ⟨reason, w', hrun, hback⟩ :=
      run_publish_crashSafe_missing hpath hsimulate h hcurrent hsplit hfront
      (Bool.eq_false_iff.2 hentry)
    exact ⟨reason, w', hrun, hback.sameContents⟩

/-! ### With an artifact and without -/

/-- The crash-safe commit does what the plain one does, and says so in its artifact. -/
structure AgreesWithPlain (path : Bytes) (plain safe : Except Bytes CommitLog × World) : Prop where
  answer : safe.1.isOk = plain.1.isOk
  contents : SameContents plain.2.store safe.2.store
  marked : safe.1.isOk = true → MarkedCommitted path safe.2

/-- The transaction with its artifact at a path, or without one. -/
def withArtifactPath (txn : AgentTxnContext) (path : Bytes) : AgentTxnContext :=
  { txn with fallbackCommit := { artifactPath := path } }

/-- With an artifact a commit does what it does without one, exactly if it is
refused anyway or creates no key. -/
theorem commitWinner_crashSafe_agrees_iff (txn : AgentTxnContext)
    (winner : BranchContext) (path : Bytes) (hpath : path ≠ []) (w : World) :
    AgreesWithPlain path
      ((commitWinner (withArtifactPath txn []) winner).run (handle .nonBatchMemory) w)
        ((commitWinner (withArtifactPath txn path) winner).run (handle .nonBatchMemory) w) ↔
      (Prepared winner w.store ∧ WritesCurrent winner w.store → WritesExist winner w.store) := by
  by_cases hprepared : Prepared winner w.store
  · obtain ⟨seenPlain, hplain, hrunPlain⟩ :=
      run_commitWinner_of_prepared .nonBatchMemory (withArtifactPath txn [])
      hprepared
    obtain ⟨seenSafe, hsafe, hrunSafe⟩ :=
      run_commitWinner_of_prepared .nonBatchMemory (withArtifactPath txn path)
      hprepared
    rw [hrunPlain, hrunSafe]
    by_cases hcurrent : WritesCurrent winner w.store
    · have hdone := @run_publish_plain (withArtifactPath txn []) _ _ _ rfl hplain hcurrent
      rw [hdone]
      by_cases hexists : WritesExist winner w.store
      · obtain ⟨w', hrun, hstore, hmarked⟩ :=
          @run_publish_crashSafe (withArtifactPath txn path) _ _ _ hpath rfl hsafe
          hcurrent hexists
        rw [hrun]
        refine ⟨fun _ _ => hexists, fun _ => ⟨rfl, ?_, fun _ => hmarked⟩⟩
        simp only [hstore]
        exact SameContents.refl _
      · obtain ⟨reason, w', hrun, -⟩ :=
          @run_publish_crashSafe_refused (withArtifactPath txn path) _ _ _ hpath rfl hsafe
          hcurrent hexists
        rw [hrun]
        constructor
        · intro h
          cases h.answer
        · exact fun h => absurd (h ⟨hprepared, hcurrent⟩) hexists
    · obtain ⟨reason, w', hrefused, hcontents⟩ :=
        @run_publish_plain_refused (withArtifactPath txn []) _ _ _ rfl hplain
        hcurrent
      obtain ⟨reason', hrefused'⟩ := @run_publish_crashSafe_stale (withArtifactPath txn path)
        _ _ _ hpath hsafe hcurrent
      rw [hrefused, hrefused']
      refine ⟨fun _ h => absurd h.2 hcurrent, fun _ => ⟨rfl, hcontents.symm, ?_⟩⟩
      intro h
      cases h
  · obtain ⟨reason, hplain⟩ :=
      run_commitWinner_of_not_prepared .nonBatchMemory (withArtifactPath txn []) hprepared
    obtain ⟨reason', hsafe⟩ :=
      run_commitWinner_of_not_prepared .nonBatchMemory (withArtifactPath txn path) hprepared
    rw [hplain, hsafe]
    refine ⟨fun _ h => absurd h.1 hprepared, fun _ => ⟨rfl, SameContents.refl _, ?_⟩⟩
    intro h
    cases h

/-- A branch that overwrites one object, which it found as given. -/
def overwriting (objectId payload : Bytes) (base : VersionedValue) : BranchContext :=
  BranchManager.recordWrite { branchId := ascii "b" }
    (BranchManager.newEntry objectId .generic base) .generic
    { objectId, intentType := .overwrite, payload }

def oneKey : World where
  store := MemoryKVStore.write {} (ascii "k") (ascii "v")

theorem commitWinner_crashSafe_agrees_update :
    AgreesWithPlain (ascii "f")
        ((commitWinner (withArtifactPath {} []) (overwriting (ascii "k") (ascii "w")
          (oneKey.store.get (ascii "k")))).run (handle .nonBatchMemory) oneKey)
        ((commitWinner (withArtifactPath {} (ascii "f")) (overwriting (ascii "k") (ascii "w")
          (oneKey.store.get (ascii "k")))).run (handle .nonBatchMemory) oneKey) ↔
      (Prepared (overwriting (ascii "k") (ascii "w") (oneKey.store.get (ascii "k"))) oneKey.store ∧
          WritesCurrent (overwriting (ascii "k") (ascii "w") (oneKey.store.get (ascii "k")))
            oneKey.store →
        WritesExist (overwriting (ascii "k") (ascii "w") (oneKey.store.get (ascii "k")))
          oneKey.store) :=
  commitWinner_crashSafe_agrees_iff {} _ (ascii "f") (by decide) oneKey

/-- With an artifact a new key is not created. -/
theorem commitWinner_crashSafe_not_agrees :
    ¬AgreesWithPlain (ascii "f")
      ((commitWinner (withArtifactPath {} []) (overwriting (ascii "k") (ascii "v") {})).run
        (handle .nonBatchMemory) {})
      ((commitWinner (withArtifactPath {} (ascii "f")) (overwriting (ascii "k") (ascii "v") {})).run
        (handle .nonBatchMemory) {}) := by
  intro h
  have hanswer := h.answer
  cases hanswer

end CommitManager

/-! ### In a batch and without -/

namespace AgentTxnManager

variable {txn : AgentTxnContext} {winner : BranchContext} {w : World}

/-- Once validation has looked at the reads, the writes decide. -/
theorem allCurrent_iff {s : MemoryKVStore} (hsynced : AllSynced (fun _ _ => True) txn)
    (hs : Selects txn winner) (hready : Ready winner s) :
    AllCurrent winner s ↔ WritesCurrent winner s := by
  refine ⟨fun h => h.1, fun h => ⟨h, fun read hread => ?_⟩⟩
  rcases hready.validated read hread with hrebased | hcurrent
  · refine .inr ((exists_writtenEntry_iff (AllBranches.findBranch hsynced hs.2) read.objectId).2 ?_)
    obtain ⟨intent, hintent, hrebase⟩ := (Option.any_eq_true _ _).1 hrebased
    refine ⟨intent, hintent, fun hread => ?_⟩
    rw [hread] at hrebase
    cases hrebase
  · exact .inl hcurrent

/-- How the plain commit of a transaction compares with the batch commit in a world. -/
structure AgreesWithBatch (w : World)
    (batch plain : (Except Bytes Bool × AgentTxnContext) × World) : Prop where
  answer : plain.1.1 = batch.1.1
  committed : batch.1.1 = .ok true → ∀ k, plain.2.store.get k = batch.2.store.get k
  refused : batch.1.1 ≠ .ok true → SameContents w.store batch.2.store ∧
    SameContents w.store plain.2.store

theorem agreesWithBatch_of_refused {batch plain : (Except Bytes Bool × AgentTxnContext) × World}
    (hbatch : batch.1.1 = .ok false) (hplain : plain.1.1 = .ok false)
    (hstore : SameContents w.store batch.2.store) (hstore' : SameContents w.store plain.2.store) :
    AgreesWithBatch w batch plain := by
  refine ⟨hplain.trans hbatch.symm, fun htrue => ?_, fun _ => ⟨hstore, hstore'⟩⟩
  rw [hbatch] at htrue
  cases htrue

/-- A transaction that commits by itself does the same with a batch and without. -/
theorem selectWinnerAndCommit_agrees (txn : AgentTxnContext) (hreached : Reached txn)
    (hpath : txn.fallbackCommit.artifactPath = []) (w : World) :
    AgreesWithBatch w ((selectWinnerAndCommit txn).run (handle .memory) w)
      ((selectWinnerAndCommit txn).run (handle .nonBatchMemory) w) := by
  by_cases hne : txn.branches = []
  · rw [selectWinnerAndCommit, hne]
    refine ⟨rfl, fun h => ?_, fun _ => ⟨SameContents.refl _, SameContents.refl _⟩⟩
    cases h
  obtain ⟨winner, hs⟩ := exists_selects hne
  by_cases hready : Ready winner w.store
  · obtain ⟨v, seen, hseen, hbatch⟩ := run_selectWinnerAndCommit_of_ready .memory hs hready
    obtain ⟨v', seen', hseen', hplain⟩ :=
      run_selectWinnerAndCommit_of_ready .nonBatchMemory hs hready
    have hiff := allCurrent_iff hreached.allSynced hs hready
    rw [hbatch, hplain]
    by_cases hcurrent : WritesCurrent winner w.store
    · rw [run_publish_memory txn hseen (hiff.2 hcurrent), run_publish_plain hpath hseen' hcurrent]
      exact ⟨rfl, fun _ k => rfl, fun h => absurd rfl h⟩
    · obtain ⟨reason, hrefused⟩ :=
        run_publish_memory_refused txn hseen (fun h => hcurrent (hiff.1 h))
        (plannedWrites winner w.store)
      obtain ⟨reason', w', hrefused', hcontents⟩ := run_publish_plain_refused hpath hseen' hcurrent
      rw [hrefused, hrefused']
      exact agreesWithBatch_of_refused rfl rfl (SameContents.refl _) hcontents
  · obtain ⟨v, hbatch⟩ := run_selectWinnerAndCommit_of_not_ready .memory hs hready
    obtain ⟨v', hplain⟩ := run_selectWinnerAndCommit_of_not_ready .nonBatchMemory hs hready
    rw [hbatch, hplain]
    exact agreesWithBatch_of_refused rfl rfl (SameContents.refl _) (SameContents.refl _)

/-- A world in which `k` holds a number. -/
def numberWorld (number : Bytes) : World where
  store := MemoryKVStore.write {} (ascii "k") number

/-- One branch writes `l` and goes back, the other one adds to `k` and reads `l`. -/
def addsAndReads : AgentTxnContext :=
  let txn := AgentTxnManager.createBranch (begin_ (ascii "txn:1") (ascii "1")) (ascii "a")
  let txn := (AgentTxnManager.createBranch txn (ascii "b")).savepoint (ascii "a") (ascii "s")
  let txn := ((txn.write (ascii "a") (ascii "l") .text
    { objectId := ascii "l", intentType := .append, payload := ascii "v" }).run (handle .memory)
      (numberWorld (ascii "5"))).1
  let txn := (txn.rollbackToSavepoint (ascii "a") (ascii "s")).2
  let txn := ((txn.write (ascii "b") (ascii "k") .generic
    { objectId := ascii "k", intentType := .delta, payload := ascii "2" }).run (handle .memory)
      (numberWorld (ascii "5"))).1
  let txn := ((txn.read (ascii "b") (ascii "l")).run (handle .memory) (numberWorld (ascii "5"))).1.2
  txn.stageBranch (ascii "b") (.finite 1) []

theorem reached_addsAndReads : Reached addsAndReads := by
  unfold addsAndReads
  refine .stageBranch (ascii "b") (.finite 1) []
    (.read .memory (ascii "b") (ascii "l") (numberWorld (ascii "5")) ?_)
  refine .write .memory (ascii "b") (ascii "k") .generic _ (numberWorld (ascii "5")) rfl ?_
  refine .rollbackToSavepoint (ascii "a") (ascii "s") ?_
  refine .write .memory (ascii "a") (ascii "l") .text _ (numberWorld (ascii "5")) rfl ?_
  refine .savepoint (ascii "a") (ascii "s") ?_
  exact .createBranch (ascii "b")
    (.createBranch (ascii "a") (.begin_ (ascii "txn:1") (ascii "1") {}))

/-- Somebody else has written the number meanwhile. -/
theorem selectWinnerAndCommit_agrees_addsAndReads :
    AgreesWithBatch (numberWorld (ascii "7"))
      ((selectWinnerAndCommit addsAndReads).run (handle .memory) (numberWorld (ascii "7")))
      ((selectWinnerAndCommit addsAndReads).run (handle .nonBatchMemory)
        (numberWorld (ascii "7"))) :=
  selectWinnerAndCommit_agrees addsAndReads reached_addsAndReads rfl (numberWorld (ascii "7"))

end AgentTxnManager

end DataAgentSystem.AgentTxn
