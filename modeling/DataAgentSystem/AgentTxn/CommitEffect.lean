import DataAgentSystem.AgentTxn.FallbackAgreement

/-! What a commit does when nobody else acts, read off the winner and the store it
meets: whether it returns true, and whether it leaves every key as it was. A commit
that is refused may still have changed keys, since taking a write back leaves a new
version of a key that existed before. -/

namespace DataAgentSystem.AgentTxn

open Text Intent Cache Branch Storage Interaction Containers CommitManager

variable {kind : StoreKind} {txn : AgentTxnContext} {winner : BranchContext}
  {w : World} {s : MemoryKVStore}

/-- The writes of the winner get through. -/
def GetsThrough (txn : AgentTxnContext) (winner : BranchContext) (s : MemoryKVStore) :
    StoreKind → Prop
  | .memory => AllCurrent winner s
  | .nonBatchMemory =>
    WritesCurrent winner s ∧ (txn.fallbackCommit.artifactPath ≠ [] → WritesExist winner s)

/-- Without a batch and without an artifact something stays changed: all writes are
made, or one that is made is of a key that existed. -/
def PlainTouches (winner : BranchContext) (s : MemoryKVStore) : Prop :=
  (WritesCurrent winner s ∧ writtenEntries winner ≠ []) ∨
    ∃ front entry rest, writtenEntries winner = front ++ entry :: rest ∧
      (∀ e ∈ front ++ [entry], Current winner s e) ∧ (s.get entry.objectId).exists_ = true

/-- With an artifact something stays changed: the first write is made, of a key that existed. -/
def SafeTouches (winner : BranchContext) (s : MemoryKVStore) : Prop :=
  WritesCurrent winner s ∧ ∃ entry rest, writtenEntries winner = entry :: rest ∧
    (s.get entry.objectId).exists_ = true

/-- The writes of the winner leave something changed. -/
def Touches (txn : AgentTxnContext) (winner : BranchContext) (s : MemoryKVStore) : StoreKind → Prop
  | .memory => AllCurrent winner s ∧ writtenEntries winner ≠ []
  | .nonBatchMemory =>
    if txn.fallbackCommit.artifactPath = [] then PlainTouches winner s else SafeTouches winner s

namespace CommitManager

/-- Writes that are made leave all keys as they were only if there are none. -/
theorem applyWrites_unchanged_iff :
    (∀ k, (s.applyWrites (plannedWrites winner s)).get k = s.get k) ↔
    writtenEntries winner = [] := by
  constructor
  · intro hsame
    by_contra hne
    obtain ⟨entry, hentry⟩ := List.exists_mem_of_ne_nil _ hne
    have hwrite : plannedWrite (latestIntents winner.intentLog) s entry ∈ plannedWrites winner s :=
      List.mem_map_of_mem hentry
    have hget := MemoryKVStore.get_applyWrites_of_mem (s := s) (nodup_plannedWrites winner s) hwrite
    rw [hsame] at hget
    exact version_add_one_ne _ (congrArg VersionedValue.version hget).symm
  · intro hnone k
    rw [plannedWrites, hnone]
    rfl

section Publish

variable {seenChecks : UnorderedMap UInt64}

/-- Whether the writes get through and whether they leave something changed. -/
structure PublishOutcome (kind : StoreKind) (txn : AgentTxnContext)
    (winner : BranchContext) (s : MemoryKVStore) (out : Except Bytes CommitLog × World) : Prop where
  ok : out.1.isOk = true ↔ GetsThrough txn winner s kind
  unchanged : (∀ k, out.2.store.get k = s.get k) ↔ ¬Touches txn winner s kind

theorem publishOutcome_memory (txn : AgentTxnContext) (h : Checks winner w.store seenChecks) :
    PublishOutcome .memory txn winner w.store
      ((publish txn seenChecks (plannedWrites winner w.store)).run (handle .memory) w) := by
  by_cases hcurrent : AllCurrent winner w.store
  · rw [run_publish_memory txn h hcurrent]
    refine ⟨iff_of_true rfl hcurrent, applyWrites_unchanged_iff.trans ?_⟩
    simp only [Touches, hcurrent, true_and, not_not]
  · obtain ⟨reason, hrun⟩ :=
      run_publish_memory_refused txn h hcurrent (plannedWrites winner w.store)
    rw [hrun]
    exact ⟨iff_of_false nofun hcurrent, iff_of_true (fun k => rfl) fun htouches =>
      hcurrent htouches.1⟩

/-- What is taken back is unchanged if no key of it existed. -/
theorem tookBack_unchanged_iff {front : List ObjectCacheEntry} {s' : MemoryKVStore}
    (h : TookBack (front.map (·.objectId)) s s') :
    (∀ k, s'.get k = s.get k) ↔ ∀ e ∈ front, (s.get e.objectId).exists_ = false := by
  rw [h.unchanged_iff]
  exact List.forall_mem_map

/-- The writes before the first one that is not current are the ones that are made. -/
theorem plainTouches_iff_of_stale {front rest : List ObjectCacheEntry} {entry : ObjectCacheEntry}
    (hsplit : writtenEntries winner = front ++ entry :: rest)
    (hfront : ∀ e ∈ front, Current winner s e) (hentry : ¬Current winner s entry) :
    PlainTouches winner s ↔ ∃ e ∈ front, (s.get e.objectId).exists_ = true := by
  constructor
  · rintro (⟨hall, -⟩ | ⟨front', entry', rest', hsplit', hcurrent, hexists⟩)
    · exact absurd (hall entry (by simp [hsplit])) hentry
    · refine ⟨entry', ?_, hexists⟩
      have hmade : front ++ [entry] <+: writtenEntries winner := ⟨rest, by simp [hsplit]⟩
      have hmade' : front' ++ [entry'] <+: writtenEntries winner := ⟨rest', by simp [hsplit']⟩
      rcases List.prefix_or_prefix_of_prefix hmade hmade' with hstarts | hstarts
      · exact absurd (hcurrent entry (hstarts.subset (by simp))) hentry
      · have hmem : entry' ∈ front ++ [entry] := hstarts.subset (by simp)
        rcases List.mem_append.1 hmem with hmem | hmem
        · exact hmem
        · rw [List.mem_singleton] at hmem
          exact absurd (hmem ▸ hcurrent entry' (by simp)) hentry
  · rintro ⟨e, he, hexists⟩
    obtain ⟨before, after, rfl⟩ := List.append_of_mem he
    refine .inr ⟨before, e,
      after ++ entry :: rest, by simp [hsplit], fun x hx => hfront x ?_, hexists⟩
    rcases List.mem_append.1 hx with hx | hx
    · exact List.mem_append_left _ hx
    · rw [List.mem_singleton.1 hx]
      exact he

theorem publishOutcome_plain (hpath : txn.fallbackCommit.artifactPath = [])
    (h : Checks winner w.store seenChecks) :
    PublishOutcome .nonBatchMemory txn winner w.store
      ((publish txn seenChecks (plannedWrites winner w.store)).run (handle .nonBatchMemory) w) := by
  have htouches : Touches txn winner w.store .nonBatchMemory ↔ PlainTouches winner w.store := by
    rw [Touches, if_pos hpath]
  rcases exists_first_failure (Current winner w.store) (writtenEntries winner) with hall |
    ⟨front, entry, rest, hsplit, hfront, hentry⟩
  · rw [run_publish_plain hpath h hall]
    refine ⟨iff_of_true rfl ⟨hall, fun hne => absurd hpath hne⟩, applyWrites_unchanged_iff.trans ?_⟩
    rw [htouches]
    constructor
    · rintro hnone (⟨-, hne⟩ | ⟨front, entry, rest, hsplit, -⟩)
      · exact hne hnone
      · simp [hnone] at hsplit
    · intro hnot
      by_contra hne
      exact hnot (.inl ⟨hall, hne⟩)
  · obtain ⟨reason, store, hrun, hback⟩ := run_publish_plain_stale hpath h hsplit hfront hentry
    rw [hrun]
    refine ⟨iff_of_false nofun fun hthrough => hentry (hthrough.1 entry (by simp [hsplit])),
      (tookBack_unchanged_iff hback).trans ?_⟩
    rw [htouches, plainTouches_iff_of_stale hsplit hfront hentry]
    simp

theorem publishOutcome_crashSafe (hpath : txn.fallbackCommit.artifactPath ≠ [])
    (hsimulate : txn.fallbackCommit.simulateCrashAfterApplyCount = 0)
    (h : Checks winner w.store seenChecks) :
    PublishOutcome .nonBatchMemory txn winner w.store
      ((publish txn seenChecks (plannedWrites winner w.store)).run (handle .nonBatchMemory) w) := by
  have htouches : Touches txn winner w.store .nonBatchMemory ↔ SafeTouches winner w.store := by
    rw [Touches, if_neg hpath]
  by_cases hcurrent : WritesCurrent winner w.store
  · rcases exists_first_failure (fun entry => (w.store.get entry.objectId).exists_ = true)
        (writtenEntries winner) with
      hall | ⟨front, entry, rest, hsplit, hfront, hentry⟩
    · obtain ⟨w', hrun, hstore, -⟩ := run_publish_crashSafe hpath hsimulate h hcurrent hall
      rw [hrun]
      refine ⟨iff_of_true rfl ⟨hcurrent, fun _ => hall⟩, ?_⟩
      rw [htouches, hstore]
      refine applyWrites_unchanged_iff.trans ⟨?_, fun hnot => ?_⟩
      · rintro hnone ⟨-, entry, rest, hsplit, -⟩
        simp [hnone] at hsplit
      · by_contra hne
        obtain ⟨entry, rest, hsplit⟩ := List.exists_cons_of_ne_nil hne
        exact hnot ⟨hcurrent, entry, rest, hsplit, hall entry (by simp [hsplit])⟩
    · obtain ⟨reason, w', hrun, hback⟩ :=
        run_publish_crashSafe_missing hpath hsimulate h hcurrent hsplit hfront
        (Bool.eq_false_iff.2 hentry)
      rw [hrun]
      refine ⟨iff_of_false nofun fun hthrough => hentry (hthrough.2 hpath entry (by simp [hsplit])),
        (tookBack_unchanged_iff hback).trans ?_⟩
      rw [htouches]
      constructor
      · rintro hmissing ⟨-, first, rest', hfirst, hexists⟩
        cases front with
        | nil =>
          rw [hsplit, List.nil_append, List.cons.injEq] at hfirst
          exact hentry (hfirst.1 ▸ hexists)
        | cons e front =>
          have hfalse := hmissing e List.mem_cons_self
          rw [hfront e List.mem_cons_self] at hfalse
          cases hfalse
      · intro hnot e he
        cases front with
        | nil => exact absurd he List.not_mem_nil
        | cons first front =>
          exact absurd ⟨hcurrent, first, front ++ entry :: rest, hsplit,
            hfront first List.mem_cons_self⟩ hnot
  · obtain ⟨reason, hrun⟩ := run_publish_crashSafe_stale hpath h hcurrent
    rw [hrun]
    exact ⟨iff_of_false nofun fun hthrough => hcurrent hthrough.1,
      iff_of_true (fun k => rfl) fun hnot => hcurrent (htouches.1 hnot).1⟩

end Publish

end CommitManager

/-! ### The whole transaction -/

namespace AgentTxnManager

/-- The commit of the winner succeeds on this store. -/
def Committable (kind : StoreKind) (txn : AgentTxnContext) (winner : BranchContext)
    (s : MemoryKVStore) : Prop :=
  Ready winner s ∧ GetsThrough txn winner s kind

/-- The commit of the winner changes some key of this store. -/
def Changes (kind : StoreKind) (txn : AgentTxnContext) (winner : BranchContext)
    (s : MemoryKVStore) : Prop :=
  Ready winner s ∧ Touches txn winner s kind

theorem publishOutcome (kind : StoreKind)
    (hsimulate : txn.fallbackCommit.simulateCrashAfterApplyCount = 0)
    {seenChecks : UnorderedMap UInt64} (h : Checks winner w.store seenChecks) :
    PublishOutcome kind txn winner w.store
      ((publish txn seenChecks (plannedWrites winner w.store)).run (handle kind) w) := by
  cases kind with
  | memory => exact publishOutcome_memory txn h
  | nonBatchMemory =>
    by_cases hpath : txn.fallbackCommit.artifactPath = []
    · exact publishOutcome_plain hpath h
    · exact publishOutcome_crashSafe hpath hsimulate h

theorem conclude_fst (txn : AgentTxnContext) (winner : BranchContext)
    (result : Except Bytes CommitLog) :
    (conclude txn winner result).1 = result.isOk := by cases result <;> rfl

theorem run_selectWinnerAndCommit_true_iff (kind : StoreKind) (hs : Selects txn winner)
    (hsimulate : txn.fallbackCommit.simulateCrashAfterApplyCount = 0) :
    ((selectWinnerAndCommit txn).run (handle kind) w).1.1 = .ok true ↔
      Committable kind txn winner w.store := by
  by_cases hready : Ready winner w.store
  · obtain ⟨v, seen, hseen, hrun⟩ := run_selectWinnerAndCommit_of_ready kind hs hready
    have hout := publishOutcome kind hsimulate hseen
    rw [hrun, Committable, and_iff_right hready, ← hout.ok]
    simp only [conclude_fst, Except.ok.injEq]
  · obtain ⟨v, hrun⟩ := run_selectWinnerAndCommit_of_not_ready kind hs hready
    rw [hrun]
    exact iff_of_false nofun fun h => hready h.1

theorem run_selectWinnerAndCommit_unchanged_iff (kind : StoreKind) (hs : Selects txn winner)
    (hsimulate : txn.fallbackCommit.simulateCrashAfterApplyCount = 0) :
    (∀ k, ((selectWinnerAndCommit txn).run (handle kind) w).2.store.get k = w.store.get k) ↔
      ¬Changes kind txn winner w.store := by
  by_cases hready : Ready winner w.store
  · obtain ⟨v, seen, hseen, hrun⟩ := run_selectWinnerAndCommit_of_ready kind hs hready
    have hout := publishOutcome kind hsimulate hseen
    rw [hrun, Changes, and_iff_right hready, ← hout.unchanged]
  · obtain ⟨v, hrun⟩ := run_selectWinnerAndCommit_of_not_ready kind hs hready
    rw [hrun]
    exact iff_of_true (fun k => rfl) fun h => hready h.1

end AgentTxnManager

end DataAgentSystem.AgentTxn
