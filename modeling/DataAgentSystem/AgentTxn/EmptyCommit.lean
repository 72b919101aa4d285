import DataAgentSystem.AgentTxn.CommitOutcome
import DataAgentSystem.AgentTxn.FallbackStates

/-! Commits that write nothing. On a store with atomic batches a commit among other
writers leaves the store alone and still succeeds, exactly if its winner has nothing
to write and everything it has read is still current whenever versions are checked. -/

namespace DataAgentSystem.AgentTxn

open Text Intent Cache Branch Storage Interaction Containers

variable {kind : StoreKind}

/-- The reads agree, and the latest intent on every buffered object only reads. -/
structure NothingToWrite (winner : BranchContext) : Prop where
  agree : CommitManager.Agree winner.readSet.entries
  reads : ∀ entry ∈ winner.writeBuffer.orderedEntries, ∃ intent,
    (CommitManager.latestIntents winner.intentLog).lookup entry.objectId = some intent ∧
      intent.intentType = .read

/-- The call looks at versions that have been read before. -/
def asksFor (op : Call) (objectId : Bytes) : Prop :=
  op = .getVersion objectId ∨ ∃ checks writes, op = .batchPutIfVersion checks writes

/-- Whenever versions are checked, what was read is at the version that was read. -/
def ReadsStill (reads : List ReadRecord) (tr : List (Event Call World)) : Prop :=
  ∀ e ∈ tr, ∀ read ∈ reads, asksFor e.op read.objectId →
    e.before.store.getVersion read.objectId = read.observedVersion

theorem ReadsStill.of_append {reads : List ReadRecord} {tr tr' : List (Event Call World)}
    (h : ReadsStill reads (tr ++ tr')) : ReadsStill reads tr ∧ ReadsStill reads tr' :=
  ⟨fun e he => h e (List.mem_append_left _ he), fun e he => h e (List.mem_append_right _ he)⟩

theorem ReadsStill.append {reads : List ReadRecord} {tr tr' : List (Event Call World)}
    (h : ReadsStill reads tr) (h' : ReadsStill reads tr') : ReadsStill reads (tr ++ tr') := by
  intro e he
  rcases List.mem_append.1 he with hmem | hmem
  · exact h e hmem
  · exact h' e hmem

namespace ValidationManager

/-- Validation succeeds if everything is as it was read. -/
theorem validateReads_of_still {latest : UnorderedMap IntentType} {reads : List ReadRecord}
    {tr : List (Event Call World)} {v : ValidationResult}
    (h : (validateReads latest reads).Interfered (handle kind) tr v)
    (hstill : ReadsStill reads tr) :
    v.success = true := by
  induction reads generalizing tr with
  | nil =>
    obtain ⟨-, rfl⟩ := Program.interfered_ret.1 h
    rfl
  | cons read reads ih =>
    rw [validateReads] at h
    split at h
    next => exact ih h fun e he r hr => hstill e he r (List.mem_cons_of_mem _ hr)
    next =>
      rw [Store.getVersion_bind, Program.interfered_call] at h
      obtain ⟨w, rest, rfl, h⟩ := h
      have hcurrent := hstill _ List.mem_cons_self read List.mem_cons_self (.inl rfl)
      split at h
      next hmoved => exact absurd hcurrent hmoved
      next =>
        exact ih h fun e he r hr =>
          hstill e (List.mem_cons_of_mem _ he) r (List.mem_cons_of_mem _ hr)

/-- Validation that succeeds has found everything it asked for as it was read. -/
theorem still_of_validateReads {latest : UnorderedMap IntentType} {reads : List ReadRecord}
    {tr : List (Event Call World)} {v : ValidationResult}
    (h : (validateReads latest reads).Interfered (handle kind) tr v) (hv : v.success = true)
    (hagree : CommitManager.Agree reads) : ReadsStill reads tr := by
  intro e he read hread hasks
  obtain ⟨r, hr, -, hop, hmet⟩ := (validateReads_success h hv).2 e he
  rcases hasks with hversion | ⟨checks, writes, hbatch⟩
  · have hid : r.objectId = read.objectId := Call.getVersion.inj (hop.symm.trans hversion)
    rw [← hid, hmet]
    exact hagree r hr read hread hid
  · cases hop.symm.trans hbatch

end ValidationManager

namespace CommitManager

/-- Entries that only read resolve to no writes and add no checks. -/
theorem resolveEntries_of_reads {latest : UnorderedMap WriteIntent}
    {entries : List ObjectCacheEntry} {seenChecks : UnorderedMap UInt64} {writes : List WriteOp}
    {tr : List (Event Call World)} {r : Except Bytes (UnorderedMap UInt64 × List WriteOp)}
    (h : (resolveEntries latest entries seenChecks writes).Interfered (handle kind) tr r)
    (hreads : ∀ entry ∈ entries, ∃ intent, latest.lookup entry.objectId = some intent ∧
      intent.intentType = .read) :
    r = .ok (seenChecks, writes) := by
  induction entries generalizing tr with
  | nil => exact (Program.interfered_ret.1 h).2.symm
  | cons entry entries ih =>
    rw [List.forall_mem_cons] at hreads
    obtain ⟨⟨intent, hintent, hread⟩, hrest⟩ := hreads
    rw [resolveEntries, hintent] at h
    simp only [Store.get_bind, Program.interfered_call] at h
    obtain ⟨w, rest, rfl, h⟩ := h
    simp only [handle_get, resolveWrite_read _ hread] at h
    exact ih h hrest

/-- A commit with nothing to write tries a batch of no writes that checks its reads. -/
theorem commitWinner_of_nothing {txn : AgentTxnContext} {winner : BranchContext}
    (hn : NothingToWrite winner) {tr : List (Event Call World)} {r : Except Bytes CommitLog}
    (h : (commitWinner txn winner).Interfered (handle .memory) tr r) :
    ∃ seen before, readChecks winner.readSet.entries ∅ = .ok seen ∧
      (⟨.batchPutIfVersion (checksOf seen) [], before⟩ : Event Call World) ∈ tr ∧
      (r.isOk = true ↔ ∀ check ∈ checksOf seen,
        before.store.getVersion check.key = check.expectedVersion) ∧
      ∀ e ∈ tr, (∃ key, e.op = .get key) ∨ e.op = .supportsAtomicBatchConditionalWrite ∨
        e = ⟨.batchPutIfVersion (checksOf seen) [], before⟩ := by
  have hchecks : ∃ seen, readChecks winner.readSet.entries ∅ = .ok seen :=
    readChecks_ok_iff.2 ⟨hn.agree, fun read _ v hv => by simp at hv⟩
  obtain ⟨seen, hseen⟩ := hchecks
  rw [commitWinner_eq, hseen] at h
  simp only at h
  obtain ⟨resolving, resolved, publishing, rfl, hresolve, hpublish⟩ := Program.interfered_bind.1 h
  have hgets := (only_resolveEntries _ _ _ _).interfered hresolve
  obtain rfl := resolveEntries_of_reads hresolve hn.reads
  simp only [publish, Store.supportsAtomicBatchConditionalWrite_bind,
    Program.interfered_call] at hpublish
  obtain ⟨w, rest, rfl, hpublish⟩ := hpublish
  simp only [handle, decide_true, ↓reduceIte, Store.batchPutIfVersion_bind,
    Program.interfered_call, World.withStore, StoreKind.batchPutIfVersion] at hpublish
  obtain ⟨before, rest', rfl, hpublish⟩ := hpublish
  have hrest : (r.isOk = true ↔ ∀ check ∈ checksOf seen,
    before.store.getVersion check.key = check.expectedVersion) ∧
      ∀ e ∈ rest', e.op = .supportsAtomicBatchConditionalWrite := by
    cases hanswer : (before.store.batchPutIfVersion (checksOf seen) []).1 with
    | true =>
      simp only [hanswer, ↓reduceIte, Program.pure_eq_ret, Program.interfered_ret] at hpublish
      obtain ⟨rfl, rfl⟩ := hpublish
      exact ⟨⟨fun _ => (MemoryKVStore.batchPutIfVersion_true hanswer).1, fun _ => rfl⟩,
        fun e he => absurd he List.not_mem_nil⟩
    | false =>
      simp only [hanswer, Bool.false_eq_true, ↓reduceIte, Program.interfered_call, handle,
        decide_true, Program.pure_eq_ret, Program.interfered_ret] at hpublish
      obtain ⟨w', rest'', rfl, rfl, rfl⟩ := hpublish
      refine ⟨⟨fun h => absurd h Bool.false_ne_true, fun hall => ?_⟩,
        fun e he => by rw [List.mem_singleton.1 he]⟩
      rw [MemoryKVStore.batchPutIfVersion_of_all [] hall] at hanswer
      cases hanswer
  refine ⟨seen, before, hseen, by simp, hrest.1, fun e he => ?_⟩
  rcases List.mem_append.1 he with hresolving | hpublishing
  · exact .inl (hgets e hresolving)
  · rcases List.mem_cons.1 hpublishing with rfl | hmem
    · exact .inr (.inl rfl)
    · rcases List.mem_cons.1 hmem with rfl | hmem
      · exact .inr (.inr rfl)
      · exact .inr (.inl (hrest.2 e hmem))

/-- A batch that writes changes the store. -/
theorem applyWrites_eq_self_iff {s : MemoryKVStore} {writes : List WriteOp}
    (hnodup : (writes.map WriteOp.key).Nodup) :
    s.applyWrites writes = s ↔ writes = [] := by
  constructor
  · intro h
    cases writes with
    | nil => rfl
    | cons write writes =>
      have hget := MemoryKVStore.get_applyWrites_of_mem (s := s) hnodup List.mem_cons_self
      rw [h] at hget
      exact absurd (congrArg VersionedValue.version hget) (version_add_one_ne _).symm
  · rintro rfl
    rfl

end CommitManager

namespace AgentTxnManager

open CommitManager

variable {txn txn' : AgentTxnContext} {winner : BranchContext} {tr : List (Event Call World)}
  {r : Except Bytes Bool}

/-- With nothing to write and everything as it was read, a commit succeeds and leaves the store
alone. -/
theorem selectWinnerAndCommit_of_nothing (hs : Selects txn winner)
    (hrun : (selectWinnerAndCommit txn).Interfered (handle .memory) tr (r, txn'))
    (hn : NothingToWrite winner) (hstill : ReadsStill winner.readSet.entries tr) :
    r = .ok true ∧ ∀ e ∈ tr, KeepsStore e := by
  obtain ⟨v, looks, hvalidate, ⟨hv, rfl, -, -⟩ | ⟨hv, committing, result, rfl, hcommit, rfl, -⟩⟩ :=
    selectWinnerAndCommit_steps hs hrun
  · rw [ValidationManager.validateReads_of_still hvalidate hstill] at hv
    cases hv
  · have hlooks := ValidationManager.readOnly_validateReads hvalidate
    have hn' : NothingToWrite { winner with status := .winner } := ⟨hn.agree, hn.reads⟩
    obtain ⟨seen, before, hseen, hbatch, hok, hcalls⟩ := commitWinner_of_nothing hn' hcommit
    have hmet : ∀ check ∈ checksOf seen, before.store.getVersion check.key =
        check.expectedVersion := by
      intro check hcheck
      obtain ⟨⟨k, version⟩, hentry, rfl⟩ := List.mem_map.1 hcheck
      have hread := (lookup_readChecks hseen k version).1 (UnorderedMap.mem_entries_iff.1 hentry)
      simp only [AList.lookup_empty, reduceCtorEq, false_or] at hread
      obtain ⟨read, hread, rfl, rfl⟩ := hread
      exact hstill.of_append.2 _ hbatch read hread (.inr ⟨_, _, rfl⟩)
    refine ⟨by rw [hok.2 hmet], fun e he => ?_⟩
    rcases List.mem_append.1 he with hlook | hcommitting
    · exact (harmless_of_readOnly hlooks e hlook).keepsStore
    · rcases hcalls e hcommitting with ⟨key, hop⟩ | hop | rfl
      · exact Harmless.keepsStore (.inl (by rw [hop]; rfl))
      · exact Harmless.keepsStore (.inl (by rw [hop]; rfl))
      · simp only [KeepsStore, Event.after, handle, World.withStore, StoreKind.batchPutIfVersion,
          MemoryKVStore.batchPutIfVersion_of_all [] hmet, MemoryKVStore.applyWrites_nil]

/-- A commit that writes nothing has nothing to write. -/
theorem nothingToWrite_of_noWrites {before : World} {seenChecks : UnorderedMap UInt64}
    {log : CommitLog} (hcommit : (commitWinner txn winner).Interfered (handle .memory) tr (.ok log))
    (hbatch : BatchCommit winner tr seenChecks [] before) : NothingToWrite winner := by
  constructor
  · rw [commitWinner_eq] at hcommit
    cases hseen : readChecks winner.readSet.entries ∅ with
    | error reason => simp [hseen] at hcommit
    | ok seen => exact (readChecks_ok_iff.1 ⟨seen, hseen⟩).1
  · intro entry hentry
    obtain ⟨intent, hintent⟩ := Option.isSome_iff_exists.1 (hbatch.found entry hentry)
    refine ⟨intent, hintent, ?_⟩
    by_contra hread
    have hnone : writtenEntries winner = [] := List.forall₂_nil_right_iff.1 hbatch.resolved
    have hmem : entry ∈ writtenEntries winner :=
      mem_writtenEntries.2 ⟨hentry, intent, hintent, hread⟩
    rw [hnone] at hmem
    exact List.not_mem_nil hmem

/-- A commit among other writers succeeds and leaves the store alone exactly if it
has nothing to write and everything is as it was read when versions are checked. -/
theorem selectWinnerAndCommit_keepsStore_iff (hs : Selects txn winner)
    (hrun : (selectWinnerAndCommit txn).Interfered (handle .memory) tr (r, txn')) :
    (r = .ok true ∧ ∀ e ∈ tr, KeepsStore e) ↔ NothingToWrite winner ∧
      ReadsStill winner.readSet.entries tr := by
  refine ⟨?_, fun h => selectWinnerAndCommit_of_nothing hs hrun h.1 h.2⟩
  rintro ⟨rfl, hkeeps⟩
  obtain ⟨v, looks, hvalidate,
      ⟨-, -, hfalse, -⟩ | ⟨hv, committing, result, rfl, hcommit, hresult, -⟩⟩ :=
    selectWinnerAndCommit_steps hs hrun
  · cases hfalse
  · obtain ⟨log, rfl⟩ : ∃ log, result = .ok log := by
      cases result with
      | error reason => cases hresult
      | ok log => exact ⟨log, rfl⟩
    obtain ⟨seenChecks, writes, before, hbatch, -⟩ := commitWinner_ok hcommit
    obtain ⟨hstore, -, hnodup⟩ := get_after_batch hbatch
    have hmem : (⟨.batchPutIfVersion (checksOf seenChecks) writes, before⟩ : Event Call World) ∈
        committing := by
      obtain ⟨looks', -, rfl⟩ := hbatch.trace
      simp
    have hsame : before.store.applyWrites writes = before.store :=
      hstore.symm.trans (hkeeps _ (List.mem_append_right _ hmem))
    rw [applyWrites_eq_self_iff hnodup] at hsame
    subst hsame
    have hn : NothingToWrite { winner with status := .winner } :=
      nothingToWrite_of_noWrites hcommit hbatch
    refine ⟨⟨hn.agree, hn.reads⟩, ?_⟩
    apply (ValidationManager.still_of_validateReads hvalidate hv hn.agree).append
    obtain ⟨seen, before', hseen, -, hok, hcalls⟩ := commitWinner_of_nothing hn hcommit
    intro e he read hread hasks
    rcases hcalls e he with ⟨key, hop⟩ | hop | rfl
    · rw [hop] at hasks
      rcases hasks with hversion | ⟨checks, writes, hwrite⟩
      · cases hversion
      · cases hwrite
    · rw [hop] at hasks
      rcases hasks with hversion | ⟨checks, writes, hwrite⟩
      · cases hversion
      · cases hwrite
    · exact hok.1 rfl _ (mem_checksOf ((readChecks_ok hseen).2 read hread))

end AgentTxnManager

end DataAgentSystem.AgentTxn
