import DataAgentSystem.AgentTxn.AgentTxnManager
import DataAgentSystem.Containers.RelatedLists

/-! What a commit does among other writers, on a store with atomic batches. Every
call before the batch only looks, so a commit that fails has changed nothing, and
one that succeeds has made its batch in a store that met all of its checks. -/

namespace DataAgentSystem.AgentTxn

open Text Intent Cache Branch Storage Interaction Containers

variable {kind : StoreKind}

/-! ### Version checks -/

namespace CommitManager

theorem addOrVerifyCheck_ok {objectId : Bytes} {version : UInt64}
    {seenChecks seenChecks' : UnorderedMap UInt64}
    (h : addOrVerifyCheck objectId version seenChecks = .ok seenChecks') :
    (seenChecks.lookup objectId = none ∨ seenChecks.lookup objectId = some version) ∧
      ∀ k, seenChecks'.lookup k = if k = objectId then some version else seenChecks.lookup k := by
  cases hl : seenChecks.lookup objectId with
  | none =>
    simp only [addOrVerifyCheck, UnorderedMap.emplace_of_none version hl] at h
    cases h
    exact ⟨.inl rfl, fun k => UnorderedMap.lookup_insert_eq_ite _ _ _ _⟩
  | some v =>
    simp only [addOrVerifyCheck, UnorderedMap.emplace_of_some version hl, hl] at h
    by_cases hv : v = version
    · simp only [hv, Bool.not_false, ne_eq, not_true_eq_false, and_false, ↓reduceIte] at h
      cases h
      refine ⟨.inr (by rw [hv]), fun k => ?_⟩
      split
      next hk => rw [hk, hl, hv]
      next => rfl
    · simp [hv] at h

/-- Checks collected from reads keep the ones there were and cover every read. -/
theorem readChecks_ok {reads : List ReadRecord} {seenChecks seenChecks' : UnorderedMap UInt64}
    (h : readChecks reads seenChecks = .ok seenChecks') :
    (∀ k v, seenChecks.lookup k = some v → seenChecks'.lookup k = some v) ∧
      ∀ read ∈ reads, seenChecks'.lookup read.objectId = some read.observedVersion := by
  induction reads generalizing seenChecks with
  | nil =>
    cases h
    exact ⟨fun k v hk => hk, fun read hread => absurd hread List.not_mem_nil⟩
  | cons read reads ih =>
    have hstep : ∃ seen, addOrVerifyCheck read.objectId read.observedVersion seenChecks = .ok seen ∧
        readChecks reads seen = .ok seenChecks' := by
      simp only [readChecks] at h
      split at h
      next => simp at h
      next hc => exact ⟨_, by simp only [addOrVerifyCheck, hc, ↓reduceIte], h⟩
    obtain ⟨seen, hadd, hreads⟩ := hstep
    obtain ⟨hfree, hlookup⟩ := addOrVerifyCheck_ok hadd
    obtain ⟨hkeep, hcover⟩ := ih hreads
    have hnew : seenChecks'.lookup read.objectId = some read.observedVersion :=
      hkeep _ _ (by rw [hlookup, if_pos rfl])
    refine ⟨fun k v hk => ?_, List.forall_mem_cons.2 ⟨hnew, hcover⟩⟩
    apply hkeep
    rw [hlookup]
    split
    next hid =>
      subst hid
      rw [hk] at hfree
      rcases hfree with hnone | hsome
      · simp at hnone
      · exact hsome.symm
    next => exact hk

/-- The version an entry is committed at. -/
def commitVersion (entry : ObjectCacheEntry) (intent : WriteIntent)
    (current : VersionedValue) : UInt64 :=
  if usesSemanticRebase intent.intentType then current.version else entry.baseVersion

theorem expectVersion_ok {entry : ObjectCacheEntry} {intent : WriteIntent}
    {current : VersionedValue} {seenChecks seenChecks' : UnorderedMap UInt64}
    (h : expectVersion entry intent current seenChecks = .ok seenChecks') :
    (usesSemanticRebase intent.intentType = true ∨ seenChecks.lookup entry.objectId = none ∨
        seenChecks.lookup entry.objectId = some entry.baseVersion) ∧
      ∀ k, seenChecks'.lookup k =
        if k = entry.objectId then some (commitVersion entry intent current)
          else seenChecks.lookup k := by
  unfold expectVersion at h
  split at h
  next hs =>
    cases h
    refine ⟨.inl hs, fun k => ?_⟩
    rw [UnorderedMap.lookup_insert_eq_ite, commitVersion, if_pos hs]
  next hs =>
    obtain ⟨hfree, hlookup⟩ := addOrVerifyCheck_ok h
    refine ⟨.inr hfree, fun k => ?_⟩
    rw [hlookup, commitVersion, if_neg hs]

/-! ### Resolving the buffer -/

/-- The entries a commit writes: those whose latest intent is not a read. -/
def written (latest : UnorderedMap WriteIntent) (entry : ObjectCacheEntry) : Bool :=
  (latest.lookup entry.objectId).any fun intent => intent.intentType ≠ .read

/-- A write is what its entry resolves to against a value the commit got. -/
structure Resolved (latest : UnorderedMap WriteIntent) (tr : List (Event Call World))
    (entry : ObjectCacheEntry) (write : WriteOp) : Prop where
  key : write.key = entry.objectId
  value : ∃ intent w, latest.lookup entry.objectId = some intent ∧ ⟨.get entry.objectId, w⟩ ∈ tr ∧
    (resolveWrite entry intent (w.store.get entry.objectId).value).success = true ∧
    write.value = (resolveWrite entry intent (w.store.get entry.objectId).value).value

theorem Resolved.mono {latest : UnorderedMap WriteIntent} {tr tr' : List (Event Call World)}
    {entry : ObjectCacheEntry} {write : WriteOp} (h : Resolved latest tr entry write)
    (htr : tr ⊆ tr') :
    Resolved latest tr' entry write := by
  obtain ⟨hkey, intent, w, hintent, hget, hvalue⟩ := h
  exact ⟨hkey, intent, w, hintent, htr hget, hvalue⟩

theorem keys_of_resolved {latest : UnorderedMap WriteIntent} {tr : List (Event Call World)}
    {entries : List ObjectCacheEntry} {writes : List WriteOp}
    (h : List.Forall₂ (Resolved latest tr) entries writes) :
    writes.map WriteOp.key = entries.map (·.objectId) :=
  (map_eq_of_forall₂ h fun _ _ hresolved => hresolved.key.symm).symm

theorem only_resolveEntries (latest : UnorderedMap WriteIntent) (entries : List ObjectCacheEntry)
    (seenChecks : UnorderedMap UInt64) (writes : List WriteOp) :
    (resolveEntries latest entries seenChecks writes).Only fun op => ∃ key, op = .get key := by
  induction entries generalizing seenChecks writes with
  | nil => exact Program.only_ret _
  | cons entry entries ih =>
    rw [resolveEntries]
    split
    next => exact Program.only_ret _
    next intent hintent =>
      rw [Store.get_bind, Program.only_call]
      refine ⟨⟨_, rfl⟩, fun current => ?_⟩
      dsimp only
      split
      next => exact Program.only_ret _
      next =>
        split
        next => exact ih _ _
        next =>
          split
          next => exact Program.only_ret _
          next => exact ih _ _

theorem readOnly_resolveEntries {latest : UnorderedMap WriteIntent}
    {entries : List ObjectCacheEntry} {seenChecks : UnorderedMap UInt64} {writes : List WriteOp}
    {tr : List (Event Call World)} {r : Except Bytes (UnorderedMap UInt64 × List WriteOp)}
    (h : (resolveEntries latest entries seenChecks writes).Interfered (handle kind) tr r) :
    ReadOnly tr :=
  readOnly_of_only
    ((only_resolveEntries latest entries seenChecks writes).mono fun _ => reads_of_get) h

/-- One successful round of the loop over the entries. -/
theorem resolveEntries_cons_ok {latest : UnorderedMap WriteIntent} {entry : ObjectCacheEntry}
    {entries : List ObjectCacheEntry} {seenChecks : UnorderedMap UInt64} {writes : List WriteOp}
    {tr : List (Event Call World)} {r : UnorderedMap UInt64 × List WriteOp}
    (h : (resolveEntries latest (entry :: entries) seenChecks writes).Interfered
      (handle kind) tr (.ok r)) :
    ∃ intent w rest, latest.lookup entry.objectId = some intent ∧
      tr = ⟨.get entry.objectId, w⟩ :: rest ∧
      (resolveWrite entry intent (w.store.get entry.objectId).value).success = true ∧
      (intent.intentType = .read ∧
          (resolveEntries latest entries seenChecks writes).Interfered (handle kind) rest (.ok r) ∨
        intent.intentType ≠ .read ∧ ∃ seen,
          expectVersion entry intent (w.store.get entry.objectId) seenChecks = .ok seen ∧
          (resolveEntries latest entries seen (writes ++ [{
            key := entry.objectId
            value := (resolveWrite entry intent (w.store.get entry.objectId).value).value
              }])).Interfered
              (handle kind) rest (.ok r)) := by
  rw [resolveEntries] at h
  split at h
  next => simp at h
  next intent hintent =>
    rw [Store.get_bind, Program.interfered_call] at h
    obtain ⟨w, rest, rfl, h⟩ := h
    refine ⟨intent, w, rest, hintent, rfl, ?_⟩
    dsimp only [handle] at h
    split at h
    next => simp at h
    next hsuccess =>
      have hs : (resolveWrite entry intent (w.store.get entry.objectId).value).success = true := by
        simpa using hsuccess
      refine ⟨hs, ?_⟩
      split at h
      next hskip =>
        refine .inl ⟨?_, h⟩
        by_contra hread
        rw [(shouldWrite_iff hs).2 hread] at hskip
        simp at hskip
      next hwrite =>
        refine .inr ⟨(shouldWrite_iff hs).1 (by simpa using hwrite), ?_⟩
        split at h
        next => simp at h
        next seen hseen => exact ⟨seen, hseen, h⟩

/-- The writes of a commit are its written entries, resolved, in buffer order. -/
theorem resolveEntries_writes {latest : UnorderedMap WriteIntent} {entries : List ObjectCacheEntry}
    {seenChecks seenChecks' : UnorderedMap UInt64} {writes writes' : List WriteOp}
    {tr : List (Event Call World)}
    (h : (resolveEntries latest entries seenChecks writes).Interfered (handle kind) tr
      (.ok (seenChecks', writes'))) :
    ∃ new, writes' = writes ++ new ∧
      List.Forall₂ (Resolved latest tr) (entries.filter (written latest)) new := by
  induction entries generalizing seenChecks writes tr with
  | nil =>
    obtain ⟨rfl, heq⟩ := Program.interfered_ret.1 h
    cases heq
    exact ⟨[], by simp, by simp⟩
  | cons entry entries ih =>
    obtain ⟨intent, w, rest, hintent, rfl, hs, ⟨hread, hrest⟩ | ⟨hread, seen, _, hrest⟩⟩ :=
      resolveEntries_cons_ok h
    · obtain ⟨new, hnew, hall⟩ := ih hrest
      have hskip : written latest entry = false := by simp [written, hintent, hread]
      refine ⟨new, hnew, ?_⟩
      rw [List.filter_cons_of_neg (by simp [hskip])]
      exact hall.imp fun _ _ hr => hr.mono (List.subset_cons_self _ _)
    · obtain ⟨new, hnew, hall⟩ := ih hrest
      have htake : written latest entry = true := by simp [written, hintent, hread]
      refine ⟨_ :: new, by rw [hnew, List.append_assoc]; rfl, ?_⟩
      rw [List.filter_cons_of_pos htake]
      refine .cons ⟨rfl, intent, w, hintent, List.mem_cons_self, hs, rfl⟩ ?_
      exact hall.imp fun _ _ hr => hr.mono (List.subset_cons_self _ _)

theorem resolveEntries_found {latest : UnorderedMap WriteIntent} {entries : List ObjectCacheEntry}
    {seenChecks : UnorderedMap UInt64} {writes : List WriteOp} {tr : List (Event Call World)}
    {r : UnorderedMap UInt64 × List WriteOp}
    (h : (resolveEntries latest entries seenChecks writes).Interfered (handle kind) tr (.ok r)) :
    ∀ entry ∈ entries, (latest.lookup entry.objectId).isSome := by
  induction entries generalizing seenChecks writes tr with
  | nil => exact fun e he => absurd he List.not_mem_nil
  | cons entry entries ih =>
    obtain ⟨intent, w, rest, hintent, rfl, hs, ⟨hread, hrest⟩ | ⟨hread, seen, _, hrest⟩⟩ :=
      resolveEntries_cons_ok h
    · exact List.forall_mem_cons.2 ⟨by rw [hintent]; rfl, ih hrest⟩
    · exact List.forall_mem_cons.2 ⟨by rw [hintent]; rfl, ih hrest⟩

/-- Resolving keeps every key checked and checks every key it writes. -/
theorem resolveEntries_isSome {latest : UnorderedMap WriteIntent} {entries : List ObjectCacheEntry}
    {seenChecks seenChecks' : UnorderedMap UInt64} {writes writes' : List WriteOp}
    {tr : List (Event Call World)}
    (h : (resolveEntries latest entries seenChecks writes).Interfered (handle kind) tr
      (.ok (seenChecks', writes'))) :
    (∀ k, (seenChecks.lookup k).isSome → (seenChecks'.lookup k).isSome) ∧
      ∀ entry ∈ entries.filter (written latest), (seenChecks'.lookup entry.objectId).isSome := by
  induction entries generalizing seenChecks writes tr with
  | nil =>
    obtain ⟨rfl, heq⟩ := Program.interfered_ret.1 h
    cases heq
    exact ⟨fun k hk => hk, fun e he => absurd he List.not_mem_nil⟩
  | cons entry entries ih =>
    obtain ⟨intent, w, rest, hintent, rfl, hs, ⟨hread, hrest⟩ | ⟨hread, seen, hseen, hrest⟩⟩ :=
      resolveEntries_cons_ok h
    · have hskip : written latest entry = false := by simp [written, hintent, hread]
      rw [List.filter_cons_of_neg (by simp [hskip])]
      exact ih hrest
    · have htake : written latest entry = true := by simp [written, hintent, hread]
      obtain ⟨hkeep, hcover⟩ := ih hrest
      obtain ⟨-, hlookup⟩ := expectVersion_ok hseen
      rw [List.filter_cons_of_pos htake]
      refine ⟨fun k hk => hkeep k ?_, List.forall_mem_cons.2 ⟨hkeep _ ?_, hcover⟩⟩
      · rw [hlookup]
        split
        next => rfl
        next => exact hk
      · rw [hlookup, if_pos rfl]
        rfl

/-- A key whose latest intent is not rebased keeps its check, and its written entry
is checked at the base version. -/
theorem resolveEntries_strict {latest : UnorderedMap WriteIntent} {entries : List ObjectCacheEntry}
    {seenChecks seenChecks' : UnorderedMap UInt64} {writes writes' : List WriteOp}
    {tr : List (Event Call World)}
    (h : (resolveEntries latest entries seenChecks writes).Interfered (handle kind) tr
      (.ok (seenChecks', writes')))
    {k : Bytes} (hk : ∀ intent, latest.lookup k = some intent →
      usesSemanticRebase intent.intentType = false) :
    (∀ v, seenChecks.lookup k = some v → seenChecks'.lookup k = some v) ∧
      ∀ entry ∈ entries.filter (written latest), entry.objectId = k →
        seenChecks'.lookup k = some entry.baseVersion := by
  induction entries generalizing seenChecks writes tr with
  | nil =>
    obtain ⟨rfl, heq⟩ := Program.interfered_ret.1 h
    cases heq
    exact ⟨fun v hv => hv, fun e he => absurd he List.not_mem_nil⟩
  | cons entry entries ih =>
    obtain ⟨intent, w, rest, hintent, rfl, hs, ⟨hread, hrest⟩ | ⟨hread, seen, hseen, hrest⟩⟩ :=
      resolveEntries_cons_ok h
    · have hskip : written latest entry = false := by simp [written, hintent, hread]
      rw [List.filter_cons_of_neg (by simp [hskip])]
      exact ih hrest
    · have htake : written latest entry = true := by simp [written, hintent, hread]
      obtain ⟨hkeep, hcover⟩ := ih hrest
      obtain ⟨hfree, hlookup⟩ := expectVersion_ok hseen
      rw [List.filter_cons_of_pos htake]
      by_cases hid : k = entry.objectId
      · subst hid
        have hstrict := hk intent hintent
        have hbase : seen.lookup entry.objectId = some entry.baseVersion := by
          rw [hlookup, if_pos rfl, commitVersion, if_neg (by simp [hstrict])]
        refine ⟨fun v hv => hkeep v ?_, List.forall_mem_cons.2 ⟨fun _ => hkeep _ hbase, hcover⟩⟩
        rcases hfree with hsem | hnone | hsome
        · simp [hstrict] at hsem
        · simp [hnone] at hv
        · rw [hbase, ← hsome, hv]
      · refine ⟨fun v hv => hkeep v ?_, List.forall_mem_cons.2 ⟨fun h => absurd h.symm hid, hcover⟩⟩
        rw [hlookup, if_neg hid, hv]

/-! ### The batch -/

theorem lookup_latestIntents (log : IntentLog) (k : Bytes) :
    (latestIntents log).lookup k = log.entries.reverse.find? fun intent => intent.objectId = k := by
  rw [latestIntents, UnorderedMap.lookup_assignAll]
  simp

/-- The buffered entries a commit of the branch writes, in buffer order. -/
def writtenEntries (winner : BranchContext) : List ObjectCacheEntry :=
  winner.writeBuffer.orderedEntries.filter (written (latestIntents winner.intentLog))

/-- The calls `tr` of a commit that wrote `writes` as one batch, in the world `before`. -/
structure BatchCommit (winner : BranchContext) (tr : List (Event Call World))
    (seenChecks : UnorderedMap UInt64) (writes : List WriteOp) (before : World) : Prop where
  trace : ∃ looks, ReadOnly looks ∧
    tr = looks ++ [⟨.batchPutIfVersion (checksOf seenChecks) writes, before⟩]
  checked : ∀ k v, seenChecks.lookup k = some v → before.store.getVersion k = v
  found : ∀ entry ∈ winner.writeBuffer.orderedEntries,
    ((latestIntents winner.intentLog).lookup entry.objectId).isSome
  resolved : List.Forall₂ (Resolved (latestIntents winner.intentLog) tr)
    (writtenEntries winner) writes
  covered : ∀ entry ∈ writtenEntries winner, (seenChecks.lookup entry.objectId).isSome
  strict : ∀ k, (∀ intent, (latestIntents winner.intentLog).lookup k = some intent →
      usesSemanticRebase intent.intentType = false) →
    (∀ read ∈ winner.readSet.entries, read.objectId = k →
      seenChecks.lookup k = some read.observedVersion) ∧
      ∀ entry ∈ writtenEntries winner, entry.objectId = k →
        seenChecks.lookup k = some entry.baseVersion

theorem mem_checksOf {seenChecks : UnorderedMap UInt64} {k : Bytes} {v : UInt64}
    (h : seenChecks.lookup k = some v) :
    ({ key := k, expectedVersion := v } : VersionCheck) ∈ checksOf seenChecks :=
  List.mem_map.2 ⟨⟨k, v⟩, UnorderedMap.mem_entries_iff.2 h, rfl⟩

/-- The batch of a commit is carried out. -/
theorem BatchCommit.answered {winner : BranchContext} {tr : List (Event Call World)}
    {seenChecks : UnorderedMap UInt64} {writes : List WriteOp} {before : World}
    (h : BatchCommit winner tr seenChecks writes before) :
    before.store.batchPutIfVersion (checksOf seenChecks) writes =
      (true, before.store.applyWrites writes) := by
  apply MemoryKVStore.batchPutIfVersion_of_all
  intro check hcheck
  obtain ⟨⟨k, v⟩, hmem, rfl⟩ := List.mem_map.1 hcheck
  exact h.checked k v (UnorderedMap.mem_entries_iff.1 hmem)

theorem BatchCommit.after_batch {winner : BranchContext} {tr : List (Event Call World)}
    {seenChecks : UnorderedMap UInt64} {writes : List WriteOp} {before : World}
    (h : BatchCommit winner tr seenChecks writes before) :
    (handle .memory (.batchPutIfVersion (checksOf seenChecks) writes) before).2.store =
      before.store.applyWrites writes := by
  simp only [handle, World.withStore, StoreKind.batchPutIfVersion]
  rw [h.answered]

theorem commitWinner_ok {txn : AgentTxnContext} {winner : BranchContext}
    {tr : List (Event Call World)} {log : CommitLog}
    (h : (commitWinner txn winner).Interfered (handle .memory) tr (.ok log)) :
    ∃ seenChecks writes before, BatchCommit winner tr seenChecks writes before ∧
      log = commitLogOf seenChecks writes := by
  rw [commitWinner] at h
  split at h
  next => simp at h
  next seen hseen =>
    obtain ⟨tr₁, r, tr₂, rfl, hresolve, hbatch⟩ := Program.interfered_bind.1 h
    clear h
    cases r with
    | error reason => simp at hbatch
    | ok r =>
      obtain ⟨seenChecks, writes⟩ := r
      simp only [Store.supportsAtomicBatchConditionalWrite_bind, Program.interfered_call] at hbatch
      obtain ⟨w, tr₃, rfl, hbatch⟩ := hbatch
      simp only [handle, decide_true, ↓reduceIte, Store.batchPutIfVersion_bind,
        Program.interfered_call, World.withStore, StoreKind.batchPutIfVersion] at hbatch
      obtain ⟨before, tr₄, rfl, hbatch⟩ := hbatch
      have hlooks : ReadOnly (tr₁ ++ [⟨.supportsAtomicBatchConditionalWrite, w⟩]) := by
        rw [readOnly_append]
        exact ⟨readOnly_resolveEntries hresolve, by simp [Call.reads]⟩
      cases htrue : (before.store.batchPutIfVersion (checksOf seenChecks) writes).1 with
      | true =>
        simp only [htrue, ↓reduceIte, Program.pure_eq_ret, Program.interfered_ret,
          Except.ok.injEq] at hbatch
        obtain ⟨rfl, rfl⟩ := hbatch
        obtain ⟨hchecks, -⟩ := MemoryKVStore.batchPutIfVersion_true htrue
        obtain ⟨new, hnew, hall⟩ := resolveEntries_writes hresolve
        obtain ⟨-, hreads⟩ := readChecks_ok hseen
        rw [List.nil_append] at hnew
        subst hnew
        refine ⟨seenChecks, writes, before, ⟨⟨_, hlooks, by simp⟩, ?_, ?_, ?_, ?_, ?_⟩, rfl⟩
        · intro k v hk
          exact hchecks _ (mem_checksOf hk)
        · exact resolveEntries_found hresolve
        · exact hall.imp fun _ _ hr => hr.mono (List.subset_append_left _ _)
        · exact (resolveEntries_isSome hresolve).2
        · intro k hk
          obtain ⟨hkeep, hbase⟩ := resolveEntries_strict hresolve hk
          refine ⟨fun read hread hid => hkeep _ ?_, hbase⟩
          rw [← hid]
          exact hreads read hread
      | false => simp [htrue, Program.interfered_call, handle] at hbatch

/-- A call that leaves the store as it found it. -/
def KeepsStore (e : Event Call World) : Prop := (e.after (handle .memory)).store = e.before.store

/-- A call that only looks, or a batch that is turned down. -/
def Harmless (e : Event Call World) : Prop :=
  e.op.reads = true ∨ ∃ checks writes, e.op = .batchPutIfVersion checks writes ∧
    (e.before.store.batchPutIfVersion checks writes).1 = false

theorem Harmless.keepsStore {e : Event Call World} (h : Harmless e) : KeepsStore e := by
  obtain ⟨op, before⟩ := e
  rcases h with hreads | ⟨checks, writes, rfl, hfalse⟩
  · rw [KeepsStore, Event.after, handle_of_reads hreads]
  · have hrefused := MemoryKVStore.batchPutIfVersion_false hfalse
    simp only [KeepsStore, Event.after, handle, World.withStore,
      StoreKind.batchPutIfVersion, hrefused]

theorem harmless_of_readOnly {tr : List (Event Call World)} (htr : ReadOnly tr) :
    ∀ e ∈ tr, Harmless e :=
  fun e he => .inl (htr e he)

theorem commitWinner_error {txn : AgentTxnContext} {winner : BranchContext}
    {tr : List (Event Call World)} {reason : Bytes}
    (h : (commitWinner txn winner).Interfered (handle .memory) tr (.error reason)) :
    ∀ e ∈ tr, Harmless e := by
  rw [commitWinner] at h
  split at h
  next =>
    obtain ⟨rfl, -⟩ := Program.interfered_ret.1 h
    simp
  next seen hseen =>
    obtain ⟨tr₁, r, tr₂, rfl, hresolve, hbatch⟩ := Program.interfered_bind.1 h
    clear h
    have hlooks := harmless_of_readOnly (readOnly_resolveEntries hresolve)
    rw [List.forall_mem_append]
    refine ⟨hlooks, ?_⟩
    cases r with
    | error reason =>
      obtain ⟨rfl, -⟩ := Program.interfered_ret.1 hbatch
      simp
    | ok r =>
      obtain ⟨seenChecks, writes⟩ := r
      simp only [Store.supportsAtomicBatchConditionalWrite_bind, Program.interfered_call] at hbatch
      obtain ⟨w, tr₃, rfl, hbatch⟩ := hbatch
      simp only [handle, decide_true, ↓reduceIte, Store.batchPutIfVersion_bind,
        Program.interfered_call, World.withStore, StoreKind.batchPutIfVersion] at hbatch
      obtain ⟨before, tr₄, rfl, hbatch⟩ := hbatch
      cases hfalse : (before.store.batchPutIfVersion (checksOf seenChecks) writes).1 with
      | true => simp [hfalse] at hbatch
      | false =>
        simp only [hfalse, Bool.false_eq_true, ↓reduceIte, Program.interfered_call] at hbatch
        obtain ⟨w', tr₅, rfl, hbatch⟩ := hbatch
        simp only [handle, decide_true, ↓reduceIte, Program.pure_eq_ret,
          Program.interfered_ret] at hbatch
        obtain ⟨rfl, -⟩ := hbatch
        refine List.forall_mem_cons.2
          ⟨.inl rfl, List.forall_mem_cons.2 ⟨.inr ⟨_, _, rfl, hfalse⟩, ?_⟩⟩
        exact List.forall_mem_cons.2 ⟨.inl rfl, fun e he => absurd he List.not_mem_nil⟩

end CommitManager

namespace ValidationManager

theorem only_validateReads (latest : UnorderedMap IntentType) (reads : List ReadRecord) :
    (validateReads latest reads).Only fun op => op.reads = true := by
  induction reads with
  | nil => exact Program.only_ret _
  | cons read reads ih =>
    rw [validateReads]
    split
    next => exact ih
    next =>
      rw [Store.getVersion_bind, Program.only_call]
      refine ⟨rfl, fun version => ?_⟩
      split
      next => exact Program.only_ret _
      next => exact ih

theorem readOnly_validateReads {latest : UnorderedMap IntentType} {reads : List ReadRecord}
    {tr : List (Event Call World)} {v : ValidationResult}
    (h : (validateReads latest reads).Interfered (handle kind) tr v) : ReadOnly tr :=
  readOnly_of_only (only_validateReads latest reads) h

end ValidationManager

end DataAgentSystem.AgentTxn
