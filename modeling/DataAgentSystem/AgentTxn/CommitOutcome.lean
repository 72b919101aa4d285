import DataAgentSystem.AgentTxn.AllOrNothing
import DataAgentSystem.Interaction.CrashLogic

/-! What a commit comes to when nobody else acts. Up to the writes it only looks, so
whether it gets there is a condition on the winner and the store it starts in, and
so are the writes it then makes. -/

namespace DataAgentSystem.AgentTxn

open Text Intent Cache Branch Storage Interaction Containers

variable {kind : StoreKind}

/-! ### Validation -/

namespace ValidationManager

theorem run_validateReads (kind : StoreKind) (latest : UnorderedMap IntentType)
    (reads : List ReadRecord) (w : World) :
    ((validateReads latest reads).run (handle kind) w).1.success = true ↔
      ∀ read ∈ reads, (latest.lookup read.objectId).any usesSemanticRebase = true ∨
        w.store.getVersion read.objectId = read.observedVersion := by
  induction reads with
  | nil => simp [validateReads]
  | cons read reads ih =>
    rw [List.forall_mem_cons, ← ih, validateReads]
    cases hrebase : (latest.lookup read.objectId).any usesSemanticRebase with
    | true => simp
    | false =>
      rw [if_neg (by simp), Store.getVersion_bind, Program.run_call, handle_getVersion]
      by_cases hversion : w.store.getVersion read.objectId = read.observedVersion
      · rw [if_neg (by simp [hversion])]
        simp [hversion]
      · rw [if_pos hversion]
        simp [hversion]

/-- A validation that succeeds has found every object that is not rebased at its
recorded version, and has asked for nothing else. -/
theorem validateReads_success {latest : UnorderedMap IntentType} {reads : List ReadRecord}
    {v : ValidationResult} (h : (validateReads latest reads).Interfered (handle kind) tr v)
    (hv : v.success = true) :
    (∀ read ∈ reads, (latest.lookup read.objectId).any usesSemanticRebase = false →
        ∃ before, (⟨.getVersion read.objectId, before⟩ : Event Call World) ∈ tr ∧
          before.store.getVersion read.objectId = read.observedVersion) ∧
      ∀ e ∈ tr, ∃ read ∈ reads, (latest.lookup read.objectId).any usesSemanticRebase = false ∧
        e.op = .getVersion read.objectId ∧ e.before.store.getVersion read.objectId =
          read.observedVersion := by
  induction reads generalizing tr with
  | nil =>
    obtain ⟨rfl, -⟩ := Program.interfered_ret.1 h
    exact ⟨fun read hread => absurd hread List.not_mem_nil, fun e he => absurd he List.not_mem_nil⟩
  | cons read reads ih =>
    rw [validateReads] at h
    split at h
    next hrebase =>
      obtain ⟨hfound, hasked⟩ := ih h
      constructor
      · refine List.forall_mem_cons.2 ⟨fun hstrict => ?_, hfound⟩
        rw [hrebase] at hstrict
        cases hstrict
      · intro e he
        obtain ⟨r, hr, hmet⟩ := hasked e he
        exact ⟨r, List.mem_cons_of_mem _ hr, hmet⟩
    next hstrict =>
      rw [Store.getVersion_bind, Program.interfered_call] at h
      obtain ⟨w, rest, rfl, h⟩ := h
      split at h
      next =>
        obtain ⟨-, rfl⟩ := Program.interfered_ret.1 h
        cases hv
      next hversion =>
        have hversion' : w.store.getVersion read.objectId = read.observedVersion :=
          not_not.1 hversion
        obtain ⟨hfound, hasked⟩ := ih h
        constructor
        · refine List.forall_mem_cons.2
            ⟨fun _ => ⟨w, List.mem_cons_self, hversion'⟩, fun r hr hrebased => ?_⟩
          obtain ⟨before, hmem, hbefore⟩ := hfound r hr hrebased
          exact ⟨before, List.mem_cons_of_mem _ hmem, hbefore⟩
        · intro e he
          rcases List.mem_cons.1 he with rfl | he
          · exact ⟨read, List.mem_cons_self, Bool.eq_false_iff.2 hstrict, rfl, hversion'⟩
          · obtain ⟨r, hr, hmet⟩ := hasked e he
            exact ⟨r, List.mem_cons_of_mem _ hr, hmet⟩

theorem looks_validateWinner (winner : BranchContext) (w : World) :
    (validateWinner winner).Looks (handle kind) w :=
  (only_validateReads _ _).looks fun _ hop w => handle_of_reads hop w

end ValidationManager

namespace CommitManager

/-- The latest intent for the object rebases onto whatever the store holds. -/
def rebased (winner : BranchContext) (objectId : Bytes) : Bool :=
  ((latestIntents winner.intentLog).lookup objectId).any fun intent =>
    usesSemanticRebase intent.intentType

theorem lookup_latestTypes (log : IntentLog) (k : Bytes) :
    (UnorderedMap.assignAll WriteIntent.objectId WriteIntent.intentType log.entries ∅).lookup k =
      ((latestIntents log).lookup k).map WriteIntent.intentType := by
  rw [latestIntents, UnorderedMap.lookup_assignAll, UnorderedMap.lookup_assignAll]
  simp

theorem lookup_latestTypes_any (winner : BranchContext) (k : Bytes) :
    ((UnorderedMap.assignAll WriteIntent.objectId WriteIntent.intentType
      winner.intentLog.entries ∅).lookup k).any
      usesSemanticRebase = rebased winner k := by
  rw [lookup_latestTypes, rebased, Option.any_map]

theorem run_validateWinner (kind : StoreKind) (winner : BranchContext) (w : World) :
    ((ValidationManager.validateWinner winner).run (handle kind) w).1.success = true ↔
      ∀ read ∈ winner.readSet.entries, rebased winner read.objectId = true ∨
        w.store.getVersion read.objectId = read.observedVersion := by
  rw [ValidationManager.validateWinner, ValidationManager.run_validateReads]
  simp only [lookup_latestTypes_any]

/-! ### Version checks -/

/-- Two reads of one object saw one version. -/
def Agree (reads : List ReadRecord) : Prop :=
  ∀ read ∈ reads, ∀ read' ∈ reads, read.objectId = read'.objectId →
    read.observedVersion = read'.observedVersion

theorem addOrVerifyCheck_of_free {objectId : Bytes} {version : UInt64}
    {seenChecks : UnorderedMap UInt64}
    (h : seenChecks.lookup objectId = none ∨ seenChecks.lookup objectId = some version) :
    ∃ seen, addOrVerifyCheck objectId version seenChecks = .ok seen := by
  rcases h with hnone | hsome
  · exact ⟨_, by rw [addOrVerifyCheck, UnorderedMap.emplace_of_none version hnone]; rfl⟩
  · refine ⟨seenChecks, ?_⟩
    simp [addOrVerifyCheck, UnorderedMap.emplace_of_some version hsome, hsome]

theorem readChecks_cons_ok {read : ReadRecord} {reads : List ReadRecord}
    {seenChecks seen : UnorderedMap UInt64} :
    readChecks (read :: reads) seenChecks = .ok seen ↔
      ∃ seen', addOrVerifyCheck read.objectId read.observedVersion seenChecks = .ok seen' ∧
        readChecks reads seen' = .ok seen := by
  simp only [readChecks, addOrVerifyCheck]
  split
  next => simp
  next => simp

/-- The checks of reads hold what there was and the version each read saw. -/
theorem lookup_readChecks {reads : List ReadRecord} {seenChecks seen : UnorderedMap UInt64}
    (h : readChecks reads seenChecks = .ok seen) (k : Bytes) (v : UInt64) :
    seen.lookup k = some v ↔ seenChecks.lookup k = some v ∨
      ∃ read ∈ reads, read.objectId = k ∧ read.observedVersion = v := by
  induction reads generalizing seenChecks with
  | nil =>
    cases h
    simp
  | cons read reads ih =>
    obtain ⟨seen', hadd, hreads⟩ := readChecks_cons_ok.1 h
    obtain ⟨hfree, hlookup⟩ := addOrVerifyCheck_ok hadd
    rw [ih hreads, hlookup, List.exists_mem_cons_iff]
    by_cases hk : k = read.objectId
    · subst hk
      rw [if_pos rfl]
      rcases hfree with hnone | hsome
      · simp [hnone]
      · simp [hsome]
    · rw [if_neg hk]
      simp [Ne.symm hk]

theorem readChecks_ok_iff {reads : List ReadRecord} {seenChecks : UnorderedMap UInt64} :
    (∃ seen, readChecks reads seenChecks = .ok seen) ↔ Agree reads ∧
      ∀ read ∈ reads, ∀ v, seenChecks.lookup read.objectId = some v → v = read.observedVersion := by
  constructor
  · rintro ⟨seen, h⟩
    have hlookup := lookup_readChecks h
    have hread : ∀ read ∈ reads, seen.lookup read.objectId = some read.observedVersion :=
      fun read hm => (hlookup _ _).2 (.inr ⟨read, hm, rfl, rfl⟩)
    refine ⟨fun read hm read' hm' hid => ?_, fun read hm v hv => ?_⟩
    · have hsame := hread read hm
      rw [hid, hread read' hm'] at hsame
      exact (Option.some.inj hsame).symm
    · have hold := (hlookup read.objectId v).2 (.inl hv)
      rw [hread read hm] at hold
      exact (Option.some.inj hold).symm
  · rintro ⟨hagree, hold⟩
    induction reads generalizing seenChecks with
    | nil => exact ⟨seenChecks, rfl⟩
    | cons read reads ih =>
      rw [List.forall_mem_cons] at hold
      have hfree : seenChecks.lookup read.objectId = none ∨
          seenChecks.lookup read.objectId = some read.observedVersion := by
        cases hl : seenChecks.lookup read.objectId with
        | none => exact .inl rfl
        | some v => exact .inr (by rw [hold.1 v hl])
      obtain ⟨seen', hadd⟩ := addOrVerifyCheck_of_free hfree
      obtain ⟨-, hlookup⟩ := addOrVerifyCheck_ok hadd
      have hagree' : Agree reads :=
        fun r hr r' hr' => hagree r (List.mem_cons_of_mem _ hr) r' (List.mem_cons_of_mem _ hr')
      have hold' : ∀ r ∈ reads, ∀ v, seen'.lookup r.objectId = some v → v = r.observedVersion := by
        intro r hr v hv
        rw [hlookup] at hv
        split at hv
        next hid =>
          rw [← Option.some.inj hv]
          exact (hagree r (List.mem_cons_of_mem _ hr) read List.mem_cons_self hid).symm
        next => exact hold.2 r hr v hv
      obtain ⟨seen, hseen⟩ := ih hagree' hold'
      exact ⟨seen, readChecks_cons_ok.2 ⟨seen', hadd, hseen⟩⟩

/-! ### Resolving the buffer -/

/-- The write an entry resolves to in a store. -/
def plannedWrite (latest : UnorderedMap WriteIntent) (s : MemoryKVStore)
    (entry : ObjectCacheEntry) : WriteOp where
  key := entry.objectId
  value := match latest.lookup entry.objectId with
    | none => []
    | some intent => (resolveWrite entry intent (s.get entry.objectId).value).value

/-- The version the write of an entry expects. -/
def plannedVersion (latest : UnorderedMap WriteIntent) (s : MemoryKVStore)
    (entry : ObjectCacheEntry) : UInt64 :=
  match latest.lookup entry.objectId with
  | none => 0
  | some intent => commitVersion entry intent (s.get entry.objectId)

/-- The entry has an intent and a value, and no other version is checked already
than the one its write expects. -/
def Resolvable (latest : UnorderedMap WriteIntent) (s : MemoryKVStore)
    (seenChecks : UnorderedMap UInt64) (entry : ObjectCacheEntry) : Prop :=
  ∃ intent, latest.lookup entry.objectId = some intent ∧
    (resolveWrite entry intent (s.get entry.objectId).value).success = true ∧
    (intent.intentType ≠ .read → usesSemanticRebase intent.intentType = false →
      seenChecks.lookup entry.objectId = none ∨
        seenChecks.lookup entry.objectId = some entry.baseVersion)

theorem expectVersion_isOk_iff {entry : ObjectCacheEntry} {intent : WriteIntent}
    {current : VersionedValue} {seenChecks : UnorderedMap UInt64} :
    (∃ seen, expectVersion entry intent current seenChecks = .ok seen) ↔
      (usesSemanticRebase intent.intentType = false →
        seenChecks.lookup entry.objectId = none ∨ seenChecks.lookup entry.objectId =
          some entry.baseVersion) := by
  constructor
  · rintro ⟨seen, h⟩ hstrict
    rcases (expectVersion_ok h).1 with hrebase | hfree
    · rw [hrebase] at hstrict
      cases hstrict
    · exact hfree
  · intro h
    unfold expectVersion
    cases hrebase : usesSemanticRebase intent.intentType with
    | true => exact ⟨_, rfl⟩
    | false => exact addOrVerifyCheck_of_free (h hrebase)

section Resolving

variable (kind : StoreKind) {latest : UnorderedMap WriteIntent} {entry : ObjectCacheEntry}
  {entries : List ObjectCacheEntry} {seenChecks : UnorderedMap UInt64}
    (writes : List WriteOp) {w : World}

/-- An entry whose latest intent only reads adds nothing. -/
theorem run_resolveEntries_read {intent : WriteIntent}
    (hintent : latest.lookup entry.objectId = some intent) (hread : intent.intentType = .read) :
    (resolveEntries latest (entry :: entries) seenChecks writes).run (handle kind) w =
      (resolveEntries latest entries seenChecks writes).run (handle kind) w := by
  rw [resolveEntries, hintent]
  simp only [Store.get_bind, Program.run_call, handle_get, resolveWrite_read _ hread]
  rfl

/-- An entry that is written adds its write and the version it expects. -/
theorem run_resolveEntries_write {intent : WriteIntent} {seen : UnorderedMap UInt64}
    (hintent : latest.lookup entry.objectId = some intent) (hread : intent.intentType ≠ .read)
    (hsuccess : (resolveWrite entry intent (w.store.get entry.objectId).value).success = true)
    (hseen : expectVersion entry intent (w.store.get entry.objectId) seenChecks = .ok seen) :
    (resolveEntries latest (entry :: entries) seenChecks writes).run (handle kind) w =
      (resolveEntries latest entries seen (writes ++ [plannedWrite latest w.store entry])).run
        (handle kind) w := by
  rw [resolveEntries, hintent]
  simp only [Store.get_bind, Program.run_call, handle_get, hsuccess,
    (shouldWrite_iff hsuccess).2 hread, Bool.not_true, Bool.false_eq_true, ↓reduceIte, hseen]
  rw [plannedWrite, hintent]

/-- An entry that cannot be resolved ends the loop. -/
theorem run_resolveEntries_error (entries : List ObjectCacheEntry) (writes : List WriteOp)
    (h : ¬Resolvable latest w.store seenChecks entry) :
    ∃ reason, ((resolveEntries latest (entry :: entries) seenChecks writes).run (handle kind) w).1 =
      .error reason := by
  rw [resolveEntries]
  cases hintent : latest.lookup entry.objectId with
  | none => exact ⟨_, rfl⟩
  | some intent =>
    simp only [Store.get_bind, Program.run_call, handle_get]
    rcases Bool.eq_false_or_eq_true
        (resolveWrite entry intent (w.store.get entry.objectId).value).success with
      hsuccess | hfailed
    · have hread : intent.intentType ≠ .read := by
        intro hread
        exact h ⟨intent, hintent, hsuccess, fun hne => absurd hread hne⟩
      simp only [hsuccess, (shouldWrite_iff hsuccess).2 hread, Bool.not_true,
        Bool.false_eq_true, ↓reduceIte]
      cases hexpect : expectVersion entry intent (w.store.get entry.objectId) seenChecks with
      | error reason => exact ⟨reason, rfl⟩
      | ok seen =>
        exact absurd ⟨intent, hintent, hsuccess, fun _ => expectVersion_isOk_iff.1 ⟨seen, hexpect⟩⟩
          h
    · simp only [hfailed, Bool.not_false, ↓reduceIte]
      exact ⟨_, rfl⟩

/-- Entries that can be resolved all are: what is then written, and which versions are checked. -/
theorem run_resolveEntries (hnodup : (entries.map (·.objectId)).Nodup)
    (h : ∀ entry ∈ entries, Resolvable latest w.store seenChecks entry) :
    ∃ seen, ((resolveEntries latest entries seenChecks writes).run (handle kind) w).1 =
        .ok (seen, writes ++ (entries.filter (written latest)).map (plannedWrite latest w.store)) ∧
      ∀ k, seen.lookup k =
        (((entries.filter (written latest)).find? fun entry => entry.objectId = k).map
          (plannedVersion latest w.store)).or (seenChecks.lookup k) := by
  induction entries generalizing seenChecks writes with
  | nil =>
    exact ⟨seenChecks, by rw [List.filter_nil, List.map_nil, List.append_nil]; rfl, fun k => rfl⟩
  | cons entry entries ih =>
    rw [List.map_cons, List.nodup_cons] at hnodup
    rw [List.forall_mem_cons] at h
    obtain ⟨⟨intent, hintent, hsuccess, hexpect⟩, hrest⟩ := h
    by_cases hread : intent.intentType = .read
    · have hskip : written latest entry = false := by simp [written, hintent, hread]
      rw [run_resolveEntries_read kind writes hintent hread,
        List.filter_cons_of_neg (by simp [hskip])]
      exact ih writes hnodup.2 hrest
    · have htake : written latest entry = true := by simp [written, hintent, hread]
      obtain ⟨seen, hseen⟩ := expectVersion_isOk_iff.2 (hexpect hread)
      obtain ⟨-, hlookup⟩ := expectVersion_ok hseen
      have hother : ∀ e ∈ entries, e.objectId ≠ entry.objectId :=
        fun e he heq => hnodup.1 (heq ▸ List.mem_map_of_mem he)
      have hrest' : ∀ e ∈ entries, Resolvable latest w.store seen e := by
        intro e he
        obtain ⟨i, hi, hs, hfree⟩ := hrest e he
        refine ⟨i, hi, hs, ?_⟩
        rw [hlookup, if_neg (hother e he)]
        exact hfree
      obtain ⟨seen', hrun, hlookup'⟩ :=
        ih (writes ++ [plannedWrite latest w.store entry]) hnodup.2 hrest'
      rw [run_resolveEntries_write kind writes hintent hread hsuccess hseen,
        List.filter_cons_of_pos htake]
      refine ⟨seen', by rw [hrun, List.append_assoc]; rfl, fun k => ?_⟩
      rw [hlookup', hlookup, List.find?_cons]
      by_cases hk : entry.objectId = k
      · have hnone : ((entries.filter (written latest)).find? fun e => e.objectId = k) = none := by
          rw [List.find?_eq_none]
          intro e he
          simpa [← hk] using hother e (List.mem_of_mem_filter he)
        simp [hnone, hk, plannedVersion, hintent]
      · simp [hk, Ne.symm hk]

theorem run_resolveEntries_ok_iff (hnodup : (entries.map (·.objectId)).Nodup) :
    (∃ r, ((resolveEntries latest entries seenChecks writes).run (handle kind) w).1 = .ok r) ↔
      ∀ entry ∈ entries, Resolvable latest w.store seenChecks entry := by
  constructor
  · induction entries generalizing seenChecks writes with
    | nil => exact fun _ e he => absurd he List.not_mem_nil
    | cons entry entries ih =>
      rintro ⟨r, hr⟩
      rw [List.map_cons, List.nodup_cons] at hnodup
      by_cases h : Resolvable latest w.store seenChecks entry
      · refine List.forall_mem_cons.2 ⟨h, ?_⟩
        obtain ⟨intent, hintent, hsuccess, hexpect⟩ := h
        by_cases hread : intent.intentType = .read
        · rw [run_resolveEntries_read kind writes hintent hread] at hr
          exact ih writes hnodup.2 ⟨r, hr⟩
        · obtain ⟨seen, hseen⟩ := expectVersion_isOk_iff.2 (hexpect hread)
          obtain ⟨-, hlookup⟩ := expectVersion_ok hseen
          rw [run_resolveEntries_write kind writes hintent hread hsuccess hseen] at hr
          intro e he
          obtain ⟨i, hi, hs, hfree⟩ := ih _ hnodup.2 ⟨r, hr⟩ e he
          refine ⟨i, hi, hs, ?_⟩
          have hother : e.objectId ≠ entry.objectId := fun heq =>
            hnodup.1 (heq ▸ List.mem_map_of_mem he)
          rw [hlookup, if_neg hother] at hfree
          exact hfree
      · obtain ⟨reason, herror⟩ := run_resolveEntries_error kind entries writes h
        rw [herror] at hr
        cases hr
  · intro h
    obtain ⟨seen, hrun, -⟩ := run_resolveEntries kind writes hnodup h
    exact ⟨_, hrun⟩

end Resolving

/-! ### Up to the writes -/

/-- A commit that gets to its writes: the reads agree with each other and with the
writes that are not rebased, and every entry resolves. -/
structure Prepared (winner : BranchContext) (s : MemoryKVStore) : Prop where
  agree : Agree winner.readSet.entries
  resolves : ∀ entry ∈ winner.writeBuffer.orderedEntries, ∃ intent,
    (latestIntents winner.intentLog).lookup entry.objectId = some intent ∧
      (resolveWrite entry intent (s.get entry.objectId).value).success = true
  based : ∀ entry ∈ writtenEntries winner, rebased winner entry.objectId = false →
    ∀ read ∈ winner.readSet.entries, read.objectId = entry.objectId →
      read.observedVersion = entry.baseVersion

/-- The writes of a commit that starts in a store, in buffer order. -/
def plannedWrites (winner : BranchContext) (s : MemoryKVStore) : List WriteOp :=
  (writtenEntries winner).map (plannedWrite (latestIntents winner.intentLog) s)

/-- The versions a commit checks: that of each write, and that of each read it does not write. -/
def Checks (winner : BranchContext) (s : MemoryKVStore) (seenChecks : UnorderedMap UInt64) : Prop :=
  ∀ k v, seenChecks.lookup k = some v ↔
    (∃ entry ∈ writtenEntries winner, entry.objectId = k ∧
      plannedVersion (latestIntents winner.intentLog) s entry = v) ∨
    ((∀ entry ∈ writtenEntries winner, entry.objectId ≠ k) ∧
      ∃ read ∈ winner.readSet.entries, read.objectId = k ∧ read.observedVersion = v)

/-- What a commit does once it knows its checks and writes. -/
def publish (txn : AgentTxnContext) (seenChecks : UnorderedMap UInt64) (writes : List WriteOp) :
    Prog (Except Bytes CommitLog) := do
  if ← Store.supportsAtomicBatchConditionalWrite then
    if ← Store.batchPutIfVersion (checksOf seenChecks) writes then
      return .ok (commitLogOf seenChecks writes)
    else if ← Store.supportsAtomicBatchConditionalWrite then
      return .error (ascii "batch conditional write failed")
    else return .error (ascii "fallback conditional write failed")
  else match ← commitWinnerWithoutBatch txn (checksOf seenChecks) writes with
    | .error reason => return .error reason
    | .ok _ => return .ok (commitLogOf seenChecks writes)

theorem commitWinner_eq (txn : AgentTxnContext) (winner : BranchContext) :
    commitWinner txn winner = match readChecks winner.readSet.entries ∅ with
      | .error reason => .ret (.error reason)
      | .ok seenChecks =>
        resolveEntries (latestIntents winner.intentLog) winner.writeBuffer.orderedEntries
          seenChecks [] >>=
          fun
          | .error reason => .ret (.error reason)
          | .ok (seenChecks, writes) => publish txn seenChecks writes := rfl

/-- What a commit does until it knows its checks and writes. -/
def planWinner (winner : BranchContext) :
    Prog (Except Bytes (UnorderedMap UInt64 × List WriteOp)) :=
  match readChecks winner.readSet.entries ∅ with
  | .error reason => .ret (.error reason)
  | .ok seenChecks =>
    resolveEntries (latestIntents winner.intentLog) winner.writeBuffer.orderedEntries seenChecks []

theorem commitWinner_plan (txn : AgentTxnContext) (winner : BranchContext) :
    commitWinner txn winner = planWinner winner >>= fun
      | .error reason => .ret (.error reason)
      | .ok (seenChecks, writes) => publish txn seenChecks writes := by
  rw [commitWinner_eq, planWinner]
  cases readChecks winner.readSet.entries ∅ <;> rfl

theorem only_planWinner (winner : BranchContext) :
    (planWinner winner).Only fun op => op.reads = true := by
  rw [planWinner]
  cases readChecks winner.readSet.entries ∅ with
  | error reason => trivial
  | ok seenChecks => exact (only_resolveEntries _ _ _ _).mono fun _ => reads_of_get

section Preparing

variable {txn : AgentTxnContext} {winner : BranchContext} {w : World}

theorem mem_writtenEntries {entry : ObjectCacheEntry} :
    entry ∈ writtenEntries winner ↔ entry ∈ winner.writeBuffer.orderedEntries ∧
      ∃ intent, (latestIntents winner.intentLog).lookup entry.objectId = some intent ∧
        intent.intentType ≠ .read := by
  rw [writtenEntries, List.mem_filter, written]
  cases (latestIntents winner.intentLog).lookup entry.objectId <;> simp

theorem nodup_writtenEntries (winner : BranchContext) :
    ((writtenEntries winner).map (·.objectId)).Nodup :=
  (List.filter_sublist.map _).nodup winner.writeBuffer.nodup_objectId_orderedEntries

theorem keys_plannedWrites (winner : BranchContext) (s : MemoryKVStore) :
    (plannedWrites winner s).map WriteOp.key = (writtenEntries winner).map (·.objectId) := by
  rw [plannedWrites, List.map_map]
  rfl

theorem nodup_plannedWrites (winner : BranchContext) (s : MemoryKVStore) :
    ((plannedWrites winner s).map WriteOp.key).Nodup := by
  rw [keys_plannedWrites]
  exact nodup_writtenEntries winner

/-- Entries that are looked up by their object are found. -/
theorem find?_writtenEntries {k : Bytes} {entry : ObjectCacheEntry} :
    (writtenEntries winner).find? (fun e => e.objectId = k) = some entry ↔
      entry ∈ writtenEntries winner ∧ entry.objectId = k := by
  constructor
  · intro h
    exact ⟨List.mem_of_find?_eq_some h, by simpa using List.find?_some h⟩
  · rintro ⟨hmem, rfl⟩
    cases hfind : (writtenEntries winner).find? (fun e => e.objectId = entry.objectId) with
    | none =>
      have hnone := List.find?_eq_none.1 hfind entry hmem
      simp at hnone
    | some e =>
      have hid : e.objectId = entry.objectId := by simpa using List.find?_some hfind
      have hsame := List.inj_on_of_nodup_map (nodup_writtenEntries winner)
        (List.mem_of_find?_eq_some hfind) hmem hid
      rw [hsame]

/-- With the checks of its reads in place, every entry of a prepared commit can be resolved, and
conversely. -/
theorem prepared_iff {seenChecks : UnorderedMap UInt64}
    (hseen : readChecks winner.readSet.entries ∅ = .ok seenChecks) {s : MemoryKVStore} :
    Prepared winner s ↔ ∀ entry ∈ winner.writeBuffer.orderedEntries,
      Resolvable (latestIntents winner.intentLog) s seenChecks entry := by
  have hlookup := lookup_readChecks hseen
  simp only [AList.lookup_empty, reduceCtorEq, false_or] at hlookup
  constructor
  · intro h entry hentry
    obtain ⟨intent, hintent, hsuccess⟩ := h.resolves entry hentry
    refine ⟨intent, hintent, hsuccess, fun hread hstrict => ?_⟩
    have hrebased : rebased winner entry.objectId = false := by
      rw [rebased, hintent, Option.any_some, hstrict]
    cases hl : seenChecks.lookup entry.objectId with
    | none => exact .inl rfl
    | some v =>
      obtain ⟨read, hm, hid, hv⟩ := (hlookup _ _).1 hl
      have hwritten := mem_writtenEntries.2 ⟨hentry, intent, hintent, hread⟩
      exact .inr (by rw [← hv, h.based entry hwritten hrebased read hm hid])
  · intro h
    refine ⟨(readChecks_ok_iff.1 ⟨_, hseen⟩).1, fun entry hentry => ?_,
      fun entry hentry hrebased read hm hid => ?_⟩
    · obtain ⟨intent, hintent, hsuccess, -⟩ := h entry hentry
      exact ⟨intent, hintent, hsuccess⟩
    · obtain ⟨hbuffered, intent, hintent, hread⟩ := mem_writtenEntries.1 hentry
      obtain ⟨intent', hintent', -, hfree⟩ := h entry hbuffered
      rw [hintent] at hintent'
      cases hintent'
      rw [rebased, hintent, Option.any_some] at hrebased
      have hv := (hlookup entry.objectId read.observedVersion).2 ⟨read, hm, hid, rfl⟩
      rcases hfree hread hrebased with hnone | hsome
      · rw [hv] at hnone
        cases hnone
      · rw [hv] at hsome
        exact Option.some.inj hsome

theorem run_planWinner (kind : StoreKind) (h : Prepared winner w.store) :
    ∃ seen, Checks winner w.store seen ∧
      ((planWinner winner).run (handle kind) w).1 = .ok (seen, plannedWrites winner w.store) := by
  have hchecks : ∃ seen, readChecks winner.readSet.entries ∅ = .ok seen :=
    readChecks_ok_iff.2 ⟨h.agree, fun read _ v hv => by simp at hv⟩
  obtain ⟨seenChecks, hseen⟩ := hchecks
  obtain ⟨seen, hrun, hlookup⟩ := run_resolveEntries kind []
    winner.writeBuffer.nodup_objectId_orderedEntries ((prepared_iff hseen).1 h)
  have hreads := lookup_readChecks hseen
  simp only [AList.lookup_empty, reduceCtorEq, false_or] at hreads
  refine ⟨seen, fun k v => ?_, ?_⟩
  · rw [hlookup]
    change (((writtenEntries winner).find? fun entry => entry.objectId = k).map _).or _ = _ ↔ _
    cases hfind : (writtenEntries winner).find? (fun entry => entry.objectId = k) with
    | none =>
      have hnone : ∀ entry ∈ writtenEntries winner, entry.objectId ≠ k := by
        simpa [List.find?_eq_none] using hfind
      rw [Option.map_none, Option.none_or, hreads]
      constructor
      · exact fun hread => .inr ⟨hnone, hread⟩
      · rintro (⟨entry, hm, hid, -⟩ | ⟨-, hread⟩)
        · exact absurd hid (hnone entry hm)
        · exact hread
    | some entry =>
      obtain ⟨hm, hid⟩ := find?_writtenEntries.1 hfind
      rw [Option.map_some, Option.some_or, Option.some.injEq]
      constructor
      · exact fun hv => .inl ⟨entry, hm, hid, hv⟩
      · rintro (⟨entry', hm', hid', hv⟩ | ⟨hnone, -⟩)
        · rw [find?_writtenEntries.2 ⟨hm', hid'⟩] at hfind
          cases hfind
          exact hv
        · exact absurd hid (hnone entry hm)
  · rw [planWinner, hseen]
    simp only
    rw [hrun, List.nil_append]
    rfl

theorem run_planWinner_refused (kind : StoreKind) (h : ¬Prepared winner w.store) :
    ∃ reason, ((planWinner winner).run (handle kind) w).1 = .error reason := by
  rw [planWinner]
  cases hseen : readChecks winner.readSet.entries ∅ with
  | error reason => exact ⟨reason, rfl⟩
  | ok seenChecks =>
    simp only
    cases hrun :
      ((resolveEntries (latestIntents winner.intentLog) winner.writeBuffer.orderedEntries
        seenChecks []).run
          (handle kind) w).1 with
    | error reason => exact ⟨reason, rfl⟩
    | ok r =>
      refine absurd ((prepared_iff hseen).2 ?_) h
      exact (run_resolveEntries_ok_iff kind [] winner.writeBuffer.nodup_objectId_orderedEntries).1
        ⟨r, hrun⟩

theorem run_planWinner_world (kind : StoreKind) (winner : BranchContext) (w : World) :
    ((planWinner winner).run (handle kind) w).2 = w :=
  ((only_planWinner winner).looks fun _ hop w => handle_of_reads hop w).run_eq

theorem run_commitWinner_of_prepared (kind : StoreKind) (txn : AgentTxnContext)
    (h : Prepared winner w.store) :
    ∃ seen, Checks winner w.store seen ∧ (commitWinner txn winner).run (handle kind) w =
      (publish txn seen (plannedWrites winner w.store)).run (handle kind) w := by
  obtain ⟨seen, hchecks, hrun⟩ := run_planWinner kind h
  refine ⟨seen, hchecks, ?_⟩
  rw [commitWinner_plan, Program.run_bind, hrun, run_planWinner_world]

theorem run_commitWinner_of_not_prepared (kind : StoreKind) (txn : AgentTxnContext)
    (h : ¬Prepared winner w.store) :
    ∃ reason, (commitWinner txn winner).run (handle kind) w = (.error reason, w) := by
  obtain ⟨reason, hrun⟩ := run_planWinner_refused kind h
  refine ⟨reason, ?_⟩
  rw [commitWinner_plan, Program.run_bind, hrun, run_planWinner_world]
  rfl

end Preparing

/-! ### The batch -/

/-- The write of the entry expects the version the store has. -/
def Current (winner : BranchContext) (s : MemoryKVStore) (entry : ObjectCacheEntry) : Prop :=
  rebased winner entry.objectId = true ∨ s.getVersion entry.objectId = entry.baseVersion

section Publishing

variable {txn : AgentTxnContext} {winner : BranchContext} {w : World}
  {seenChecks : UnorderedMap UInt64}

theorem plannedVersion_eq_iff {s : MemoryKVStore} {entry : ObjectCacheEntry}
    (hentry : entry ∈ writtenEntries winner) :
    s.getVersion entry.objectId = plannedVersion (latestIntents winner.intentLog) s entry ↔
      Current winner s entry := by
  obtain ⟨-, intent, hintent, -⟩ := mem_writtenEntries.1 hentry
  rw [plannedVersion, hintent, Current, rebased, hintent, Option.any_some]
  simp only [commitVersion]
  cases hrebase : usesSemanticRebase intent.intentType with
  | true => simp [MemoryKVStore.getVersion]
  | false => simp

theorem Checks.lookup (h : Checks winner w.store seenChecks) {entry : ObjectCacheEntry}
    (hentry : entry ∈ writtenEntries winner) :
    seenChecks.lookup entry.objectId =
      some (plannedVersion (latestIntents winner.intentLog) w.store entry) :=
  (h _ _).2 (.inl ⟨entry, hentry, rfl, rfl⟩)

/-- Every check of the commit holds of the store. -/
def AllCurrent (winner : BranchContext) (s : MemoryKVStore) : Prop :=
  (∀ entry ∈ writtenEntries winner, Current winner s entry) ∧
    ∀ read ∈ winner.readSet.entries, s.getVersion read.objectId = read.observedVersion ∨
      ∃ entry ∈ writtenEntries winner, entry.objectId = read.objectId

theorem Checks.allCurrent_iff (h : Checks winner w.store seenChecks) :
    (∀ check ∈ checksOf seenChecks, w.store.getVersion check.key = check.expectedVersion) ↔
      AllCurrent winner w.store := by
  have hmem : (∀ check ∈ checksOf seenChecks,
    w.store.getVersion check.key = check.expectedVersion) ↔
      ∀ k v, seenChecks.lookup k = some v → w.store.getVersion k = v := by
    constructor
    · exact fun hall k v hk => hall _ (mem_checksOf hk)
    · intro hall check hcheck
      obtain ⟨⟨k, v⟩, hentry, rfl⟩ := List.mem_map.1 hcheck
      exact hall k v (UnorderedMap.mem_entries_iff.1 hentry)
  rw [hmem]
  constructor
  · intro hall
    refine ⟨fun entry hentry => ?_, fun read hread => ?_⟩
    · exact (plannedVersion_eq_iff hentry).1 (hall _ _ (h.lookup hentry))
    · by_cases hw : ∃ entry ∈ writtenEntries winner, entry.objectId = read.objectId
      · exact .inr hw
      · push Not at hw
        exact .inl (hall _ _ ((h _ _).2 (.inr ⟨hw, read, hread, rfl, rfl⟩)))
  · rintro ⟨hentries, hreads⟩ k v hk
    rcases (h k v).1 hk with ⟨entry, hentry, rfl, rfl⟩ | ⟨hnone, read, hread, rfl, rfl⟩
    · exact (plannedVersion_eq_iff hentry).2 (hentries entry hentry)
    · rcases hreads read hread with hcurrent | ⟨entry, hentry, hid⟩
      · exact hcurrent
      · exact absurd hid (hnone entry hentry)

theorem run_publish_memory (txn : AgentTxnContext) (h : Checks winner w.store seenChecks)
    (hcurrent : AllCurrent winner w.store) (writes : List WriteOp) :
    (publish txn seenChecks writes).run (handle .memory) w =
      (.ok (commitLogOf seenChecks writes), { w with store := w.store.applyWrites writes }) := by
  have hbatch := MemoryKVStore.batchPutIfVersion_of_all writes (h.allCurrent_iff.2 hcurrent)
  simp only [publish, Store.supportsAtomicBatchConditionalWrite_bind, Program.run_call,
    handle, decide_true, ↓reduceIte, Store.batchPutIfVersion_bind, World.withStore,
    StoreKind.batchPutIfVersion, hbatch]
  rfl

theorem run_publish_memory_refused (txn : AgentTxnContext) (h : Checks winner w.store seenChecks)
    (hstale : ¬AllCurrent winner w.store) (writes : List WriteOp) :
    ∃ reason, (publish txn seenChecks writes).run (handle .memory) w = (.error reason, w) := by
  have hbatch : w.store.batchPutIfVersion (checksOf seenChecks) writes = (false, w.store) := by
    cases hanswer : (w.store.batchPutIfVersion (checksOf seenChecks) writes).1 with
    | true =>
      exact absurd (h.allCurrent_iff.1 (MemoryKVStore.batchPutIfVersion_true hanswer).1) hstale
    | false => exact Prod.ext hanswer (MemoryKVStore.batchPutIfVersion_false hanswer)
  refine ⟨ascii "batch conditional write failed", ?_⟩
  simp only [publish, Store.supportsAtomicBatchConditionalWrite_bind, Program.run_call,
    handle, decide_true, ↓reduceIte, Store.batchPutIfVersion_bind, World.withStore,
    StoreKind.batchPutIfVersion, hbatch]
  rfl

end Publishing

end CommitManager

/-! ### The whole transaction -/

namespace AgentTxnManager

open CommitManager

/-- The winner passes validation and its commit gets to the writes. -/
structure Ready (winner : BranchContext) (s : MemoryKVStore) : Prop extends Prepared winner s where
  validated : ∀ read ∈ winner.readSet.entries, rebased winner read.objectId = true ∨
    s.getVersion read.objectId = read.observedVersion

/-- The branch that a commit of the transaction would select. -/
def Selects (txn : AgentTxnContext) (winner : BranchContext) : Prop :=
  BranchManager.selectWinner txn.branches = .ok winner.branchId ∧
    BranchManager.findBranch txn.branches winner.branchId = some winner

theorem exists_selects {txn : AgentTxnContext} (hne : txn.branches ≠ []) :
    ∃ winner, Selects txn winner := by
  obtain ⟨id, hselect, hid⟩ := BranchManager.selectWinner_ok hne
  obtain ⟨winner, hwinner⟩ := Option.isSome_iff_exists.1 (BranchManager.findBranch_isSome.2 hid)
  have hwid := BranchManager.branchId_of_findBranch hwinner
  exact ⟨winner, by rw [hselect, hwid], by rw [hwid, hwinner]⟩

theorem selects_unique {txn : AgentTxnContext} {winner winner' : BranchContext}
    (hs : Selects txn winner) (hs' : Selects txn winner') : winner' = winner := by
  have hid := Except.ok.inj (hs'.1.symm.trans hs.1)
  have hfound := hs'.2
  rw [hid, hs.2] at hfound
  exact (Option.some.inj hfound).symm

/-- What holds of a branch that is selected holds of the branch that is. -/
theorem Selects.exists_iff {txn : AgentTxnContext} {winner : BranchContext}
    (hs : Selects txn winner) {P : BranchContext → Prop} :
    (∃ selected, Selects txn selected ∧ P selected) ↔ P winner := by
  constructor
  · rintro ⟨selected, hs', h⟩
    exact selects_unique hs hs' ▸ h
  · exact fun h => ⟨winner, hs, h⟩

theorem not_selects_of_nil {txn : AgentTxnContext} {winner : BranchContext}
    (hnone : txn.branches = []) :
    ¬Selects txn winner := by
  intro hs
  rw [Selects, hnone] at hs
  cases hs.1

variable {txn : AgentTxnContext} {winner : BranchContext} {w : World}

/-- How a transaction ends once its writes have been tried. -/
def conclude (txn : AgentTxnContext) (winner : BranchContext) :
    Except Bytes CommitLog → Bool × AgentTxnContext
  | .error reason => (false, refuse txn reason)
  | .ok commitLog => (true, finish txn winner commitLog)

/-- The parts of a commit among other actors: validation, and then the commit of the winner. -/
theorem selectWinnerAndCommit_steps {txn' : AgentTxnContext} {tr : List (Event Call World)}
    {r : Except Bytes Bool} (hs : Selects txn winner)
    (h : (selectWinnerAndCommit txn).Interfered (handle kind) tr (r, txn')) :
    ∃ v looks, (ValidationManager.validateWinner winner).Interfered (handle kind) looks v ∧
      ((v.success = false ∧ tr = looks ∧ r = .ok false ∧
          txn' = RollbackManager.abortTransaction
            { mark txn winner.branchId with validationResult := v }) ∨
        (v.success = true ∧ ∃ committing result, tr = looks ++ committing ∧
          (commitWinner { mark txn winner.branchId with validationResult := v }
            { winner with status := .winner }).Interfered (handle kind) committing result ∧
          r = .ok result.isOk ∧
          txn' = (conclude { mark txn winner.branchId with validationResult := v }
            { winner with status := .winner }
            result).2)) := by
  have hfind : BranchManager.findBranch (mark txn winner.branchId).branches
    (mark txn winner.branchId).winnerBranchId =
      some { winner with status := .winner } := by
    rw [mark, BranchManager.findBranch_markWinnerAndLosers, hs.2, Option.map_some, if_pos rfl]
  simp only [selectWinnerAndCommit, hs.1] at h
  obtain ⟨es, ⟨committed, ended⟩, rest, rfl, hmarked, hret⟩ := Program.interfered_bind.1 h
  obtain ⟨rfl, heq⟩ := Program.interfered_ret.1 hret
  cases heq
  rw [List.append_nil]
  simp only [commitMarked, hfind] at hmarked
  obtain ⟨looks, v, later, rfl, hvalidate, hmarked⟩ := Program.interfered_bind.1 hmarked
  refine ⟨v, looks, hvalidate, ?_⟩
  cases hv : v.success with
  | false =>
    simp only [hv, Bool.not_false, ↓reduceIte, Program.pure_eq_ret,
      Program.interfered_ret] at hmarked
    obtain ⟨rfl, heq⟩ := hmarked
    cases heq
    exact .inl ⟨rfl, List.append_nil _, rfl, rfl⟩
  | true =>
    simp only [hv, Bool.not_true, Bool.false_eq_true, ↓reduceIte] at hmarked
    obtain ⟨committing, result, ending, rfl, hcommit, hend⟩ := Program.interfered_bind.1 hmarked
    refine .inr ⟨rfl, committing, result, ?_, hcommit, ?_⟩
    · cases result with
      | error reason => rw [(Program.interfered_ret.1 hend).1, List.append_nil]
      | ok log => rw [(Program.interfered_ret.1 hend).1, List.append_nil]
    · cases result with
      | error reason =>
        cases (Program.interfered_ret.1 hend).2
        exact ⟨rfl, rfl⟩
      | ok log =>
        cases (Program.interfered_ret.1 hend).2
        exact ⟨rfl, rfl⟩

theorem run_selectWinnerAndCommit_of_not_ready (kind : StoreKind) (hs : Selects txn winner)
    (h : ¬Ready winner w.store) : ∃ v, (selectWinnerAndCommit txn).run (handle kind) w =
      ((.ok false, RollbackManager.abortTransaction
        { mark txn winner.branchId with validationResult := v }), w) := by
  have hfind : BranchManager.findBranch (mark txn winner.branchId).branches
    (mark txn winner.branchId).winnerBranchId =
      some { winner with status := .winner } := by
    rw [mark, BranchManager.findBranch_markWinnerAndLosers, hs.2, Option.map_some, if_pos rfl]
  have hvalidate := run_validateWinner kind winner w
  have hlooks :
      ((ValidationManager.validateWinner { winner with status := .winner }).run (handle kind) w).2 =
      w :=
    (ValidationManager.looks_validateWinner _ w).run_eq
  simp only [selectWinnerAndCommit, hs.1, commitMarked, hfind, Program.run_bind, hlooks]
  have hsame : ValidationManager.validateWinner { winner with status := .winner } =
      ValidationManager.validateWinner winner := rfl
  rw [hsame]
  rcases Bool.eq_false_or_eq_true
      ((ValidationManager.validateWinner winner).run (handle kind) w).1.success with
    hsuccess | hfailed
  · have hprepared : ¬Prepared { winner with status := .winner } w.store :=
      fun hp => h ⟨⟨hp.agree, hp.resolves, hp.based⟩, hvalidate.1 hsuccess⟩
    simp only [hsuccess, Bool.not_true, Bool.false_eq_true, ↓reduceIte, Program.run_bind]
    obtain ⟨reason, herror⟩ := run_commitWinner_of_not_prepared kind { mark txn winner.branchId with
      validationResult := ((ValidationManager.validateWinner winner).run (handle kind) w).1 }
        hprepared
    exact ⟨{ success := false, reason }, by rw [herror]; rfl⟩
  · simp only [hfailed, Bool.not_false, ↓reduceIte]
    exact ⟨_, rfl⟩

theorem run_selectWinnerAndCommit_of_ready (kind : StoreKind) (hs : Selects txn winner)
    (h : Ready winner w.store) :
    ∃ v seen, Checks winner w.store seen ∧ (selectWinnerAndCommit txn).run (handle kind) w =
      let published := (publish txn seen (plannedWrites winner w.store)).run (handle kind) w
      let out := conclude { mark txn winner.branchId with validationResult := v }
          { winner with status := .winner }
        published.1
      ((.ok out.1, out.2), published.2) := by
  have hfind : BranchManager.findBranch (mark txn winner.branchId).branches
    (mark txn winner.branchId).winnerBranchId =
      some { winner with status := .winner } := by
    rw [mark, BranchManager.findBranch_markWinnerAndLosers, hs.2, Option.map_some, if_pos rfl]
  have hlooks :
      ((ValidationManager.validateWinner { winner with status := .winner }).run (handle kind) w).2 =
      w :=
    (ValidationManager.looks_validateWinner _ w).run_eq
  have hsuccess :
      ((ValidationManager.validateWinner { winner with status := .winner }).run
        (handle kind) w).1.success =
      true := (run_validateWinner kind winner w).2 h.validated
  have hprepared : Prepared { winner with status := .winner } w.store :=
    ⟨h.agree, h.resolves, h.based⟩
  obtain ⟨seen, hchecks, hrun⟩ := run_commitWinner_of_prepared kind { mark txn winner.branchId with
    validationResult :=
      ((ValidationManager.validateWinner { winner with status := .winner }).run (handle kind) w).1 }
    hprepared
  refine ⟨((ValidationManager.validateWinner { winner with status := .winner }).run
    (handle kind) w).1, seen, hchecks, ?_⟩
  have hpublish : ∀ v, publish { mark txn winner.branchId with validationResult := v } seen
      (plannedWrites { winner with status := .winner } w.store) =
          publish txn seen (plannedWrites winner w.store) :=
    fun v => rfl
  rw [hpublish] at hrun
  simp only [selectWinnerAndCommit, hs.1, commitMarked, hfind, Program.run_bind,
    hlooks, hsuccess, Bool.not_true, Bool.false_eq_true, ↓reduceIte, hrun]
  cases ((publish txn seen (plannedWrites winner w.store)).run (handle kind) w).1 <;> rfl

/-- On a store with batches the commit of a ready winner whose checks all hold makes its writes. -/
theorem run_selectWinnerAndCommit_memory (hs : Selects txn winner) (h : Ready winner w.store)
    (hcurrent : AllCurrent winner w.store) :
    ∃ txn', (selectWinnerAndCommit txn).run (handle .memory) w =
      ((.ok true, txn'),
        { w with store := w.store.applyWrites (plannedWrites winner w.store) }) := by
  obtain ⟨v, seen, hchecks, hrun⟩ := run_selectWinnerAndCommit_of_ready .memory hs h
  rw [hrun, run_publish_memory txn hchecks hcurrent]
  exact ⟨_, rfl⟩

/-- If the winner is not ready, or some check does not hold, the commit leaves the world alone. -/
theorem run_selectWinnerAndCommit_memory_refused (hs : Selects txn winner)
    (h : ¬(Ready winner w.store ∧ AllCurrent winner w.store)) :
    ∃ txn', (selectWinnerAndCommit txn).run (handle .memory) w = ((.ok false, txn'), w) := by
  by_cases hready : Ready winner w.store
  · have hstale : ¬AllCurrent winner w.store := fun hcurrent => h ⟨hready, hcurrent⟩
    obtain ⟨v, seen, hchecks, hrun⟩ := run_selectWinnerAndCommit_of_ready .memory hs hready
    obtain ⟨reason, hrefused⟩ :=
      run_publish_memory_refused txn hchecks hstale (plannedWrites winner w.store)
    rw [hrun, hrefused]
    exact ⟨_, rfl⟩
  · obtain ⟨v, hrun⟩ := run_selectWinnerAndCommit_of_not_ready .memory hs hready
    exact ⟨_, hrun⟩

/-- A commit that returns true on a store with batches found its winner ready and its checks met. -/
theorem run_selectWinnerAndCommit_memory_true {txn' : AgentTxnContext} {w' : World}
    (hs : Selects txn winner)
    (h : (selectWinnerAndCommit txn).run (handle .memory) w = ((.ok true, txn'), w')) :
    Ready winner w.store ∧ AllCurrent winner w.store ∧
      w' = { w with store := w.store.applyWrites (plannedWrites winner w.store) } := by
  by_cases hcommittable : Ready winner w.store ∧ AllCurrent winner w.store
  · obtain ⟨ended, hrun⟩ := run_selectWinnerAndCommit_memory hs hcommittable.1 hcommittable.2
    rw [hrun] at h
    cases h
    exact ⟨hcommittable.1, hcommittable.2, rfl⟩
  · obtain ⟨ended, hrun⟩ := run_selectWinnerAndCommit_memory_refused hs hcommittable
    rw [hrun] at h
    cases h

theorem run_selectWinnerAndCommit_nil {txn : AgentTxnContext} (hnone : txn.branches = [])
    (w : World) :
    (selectWinnerAndCommit txn).run (handle kind) w =
      ((.error (ascii "cannot select winner from empty branch list"), txn), w) := by
  rw [selectWinnerAndCommit, hnone]
  rfl

/-- Where a commit leaves the status, told by what it returns. -/
def statusAfter (txn : AgentTxnContext) : Except Bytes Bool → TxnStatus
  | .ok true => .committed
  | .ok false => .aborted
  | .error _ => txn.status

/-- A commit sets the status to what it returns, and keeps the configuration. -/
theorem returns_selectWinnerAndCommit (txn : AgentTxnContext) :
    (selectWinnerAndCommit txn).Returns fun out =>
    out.2.status = statusAfter txn out.1 ∧ out.2.fallbackCommit = txn.fallbackCommit := by
  have hmarked : ∀ txn : AgentTxnContext, (commitMarked txn).Returns fun out =>
      out.2.status = statusAfter txn (.ok out.1) ∧ out.2.fallbackCommit = txn.fallbackCommit := by
    intro txn
    unfold commitMarked
    cases BranchManager.findBranch txn.branches txn.winnerBranchId with
    | none => exact ⟨rfl, rfl⟩
    | some winner =>
      refine (Program.returns_true _).bind fun validation _ => ?_
      cases validation.success with
      | false => exact ⟨rfl, rfl⟩
      | true =>
        refine (Program.returns_true _).bind fun result _ => ?_
        cases result <;> exact ⟨rfl, rfl⟩
  unfold selectWinnerAndCommit
  cases BranchManager.selectWinner txn.branches with
  | error what => exact ⟨rfl, rfl⟩
  | ok winnerBranchId =>
    apply (hmarked (mark txn winnerBranchId)).bind
    rintro ⟨committed, ended⟩ ⟨hstatus, hconfig⟩
    refine ⟨?_, hconfig⟩
    cases committed <;> exact hstatus

end AgentTxnManager

end DataAgentSystem.AgentTxn
