import DataAgentSystem.AgentTxn.ArtifactCalls
import DataAgentSystem.AgentTxn.BranchContest
import DataAgentSystem.AgentTxn.CommitAmongWriters
import DataAgentSystem.AgentTxn.CommitOutcome
import DataAgentSystem.Experiments.TaskLogReaders
import DataAgentSystem.Interaction.Contract
import DataAgentSystem.Storage.Versions

/-! The characters that a transaction deals in. What it buffers, commits and reports is made of
texts that it is given, texts that the store shows, and texts of its own, which are printable.
An alphabet that holds all of these is never left, by the store either, whoever else writes,
if they keep to it too. -/

namespace DataAgentSystem.Experiments

open Text Intent Cache Branch Containers Storage Interaction AgentTxn BranchManager CommitManager

/-- The text is spelled in the alphabet. -/
def Over (P : Byte → Prop) (text : Bytes) : Prop := ∀ c ∈ text, P c

variable {P : Byte → Prop} {text text' : Bytes}

@[simp] instance [DecidablePred P] (text : Bytes) : Decidable (Over P text) :=
  List.decidableBAll P text

theorem over_nil : Over P [] := fun _ hc => absurd hc List.not_mem_nil

@[simp] theorem over_append : Over P (text ++ text') ↔ Over P text ∧
    Over P text' := List.forall_mem_append

/-- An error is spelled in the alphabet, and a result is as `Q` says. -/
def ResultOver {α : Type} (P : Byte → Prop) (Q : α → Prop) : Except Bytes α → Prop
  | .error reason => Over P reason
  | .ok a => Q a

/-! ### The store -/

/-- What is read is in the alphabet, and so is what is written. -/
def alphabet (P : Byte → Prop) : Contract Call Call.Resp where
  Guarantees
    | .put _ value | .putIfVersion _ _ value => Over P value
    | .batchPutIfVersion _ writes => ∀ write ∈ writes, Over P write.value
    | _ => True
  Assumes
    | .get _, current => Over P (current : VersionedValue).value
    | _, _ => True

def StoreOver (P : Byte → Prop) (s : MemoryKVStore) : Prop := ∀ k, Over P (s.get k).value

theorem StoreOver.write {s : MemoryKVStore} (h : StoreOver P s) (key : Bytes) {value : Bytes}
    (hvalue : Over P value) :
    StoreOver P (s.write key value) := by
  intro k
  rw [MemoryKVStore.get_write]
  split
  · exact hvalue
  · exact h k

theorem StoreOver.applyWrites {s : MemoryKVStore} (h : StoreOver P s) {writes : List WriteOp}
    (hwrites : ∀ write ∈ writes, Over P write.value) : StoreOver P (s.applyWrites writes) := by
  induction writes generalizing s with
  | nil => exact h
  | cons write writes ih =>
    rw [List.forall_mem_cons] at hwrites
    exact ih (h.write write.key hwrites.1) hwrites.2

theorem StoreOver.deleteIfVersion {s : MemoryKVStore} (h : StoreOver P s)
    (key : Bytes) (v : UInt64) :
    StoreOver P (s.deleteIfVersion key v).2 := by
  by_cases hv : s.getVersion key = v
  · obtain ⟨-, hget⟩ := MemoryKVStore.deleteIfVersion_of_eq hv
    intro k
    rw [hget]
    split
    · exact over_nil
    · exact h k
  · rw [MemoryKVStore.deleteIfVersion_of_ne hv]
    exact h

theorem StoreOver.putIfVersion {s : MemoryKVStore} (h : StoreOver P s) (key : Bytes)
    (v : UInt64) {value : Bytes} (hvalue : Over P value) :
    StoreOver P (s.putIfVersion key v value).2 := by
  by_cases hv : s.getVersion key = v
  · rw [MemoryKVStore.putIfVersion_of_eq value hv]
    exact h.write key hvalue
  · intro k
    rw [(MemoryKVStore.get_putIfVersion_of_ne value hv k).1]
    exact h k

theorem alphabet_sustains (P : Byte → Prop) (kind : StoreKind) :
    (alphabet P).Sustains (handle kind) fun w => StoreOver P w.store where
  assumes op w hw := by
    cases op with
    | get key => exact hw key
    | _ => trivial
  kept op w hop hw := by
    cases op with
    | put key value => exact hw.write key hop
    | putIfVersion key v value => exact hw.putIfVersion key v hop
    | deleteIfVersion key v => exact hw.deleteIfVersion key v
    | batchPutIfVersion checks writes =>
      cases kind with
      | nonBatchMemory => exact hw
      | memory =>
        show StoreOver P (w.store.batchPutIfVersion checks writes).2
        unfold MemoryKVStore.batchPutIfVersion
        split
        · exact hw.applyWrites hop
        · exact hw
    | renameFile source target =>
      rw [store_handle_of_onFiles rfl]
      exact hw
    | _ => exact hw

theorem guarantees_of_reads {op : Call} (hop : op.reads = true) : (alphabet P).Guarantees op := by
  cases op <;> trivial

/-! ### Branches -/

structure EntryOver (P : Byte → Prop) (entry : ObjectCacheEntry) : Prop where
  objectId : Over P entry.objectId
  baseValue : Over P entry.baseValue
  currentValue : Over P entry.currentValue

structure IntentOver (P : Byte → Prop) (intent : WriteIntent) : Prop where
  objectId : Over P intent.objectId
  payload : Over P intent.payload

/-- What the branch has read and written, and what it will have written after a rollback, is in
the alphabet. -/
structure BranchOver (P : Byte → Prop) (branch : BranchContext) : Prop where
  reads : ∀ read ∈ branch.readSet.entries, Over P read.objectId
  writes : Throughout (fun records => ∀ record ∈ records, EntryOver P record.entry ∧
    IntentOver P record.intent) branch

theorem kept_branchOver (P : Byte → Prop) : Kept (BranchOver P) := by
  have hkept : Kept (Throughout fun records => ∀ record ∈ records, EntryOver P record.entry ∧
      IntentOver P record.intent) :=
    kept_throughout (List.forall_mem_nil _)
  exact {
    new := fun branchId => ⟨List.forall_mem_nil _, hkept.new branchId⟩
    setStatus := fun h status => ⟨h.reads, hkept.setStatus h.writes status⟩
    createSavepoint := fun h savepointId => ⟨h.reads, hkept.createSavepoint h.writes savepointId⟩
    rollbackToSavepoint := fun {branch} h savepointId => by
      refine ⟨?_, hkept.rollbackToSavepoint h.writes savepointId⟩
      have hreads : (RollbackManager.rollbackToSavepoint branch savepointId).2.readSet =
          branch.readSet := by
        unfold RollbackManager.rollbackToSavepoint
        split <;> rfl
      rw [hreads]
      exact h.reads
    discardBranch := fun h => ⟨h.reads, hkept.discardBranch h.writes⟩ }

section Branches

variable {branch : BranchContext} {entry : ObjectCacheEntry}
  {intent : WriteIntent} {k objectId : Bytes}

theorem BranchOver.find (h : BranchOver P branch) (hfind : branch.writeBuffer.find k = some entry) :
    EntryOver P entry := by
  obtain ⟨records, hwritten, hall⟩ := h.writes.now
  rw [hwritten.find, Option.map_eq_some_iff] at hfind
  obtain ⟨record, hrecord, rfl⟩ := hfind
  exact (hall record (List.mem_reverse.1 (List.mem_of_find?_eq_some hrecord))).1

theorem BranchOver.latest (h : BranchOver P branch)
    (hlatest : (latestIntents branch.intentLog).lookup k = some intent) :
    IntentOver P intent := by
  obtain ⟨records, hwritten, hall⟩ := h.writes.now
  rw [lookup_latestIntents, hwritten.intents] at hlatest
  obtain ⟨record, hrecord, rfl⟩ :=
    List.mem_map.1 (List.mem_reverse.1 (List.mem_of_find?_eq_some hlatest))
  exact (hall record hrecord).2

theorem over_toString (hP : ∀ c, isStructural c = true → P c) (i : Int64) :
    Over P (Intent.toString i) :=
  forall_mem_signedDecimal hP i.toInt

theorem EntryOver.updateEntry (hP : ∀ c, isStructural c = true → P c) (h : EntryOver P entry)
    (hintent : IntentOver P intent) (objectType : ObjectType) :
    EntryOver P (updateEntry entry objectType intent) := by
  refine ⟨h.objectId, h.baseValue, ?_⟩
  show Over P (bufferedValue entry intent)
  unfold bufferedValue
  cases intent.intentType with
  | read => exact h.baseValue
  | overwrite => exact hintent.payload
  | cas => exact hintent.payload
  | append => exact over_append.2 ⟨h.currentValue, hintent.payload⟩
  | delta =>
    simp only
    split
    · exact over_toString hP _
    · exact h.currentValue

theorem BranchOver.recordWrite (hP : ∀ c, isStructural c = true → P c) (h : BranchOver P branch)
    (hentry : EntryOver P entry) (hintent : IntentOver P intent) (objectType : ObjectType) :
    BranchOver P (recordWrite branch entry objectType intent) := by
  obtain ⟨records, hwritten, hall⟩ := h.writes
  refine ⟨h.reads, _, hwritten.recordWrite entry objectType intent, fun n => ?_⟩
  intro record hrecord
  rcases List.mem_append.1 (List.mem_of_mem_take hrecord) with hold | hnew
  · have hfull := hall records.length
    rw [List.take_length] at hfull
    exact hfull record hold
  · rw [List.mem_singleton.1 hnew]
    exact ⟨hentry.updateEntry hP hintent objectType, hintent⟩

theorem meets_readObject (h : BranchOver P branch) (hid : Over P objectId) :
    (readObject branch objectId).Meets (alphabet P) fun out => Over P out.1.value ∧
      BranchOver P out.2 := by
  unfold readObject
  cases hfind : branch.writeBuffer.find objectId with
  | some buffered => exact ⟨(h.find hfind).currentValue, (kept_branchOver P).setStatus h .running⟩
  | none =>
    refine ⟨trivial, fun value hvalue => ⟨hvalue, ?_, h.writes.congr rfl rfl rfl⟩⟩
    exact List.forall_mem_append.2 ⟨h.reads, List.forall_mem_singleton.2 hid⟩

theorem meets_bufferWrite (hP : ∀ c, isStructural c = true → P c) (h : BranchOver P branch)
    (hid : Over P objectId) (hintent : IntentOver P intent) (objectType : ObjectType) :
    (bufferWrite branch objectId objectType intent).Meets (alphabet P) (BranchOver P) := by
  unfold bufferWrite
  cases hfind : branch.writeBuffer.find objectId with
  | some existing => exact h.recordWrite hP (h.find hfind) hintent objectType
  | none =>
    refine ⟨trivial, fun base hbase => ?_⟩
    have hentry : EntryOver P (newEntry objectId objectType base) := ⟨hid, hbase, hbase⟩
    exact h.recordWrite hP hentry hintent objectType

end Branches

/-! ### Commits -/

theorem over_resolveWrite (hP : ∀ c, isStructural c = true → P c) {entry : ObjectCacheEntry}
    {intent : WriteIntent} {current : Bytes} (hentry : EntryOver P entry)
    (hintent : IntentOver P intent) (hcurrent : Over P current) :
    Over P (resolveWrite entry intent current).value ∧
      Over P (resolveWrite entry intent current).reason := by
  have hrebase : Over P (ascii "delta rebase requires integer base/current values") :=
    forall_mem_of_all hP (by decide)
  have hcondition : Over P (ascii "cas condition no longer holds") :=
    forall_mem_of_all hP (by decide)
  unfold resolveWrite
  cases intent.intentType with
  | read => exact ⟨over_nil, over_nil⟩
  | overwrite => exact ⟨hentry.currentValue, over_nil⟩
  | append =>
    simp only
    split
    · exact ⟨over_append.2 ⟨hcurrent, fun c hc => hentry.currentValue c (List.mem_of_mem_drop hc)⟩,
        over_nil⟩
    · exact ⟨over_append.2 ⟨hcurrent, hintent.payload⟩, over_nil⟩
  | delta =>
    simp only
    split
    · exact ⟨over_toString hP _, over_nil⟩
    · split
      · exact ⟨over_toString hP _, over_nil⟩
      · exact ⟨over_nil, hrebase⟩
  | cas =>
    simp only
    split
    · exact ⟨over_nil, hcondition⟩
    · exact ⟨hentry.currentValue, over_nil⟩

structure WriteOver (P : Byte → Prop) (write : WriteOp) : Prop where
  key : Over P write.key
  value : Over P write.value

theorem over_readChecks (hP : ∀ c, isStructural c = true → P c) {reads : List ReadRecord}
    (hreads : ∀ read ∈ reads, Over P read.objectId) (seenChecks : UnorderedMap UInt64) :
    ResultOver P (fun _ => True) (CommitManager.readChecks reads seenChecks) := by
  induction reads generalizing seenChecks with
  | nil => trivial
  | cons read reads ih =>
    rw [List.forall_mem_cons] at hreads
    rw [CommitManager.readChecks]
    simp only
    split
    · exact over_append.2 ⟨forall_mem_of_all hP (by decide), hreads.1⟩
    · exact ih hreads.2 _

theorem over_expectVersion (hP : ∀ c, isStructural c = true → P c) {entry : ObjectCacheEntry}
    (hentry : EntryOver P entry) (intent : WriteIntent) (current : VersionedValue)
    (seenChecks : UnorderedMap UInt64) :
    ResultOver P (fun _ => True) (expectVersion entry intent current seenChecks) := by
  unfold expectVersion addOrVerifyCheck
  simp only
  split
  · trivial
  · split
    · exact over_append.2 ⟨forall_mem_of_all hP (by decide), hentry.objectId⟩
    · trivial

theorem meets_resolveEntries (hP : ∀ c, isStructural c = true → P c)
    {latest : UnorderedMap WriteIntent}
    (hlatest : ∀ k intent, latest.lookup k = some intent → IntentOver P intent)
    {entries : List ObjectCacheEntry} (hentries : ∀ entry ∈ entries, EntryOver P entry)
    {seenChecks : UnorderedMap UInt64} {writes : List WriteOp}
    (hwrites : ∀ write ∈ writes, WriteOver P write) :
    (resolveEntries latest entries seenChecks writes).Meets (alphabet P)
      (ResultOver P fun out => ∀ write ∈ out.2, WriteOver P write) := by
  induction entries generalizing seenChecks writes with
  | nil => exact hwrites
  | cons entry entries ih =>
    rw [List.forall_mem_cons] at hentries
    obtain ⟨hentry, hentries⟩ := hentries
    rw [resolveEntries]
    cases hfind : latest.lookup entry.objectId with
    | none => exact over_append.2 ⟨forall_mem_of_all hP (by decide), hentry.objectId⟩
    | some intent =>
      simp only [Store.get_bind, Program.meets_call]
      refine ⟨trivial, fun current hcurrent => ?_⟩
      obtain ⟨hvalue, hreason⟩ := over_resolveWrite hP hentry (hlatest _ intent hfind) hcurrent
      split
      · split
        · exact over_append.2 ⟨forall_mem_of_all hP (by decide), hentry.objectId⟩
        · exact over_append.2
            ⟨over_append.2 ⟨hreason, forall_mem_of_all hP (by decide)⟩, hentry.objectId⟩
      · split
        · exact ih hentries hwrites
        · have hexpected := over_expectVersion hP hentry intent current seenChecks
          cases hversion : expectVersion entry intent current seenChecks with
          | error reason =>
            rw [hversion] at hexpected
            exact hexpected
          | ok seenChecks =>
            exact ih hentries
              (List.forall_mem_append.2
                ⟨hwrites, List.forall_mem_singleton.2 ⟨hentry.objectId, hvalue⟩⟩)

section Fallback

/-- What is taken back is what was there. -/
theorem meets_rollbackAppliedWrites (hP : ∀ c, isStructural c = true → P c)
    {applied : List AppliedWrite}
    (happlied : ∀ a ∈ applied, Over P a.key ∧ Over P a.previousValue) :
    (rollbackAppliedWrites applied).Meets (alphabet P) fun reason => ∀ text,
      reason = some text → Over P text := by
  have hfailed : ∀ a : AppliedWrite, Over P a.key → ∀ text,
      some (ascii "fallback rollback failed for " ++ a.key) = some text → Over P text := by
    rintro a hkey _ ⟨⟩
    exact over_append.2 ⟨forall_mem_of_all hP (by decide), hkey⟩
  induction applied with
  | nil =>
    intro text h
    cases h
  | cons a older ih =>
    rw [List.forall_mem_cons] at happlied
    rw [rollbackAppliedWrites]
    have hrest : ∀ rolledBack : Bool,
      Program.Meets (alphabet P) (fun reason => ∀ text, reason = some text → Over P text)
        (if rolledBack then rollbackAppliedWrites older
            else return some (ascii "fallback rollback failed for " ++ a.key)) := by
      intro rolledBack
      cases rolledBack with
      | false => exact hfailed a happlied.1.1
      | true => exact ih happlied.2
    split
    · exact ⟨happlied.1.2, fun rolledBack _ => hrest rolledBack⟩
    · exact ⟨trivial, fun rolledBack _ => hrest rolledBack⟩

theorem meets_applyWithoutBatch (hP : ∀ c, isStructural c = true → P c)
    (expected : UnorderedMap UInt64) {writes : List WriteOp}
    (hwrites : ∀ write ∈ writes, WriteOver P write) {applied : List AppliedWrite}
    (happlied : ∀ a ∈ applied, Over P a.key ∧ Over P a.previousValue) :
    (applyWithoutBatch expected writes applied).Meets (alphabet P)
      (ResultOver P fun _ => True) := by
  induction writes generalizing applied with
  | nil => trivial
  | cons write writes ih =>
    rw [List.forall_mem_cons] at hwrites
    obtain ⟨hwrite, hwrites⟩ := hwrites
    have hundo : ∀ {reason : Bytes}, Over P reason →
        (rollbackAppliedWrites applied >>= fun undone =>
          (return .error (undone.getD reason) : Prog (Except Bytes Unit))).Meets (alphabet P)
            (ResultOver P fun _ => True) := by
      intro reason hreason
      refine (meets_rollbackAppliedWrites hP happlied).bind fun undone hundone => ?_
      cases undone with
      | none => exact hreason
      | some text => exact hundone text rfl
    rw [applyWithoutBatch]
    split
    next => exact over_append.2 ⟨forall_mem_of_all hP (by decide), hwrite.key⟩
    next version _ =>
      rw [Store.get_bind, Program.meets_call]
      refine ⟨trivial, fun current hcurrent => ?_⟩
      split
      · exact hundo (over_append.2 ⟨forall_mem_of_all hP (by decide), hwrite.key⟩)
      · refine ⟨hwrite.value, fun put _ => ?_⟩
        cases put with
        | false => exact hundo (over_append.2 ⟨forall_mem_of_all hP (by decide), hwrite.key⟩)
        | true => exact ih hwrites (List.forall_mem_cons.2 ⟨⟨hwrite.key, hcurrent⟩, happlied⟩)

structure FallbackEntryOver (P : Byte → Prop) (entry : FallbackCommitEntry) : Prop where
  key : Over P entry.key
  targetValue : Over P entry.targetValue
  previousValue : Over P entry.previousValue

theorem meets_prepareEntries (hP : ∀ c, isStructural c = true → P c)
    (expected : UnorderedMap UInt64) {writes : List WriteOp}
    (hwrites : ∀ write ∈ writes, WriteOver P write) {entries : List FallbackCommitEntry}
    (hentries : ∀ entry ∈ entries, FallbackEntryOver P entry) :
    (prepareEntries expected writes entries).Meets (alphabet P)
      (ResultOver P fun entries => ∀ entry ∈ entries, FallbackEntryOver P entry) := by
  induction writes generalizing entries with
  | nil => exact hentries
  | cons write writes ih =>
    rw [List.forall_mem_cons] at hwrites
    rw [prepareEntries]
    split
    next => exact over_append.2 ⟨forall_mem_of_all hP (by decide), hwrites.1.key⟩
    next version _ =>
      rw [Store.get_bind, Program.meets_call]
      refine ⟨trivial, fun current hcurrent => ?_⟩
      split
      · exact over_append.2 ⟨forall_mem_of_all hP (by decide), hwrites.1.key⟩
      · exact ih hwrites.2 (List.forall_mem_append.2
          ⟨hentries, List.forall_mem_singleton.2 ⟨hwrites.1.key, hwrites.1.value, hcurrent⟩⟩)

/-- A rollback of an artifact writes the previous values. -/
theorem meets_rollbackCrashSafeArtifact {artifact : FallbackCommitArtifact}
    {artifactPath reason : Bytes} (hentries : ∀ entry ∈ artifact.entries, FallbackEntryOver P entry)
    (hreason : Over P reason) (hne : reason ≠ []) :
    (rollbackCrashSafeArtifact artifact artifactPath reason).Meets (alphabet P) (Over P) := by
  have hcalls := (@abides_resumeRollback artifactPath _ artifact rfl {}).only
  have hallowed := hcalls.mono fun op hop => show (alphabet P).Guarantees op by
    rcases hop with hreads | ⟨entry, hentry, rfl⟩ | ⟨written, rfl, -, -⟩
    · exact guarantees_of_reads hreads
    · cases hexists : entry.previousExists with
      | true =>
        rw [FallbackCommitEntry.undoCall_of_exists hexists]
        exact (hentries entry hentry).previousValue
      | false =>
        rw [FallbackCommitEntry.undoCall_of_missing hexists]
        trivial
    · trivial
  refine (Program.Only.meets hallowed).bind fun out _ => ?_
  obtain ⟨rolledBack, undone, recovery⟩ := out
  simp only [hne, decide_false, Bool.and_false, Bool.false_eq_true, ↓reduceIte]
  exact hreason

theorem meets_applyEntries (hP : ∀ c, isStructural c = true → P c) (config : FallbackCommitConfig)
    {todo : List FallbackCommitEntry} (htodo : ∀ entry ∈ todo, FallbackEntryOver P entry)
    {artifact : FallbackCommitArtifact}
    (hentries : ∀ entry ∈ artifact.entries, FallbackEntryOver P entry) :
    (applyEntries config todo artifact).Meets (alphabet P) (ResultOver P fun _ => True) := by
  induction todo generalizing artifact with
  | nil => trivial
  | cons entry todo ih =>
    rw [List.forall_mem_cons] at htodo
    have hundo : ∀ {text : Bytes}, text ≠ [] → Over P text →
        (rollbackCrashSafeArtifact artifact config.artifactPath (text ++ entry.key) >>=
            fun reason =>
          (return .error reason : Prog (Except Bytes FallbackCommitArtifact))).Meets (alphabet P)
              (ResultOver P fun _ => True) := by
      intro text hne htext
      have hreason := @meets_rollbackCrashSafeArtifact P artifact config.artifactPath
        (text ++ entry.key) hentries
        (over_append.2 ⟨htext, htodo.1.key⟩) (List.append_ne_nil_of_left_ne_nil hne _)
      exact hreason.bind fun reason hreason => hreason
    rw [applyEntries, Store.get_bind, Program.meets_call]
    refine ⟨trivial, fun current _ => ?_⟩
    split
    · exact hundo (by decide) (forall_mem_of_all hP (by decide))
    · refine ⟨htodo.1.targetValue, fun put _ => ?_⟩
      cases put with
      | false => exact hundo (by decide) (forall_mem_of_all hP (by decide))
      | true =>
        refine ⟨trivial, fun written _ => ?_⟩
        cases written with
        | false => exact forall_mem_of_all hP (by decide)
        | true =>
          simp only
          split
          · exact forall_mem_of_all hP (by decide)
          · exact ih htodo.2 hentries

theorem meets_commitPrepared (hP : ∀ c, isStructural c = true → P c) (config : FallbackCommitConfig)
    {artifact : FallbackCommitArtifact}
    (hentries : ∀ entry ∈ artifact.entries, FallbackEntryOver P entry) :
    (commitPrepared config artifact).Meets (alphabet P) (ResultOver P fun _ => True) := by
  refine ⟨trivial, fun written _ => ?_⟩
  cases written with
  | false => exact forall_mem_of_all hP (by decide)
  | true =>
    refine (meets_applyEntries hP config hentries hentries).bind fun applied happlied => ?_
    cases applied with
    | error reason => exact happlied
    | ok applied =>
      refine ⟨trivial, fun written _ => ?_⟩
      cases written with
      | false => exact forall_mem_of_all hP (by decide)
      | true => trivial

theorem meets_commitWinnerWithoutBatch (hP : ∀ c, isStructural c = true → P c)
    (txn : AgentTxnContext) (checks : List VersionCheck) {writes : List WriteOp}
    (hwrites : ∀ write ∈ writes, WriteOver P write) :
    (commitWinnerWithoutBatch txn checks writes).Meets (alphabet P)
      (ResultOver P fun _ => True) := by
  unfold commitWinnerWithoutBatch
  split
  · refine (meets_prepareEntries hP _ hwrites (List.forall_mem_nil _)).bind
      fun prepared hprepared => ?_
    cases prepared with
    | error reason => exact hprepared
    | ok entries => exact meets_commitPrepared hP _ hprepared
  · exact meets_applyWithoutBatch hP _ hwrites (List.forall_mem_nil _)

end Fallback

/-- The log of a commit, and what it says otherwise. -/
theorem meets_commitWinner (hP : ∀ c, isStructural c = true → P c)
    (txn : AgentTxnContext) {winner : BranchContext} (h : BranchOver P winner) :
    (commitWinner txn winner).Meets (alphabet P)
      (ResultOver P fun commitLog => ∀ entry ∈ commitLog.entries, Over P entry.key ∧
        Over P entry.value) := by
  have hlog : ∀ seenChecks {writes : List WriteOp}, (∀ write ∈ writes, WriteOver P write) →
      ∀ entry ∈ (commitLogOf seenChecks writes).entries, Over P entry.key ∧ Over P entry.value := by
    intro seenChecks writes hwrites
    exact List.forall_mem_map.2 fun write hwrite =>
      ⟨(hwrites write hwrite).key, (hwrites write hwrite).value⟩
  rw [commitWinner_eq]
  cases hread : CommitManager.readChecks winner.readSet.entries ∅ with
  | error reason =>
    have hreason := over_readChecks hP h.reads ∅
    rw [hread] at hreason
    exact hreason
  | ok seenChecks =>
    have hentries : ∀ entry ∈ winner.writeBuffer.orderedEntries, EntryOver P entry :=
      fun entry hentry => h.find (WriteBuffer.mem_orderedEntries.1 hentry)
    refine (meets_resolveEntries hP (fun _ _ hfind => h.latest hfind) hentries
      (List.forall_mem_nil _)).bind fun resolved hresolved => ?_
    cases resolved with
    | error reason => exact hresolved
    | ok resolved =>
      obtain ⟨seenChecks, writes⟩ := resolved
      refine ⟨trivial, fun supported _ => ?_⟩
      cases supported with
      | true =>
        refine ⟨fun write hwrite => (hresolved write hwrite).value, fun written _ => ?_⟩
        cases written with
        | true => exact hlog _ hresolved
        | false =>
          refine ⟨trivial, fun supported _ => ?_⟩
          cases supported with
          | true => exact forall_mem_of_all hP (by decide)
          | false => exact forall_mem_of_all hP (by decide)
      | false =>
        refine (meets_commitWinnerWithoutBatch hP txn _ hresolved).bind fun applied happlied => ?_
        cases applied with
        | error reason => exact happlied
        | ok _ => exact hlog _ hresolved

end DataAgentSystem.Experiments
