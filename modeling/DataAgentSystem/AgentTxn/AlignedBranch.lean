import DataAgentSystem.AgentTxn.RestoredSavepoints

/-! The buffer and the intents of a branch in step. Every write makes one change of the
buffer and one intent, on the same object and of the same type, and whatever cuts the one
record cuts the other at the same place; so a commit finds an intent for every entry. -/

namespace DataAgentSystem.AgentTxn

open Text Intent Cache Branch Storage Interaction Containers BranchManager CommitManager

variable {kind : StoreKind} {branch : BranchContext}

/-- The branches that operations can make of a new one, each in any world, if every write
says which object it means. -/
inductive MadeOf (kind : StoreKind) : BranchContext → Prop
  | new (branchId : Bytes) : MadeOf kind { branchId := branchId }
  | perform {branch : BranchContext} (op : BranchOp × World) : op.1.Named → MadeOf kind branch →
      MadeOf kind (BranchOp.perform kind branch op)
  | discard {branch : BranchContext} : MadeOf kind branch →
      MadeOf kind (RollbackManager.discardBranch branch)

/-- The changes of the buffer and the intents, one by one, and the entries and the latest
intents. -/
structure Aligned (branch : BranchContext) : Prop where
  size : branch.writeBuffer.size = branch.intentLog.size
  sameObject : ∀ (i : ℕ) change intent, branch.writeBuffer.changes.reverse[i]? = some change →
    branch.intentLog.entries[i]? = some intent → change.objectId = intent.objectId
  latest : ∀ entry ∈ branch.writeBuffer.orderedEntries, ∃ intent,
    (latestIntents branch.intentLog).lookup entry.objectId = some intent ∧
      intent.intentType = entry.intentType

/-- The entry that a write left and its intent are of one object and of one type. -/
structure Matches (record : WriteRecord) : Prop where
  objectId : record.intent.objectId = record.entry.objectId
  intentType : record.intent.intentType = record.entry.intentType

/-! ### Every write matches -/

theorem objectId_startEntry (branch : BranchContext) (objectId : Bytes) (objectType : ObjectType)
    (base : VersionedValue) :
    (startEntry branch objectId objectType base).objectId = objectId := by
  unfold startEntry
  cases hfind : branch.writeBuffer.find objectId with
  | none => rfl
  | some entry => exact branch.writeBuffer.consistent.objectId_eq hfind

theorem MadeOf.matches (h : MadeOf kind branch) :
    Throughout (fun records => ∀ r ∈ records, Matches r) branch := by
  have hkept : Kept (Throughout fun records => ∀ r ∈ records, Matches r) :=
    kept_throughout (List.forall_mem_nil _)
  induction h with
  | new branchId => exact hkept.new branchId
  | @perform branch op hnamed _ ih =>
    obtain ⟨op, w⟩ := op
    cases op with
    | read objectId => exact ih.readObject objectId w
    | write objectId objectType intent =>
      refine ih.bufferWrite fun records _ hall =>
        List.forall_mem_append.2 ⟨hall, List.forall_mem_singleton.2 ⟨?_, rfl⟩⟩
      have hintent : intent.objectId = objectId := hnamed
      exact hintent.trans
        (objectId_startEntry branch objectId objectType (w.store.get objectId)).symm
    | savepoint savepointId => exact hkept.createSavepoint ih savepointId
    | rollbackToSavepoint savepointId => exact hkept.rollbackToSavepoint ih savepointId
    | stage score summary => exact ih.congr rfl rfl rfl
  | discard _ ih => exact hkept.discardBranch ih

theorem HasWritten.aligned {records : List WriteRecord} (h : HasWritten branch records)
    (hmatch : ∀ r ∈ records, Matches r) :
    Aligned branch := by
  constructor
  · rw [h.size, IntentLog.size, h.intents, List.length_map]
  · intro i change intent hchange hintent
    have hobject : (branch.writeBuffer.changes.reverse.map (·.objectId))[i]? =
        some change.objectId := by
      rw [List.getElem?_map, hchange, Option.map_some]
    rw [h.buffer, map_objectId_changes_replay, List.map_map, List.getElem?_map] at hobject
    rw [h.intents, List.getElem?_map] at hintent
    obtain ⟨record, hrecord, rfl⟩ := Option.map_eq_some_iff.1 hintent
    rw [hrecord] at hobject
    rw [(hmatch record (List.mem_of_getElem? hrecord)).objectId]
    exact (Option.some.inj hobject).symm
  · intro entry hentry
    obtain ⟨record, hrecord, rfl, hlast⟩ :=
      h.exists_last (fun r hr => (hmatch r hr).objectId) (WriteBuffer.mem_orderedEntries.1 hentry)
    exact ⟨record.intent, by rw [lookup_latestIntents, hlast], (hmatch record hrecord).intentType⟩

theorem MadeOf.aligned (h : MadeOf kind branch) : Aligned branch := by
  obtain ⟨records, hwritten, hmatch⟩ := h.matches.now
  exact hwritten.aligned hmatch

/-! ### What a commit reports -/

/-- The text is not about an object without an intent. -/
def ReportsOther (reason : Bytes) : Prop :=
  ∀ objectId, reason ≠ ascii "missing latest intent for " ++ objectId

/-- A text that goes another way than the report is not the report, however it ends. -/
theorem reportsOther {text : Bytes}
    (h : ¬text <+: ascii "missing latest intent for " ∧
      ¬ascii "missing latest intent for " <+: text)
    (rest : Bytes) : ReportsOther (text ++ rest) := by
  intro objectId heq
  have hprefix : text <+: ascii "missing latest intent for " ++ objectId := ⟨rest, heq⟩
  rcases List.prefix_or_prefix_of_prefix hprefix (List.prefix_append _ _) with htext | hreport
  · exact h.1 htext
  · exact h.2 hreport

theorem reportsOther_text {text : Bytes}
    (h : ¬text <+: ascii "missing latest intent for " ∧ ¬ascii "missing latest intent for " <+:
      text) : ReportsOther text := by
  have happend := reportsOther h []
  rwa [List.append_nil] at happend

/-- Whatever the result reports, it is not that. -/
def OtherError {α : Type} (r : Except Bytes α) : Prop :=
  ∀ reason, r = .error reason → ReportsOther reason

@[simp] theorem otherError_ok {α : Type} (a : α) : OtherError (.ok a) := fun _ h => nomatch h

@[simp] theorem otherError_error {α : Type} {reason : Bytes} :
    OtherError (.error reason : Except Bytes α) ↔ ReportsOther reason := by
  simp [OtherError]

theorem readChecks_reportsOther {reads : List ReadRecord} {seenChecks : UnorderedMap UInt64}
    {reason : Bytes} (h : readChecks reads seenChecks = .error reason) : ReportsOther reason := by
  induction reads generalizing seenChecks with
  | nil => cases h
  | cons read reads ih =>
    simp only [readChecks] at h
    split at h
    next =>
      cases h
      exact reportsOther (by decide) read.objectId
    next => exact ih h

theorem expectVersion_reportsOther {entry : ObjectCacheEntry} {intent : WriteIntent}
    {current : VersionedValue} {seenChecks : UnorderedMap UInt64} {reason : Bytes}
    (h : expectVersion entry intent current seenChecks = .error reason) :
    ReportsOther reason := by
  simp only [expectVersion, addOrVerifyCheck] at h
  split at h
  next => cases h
  next =>
    split at h
    next =>
      cases h
      exact reportsOther (by decide) entry.objectId
    next => cases h

theorem reason_resolveWrite (entry : ObjectCacheEntry) (intent : WriteIntent) (current : Bytes) :
    (resolveWrite entry intent current).reason = [] ∨
      (resolveWrite entry intent current).reason =
        ascii "delta rebase requires integer base/current values" ∨
      (resolveWrite entry intent current).reason = ascii "cas condition no longer holds" := by
  unfold resolveWrite
  cases intent.intentType with
  | read => simp
  | overwrite => simp
  | append =>
    simp only
    split <;> simp
  | delta =>
    simp only
    split
    next => simp
    next => split <;> simp
  | cas =>
    simp only
    split <;> simp

/-- A commit that has an intent for every entry does not report that it misses one. -/
theorem resolveEntries_reportsOther {latest : UnorderedMap WriteIntent}
    {entries : List ObjectCacheEntry}
    (hfound : ∀ entry ∈ entries, ∃ intent, latest.lookup entry.objectId = some intent)
    (seenChecks : UnorderedMap UInt64) (writes : List WriteOp) :
    (resolveEntries latest entries seenChecks writes).Returns OtherError := by
  induction entries generalizing seenChecks writes with
  | nil => exact otherError_ok _
  | cons entry entries ih =>
    rw [List.forall_mem_cons] at hfound
    obtain ⟨⟨intent, hintent⟩, hrest⟩ := hfound
    rw [resolveEntries, hintent]
    simp only
    rw [Store.get_bind, Program.returns_call]
    intro current
    split
    next =>
      rintro reason ⟨rfl⟩
      rcases reason_resolveWrite entry intent current.value with hnone | hdelta | hcas
      · rw [if_pos hnone]
        exact reportsOther (by decide) entry.objectId
      · rw [hdelta, if_neg (by decide)]
        exact reportsOther (by decide) _
      · rw [hcas, if_neg (by decide)]
        exact reportsOther (by decide) _
    next =>
      split
      next => exact ih hrest seenChecks writes
      next =>
        split
        next what herror => exact otherError_error.2 (expectVersion_reportsOther herror)
        next seen' _ => exact ih hrest seen' _

theorem rollbackAppliedWrites_reportsOther (appliedWrites : List AppliedWrite) :
    (rollbackAppliedWrites appliedWrites).Returns fun r => ∀ reason, r = some reason →
      ReportsOther reason := by
  induction appliedWrites with
  | nil => exact fun reason h => nomatch h
  | cons applied older ih =>
    have hnext : ∀ rolledBack : Bool, (if rolledBack = true then rollbackAppliedWrites older
        else pure (some (ascii "fallback rollback failed for " ++ applied.key))).Returns
          fun r => ∀ reason, r = some reason → ReportsOther reason := by
      intro rolledBack
      cases rolledBack with
      | true => exact ih
      | false =>
        rintro reason ⟨rfl⟩
        exact reportsOther (by decide) applied.key
    rw [rollbackAppliedWrites]
    split
    next => exact (Program.returns_true _).bind fun rolledBack _ => hnext rolledBack
    next => exact (Program.returns_true _).bind fun rolledBack _ => hnext rolledBack

theorem applyWithoutBatch_reportsOther {expected : UnorderedMap UInt64} {writes : List WriteOp}
    (appliedWrites : List AppliedWrite) :
    (applyWithoutBatch expected writes appliedWrites).Returns OtherError := by
  induction writes generalizing appliedWrites with
  | nil => exact otherError_ok _
  | cons write writes ih =>
    -- the reason is that of the taking back if that fails, and else the text given here
    have hback : ∀ text : Bytes, ReportsOther text →
        (rollbackAppliedWrites appliedWrites >>= fun reason =>
          Program.ret (Except.error (reason.getD text) : Except Bytes Unit)).Returns
            OtherError := by
      intro text htext
      refine (rollbackAppliedWrites_reportsOther appliedWrites).bind fun r hr => ?_
      rintro reason ⟨rfl⟩
      cases r with
      | none => exact htext
      | some reason => exact hr reason rfl
    rw [applyWithoutBatch]
    split
    next => exact otherError_error.2 (reportsOther (by decide) write.key)
    next expectedVersion _ =>
      rw [Store.get_bind, Program.returns_call]
      intro current
      split
      next => exact hback _ (reportsOther (by decide) write.key)
      next =>
        rw [Store.putIfVersion_bind, Program.returns_call]
        intro put
        cases put with
        | false => exact hback _ (reportsOther (by decide) write.key)
        | true => exact ih _

theorem prepareEntries_reportsOther {expected : UnorderedMap UInt64} {writes : List WriteOp}
    (entries : List FallbackCommitEntry) :
    (prepareEntries expected writes entries).Returns OtherError := by
  induction writes generalizing entries with
  | nil => exact otherError_ok _
  | cons write writes ih =>
    rw [prepareEntries]
    split
    next => exact otherError_error.2 (reportsOther (by decide) write.key)
    next expectedVersion _ =>
      rw [Store.get_bind, Program.returns_call]
      intro current
      split
      next => exact otherError_error.2 (reportsOther (by decide) write.key)
      next => exact ih _

theorem applyEntries_reportsOther {config : FallbackCommitConfig}
    {entries : List FallbackCommitEntry} (artifact : FallbackCommitArtifact) :
    (applyEntries config entries artifact).Returns OtherError := by
  induction entries generalizing artifact with
  | nil => exact otherError_ok _
  | cons entry entries ih =>
    -- a reason that is not empty is reported as it is
    have hback : ∀ text : Bytes, text ≠ [] → ReportsOther text →
        (rollbackCrashSafeArtifact artifact config.artifactPath text >>= fun reason =>
          Program.ret (Except.error reason : Except Bytes FallbackCommitArtifact)).Returns
              OtherError := by
      intro text hne htext
      unfold rollbackCrashSafeArtifact
      rw [Program.bind_bind]
      refine (Program.returns_true _).bind fun out _ => ?_
      simp only [hne, decide_false, Bool.and_false, Bool.false_eq_true, ↓reduceIte]
      exact otherError_error.2 htext
    rw [applyEntries, Store.get_bind, Program.returns_call]
    intro current
    split
    next => exact hback _ (by simp [ascii]) (reportsOther (by decide) entry.key)
    next =>
      rw [Store.putIfVersion_bind, Program.returns_call]
      intro put
      cases put with
      | false => exact hback _ (by simp [ascii]) (reportsOther (by decide) entry.key)
      | true =>
        refine (Program.returns_true _).bind fun written _ => ?_
        cases written with
        | false => exact otherError_error.2 (reportsOther_text (by decide))
        | true =>
          simp only [Bool.not_true, Bool.false_eq_true, ↓reduceIte]
          split
          next => exact otherError_error.2 (reportsOther_text (by decide))
          next => exact ih _

theorem commitWinnerWithoutBatch_reportsOther (txn : AgentTxnContext) (checks : List VersionCheck)
    (writes : List WriteOp) :
    (commitWinnerWithoutBatch txn checks writes).Returns OtherError := by
  unfold commitWinnerWithoutBatch
  split
  next =>
    refine (prepareEntries_reportsOther []).bind fun prepared hprepared => ?_
    cases prepared with
    | error what => exact otherError_error.2 (hprepared what rfl)
    | ok entries =>
      refine (Program.returns_true _).bind fun written _ => ?_
      cases written with
      | false => exact otherError_error.2 (reportsOther_text (by decide))
      | true =>
        refine (applyEntries_reportsOther _).bind fun applied happlied => ?_
        cases applied with
        | error what => exact otherError_error.2 (happlied what rfl)
        | ok artifact =>
          refine (Program.returns_true _).bind fun committed _ => ?_
          cases committed with
          | false => exact otherError_error.2 (reportsOther_text (by decide))
          | true => exact otherError_ok _
  next => exact applyWithoutBatch_reportsOther []

theorem Aligned.reportsOther (h : Aligned branch) (txn : AgentTxnContext) :
    (commitWinner txn branch).Returns OtherError := by
  unfold commitWinner
  cases hreads : readChecks branch.readSet.entries ∅ with
  | error what => exact otherError_error.2 (readChecks_reportsOther hreads)
  | ok seenChecks =>
    have hfound : ∀ entry ∈ branch.writeBuffer.orderedEntries, ∃ intent,
        (latestIntents branch.intentLog).lookup entry.objectId = some intent :=
            fun entry hentry => by
      obtain ⟨intent, hintent, -⟩ := h.latest entry hentry
      exact ⟨intent, hintent⟩
    refine (resolveEntries_reportsOther hfound seenChecks []).bind fun resolved hresolved => ?_
    cases resolved with
    | error what => exact otherError_error.2 (hresolved what rfl)
    | ok found =>
      refine (Program.returns_true _).bind fun batches _ => ?_
      cases batches with
      | true =>
        refine (Program.returns_true _).bind fun put _ => ?_
        cases put with
        | true => exact otherError_ok _
        | false =>
          refine (Program.returns_true _).bind fun still _ => ?_
          cases still with
          | true => exact otherError_error.2 (reportsOther_text (by decide))
          | false => exact otherError_error.2 (reportsOther_text (by decide))
      | false =>
        refine (commitWinnerWithoutBatch_reportsOther txn _ _).bind fun applied happlied => ?_
        cases applied with
        | error what => exact otherError_error.2 (happlied what rfl)
        | ok _ => exact otherError_ok _

/-- The buffer and the intents of a branch are in step, and so a commit of it does not miss an
intent. -/
theorem aligned_of_madeOf (h : MadeOf kind branch) : Aligned branch ∧ ∀ txn,
    (commitWinner txn branch).Returns fun r => ∀ objectId,
      r ≠ .error (ascii "missing latest intent for " ++ objectId) := by
  refine ⟨h.aligned, fun txn => (h.aligned.reportsOther txn).mono fun r hr objectId heq => ?_⟩
  exact hr _ heq objectId rfl

theorem madeOf_worked (branchId : Bytes) {ops : List (BranchOp × World)}
    (hnamed : ∀ op ∈ ops, op.1.Named) :
    MadeOf kind (worked kind branchId ops) := by
  induction ops using List.reverseRecOn with
  | nil => exact .new branchId
  | append_singleton ops op ih =>
    rw [List.forall_mem_append, List.forall_mem_singleton] at hnamed
    rw [worked_snoc]
    exact .perform op hnamed.2 (ih hnamed.1)

theorem aligned_of_madeOf_discards :
    Aligned (RollbackManager.rollbackToSavepoint (worked .memory (ascii "b") discards)
      (ascii "summary_sp")).2 :=
  (aligned_of_madeOf (.perform (.rollbackToSavepoint (ascii "summary_sp"), {}) trivial
    (@madeOf_worked .memory (ascii "b") _ (by simp [discards, BranchOp.Named])))).1

end DataAgentSystem.AgentTxn
