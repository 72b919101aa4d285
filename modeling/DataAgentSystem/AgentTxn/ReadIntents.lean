import DataAgentSystem.AgentTxn.ForgottenIntents
import DataAgentSystem.AgentTxn.InsertedIntents

/-! Intents that read. A read of a buffered object resets it to its base and becomes its
latest intent, so the pending write is lost unless other intents follow and make the
same of the base; and the version a read has captured is checked only where the
branch goes on to overwrite the object, or has read it besides. -/

namespace DataAgentSystem.AgentTxn

open Text Intent Cache Branch Storage Interaction Containers BranchManager
  CommitManager AgentTxnManager

variable {winner branch branch' : BranchContext} {k : Bytes} {v : UInt64}
  {entry entry' : ObjectCacheEntry} {last read : WriteIntent}

/-! ### What a commit adds to the stored value -/

def addedText (entry : ObjectCacheEntry) (intent : WriteIntent) : Bytes :=
  if entry.baseValue.isPrefixOf entry.currentValue then
    entry.currentValue.drop entry.baseValue.length
  else intent.payload

def addedNumber (entry : ObjectCacheEntry) (intent : WriteIntent) : Option Int64 :=
  match parseInt entry.baseValue, parseInt entry.currentValue with
  | some base, some branchValue => some (branchValue - base)
  | _, _ => parseInt intent.payload

theorem resolveWrite_append (htype : last.intentType = .append) (current : Bytes) :
    resolveWrite entry last current =
      { shouldWrite := true, value := current ++ addedText entry last } := by
  simp only [resolveWrite, htype, addedText]
  split <;> rfl

theorem resolveWrite_delta (htype : last.intentType = .delta) (current : Bytes) :
    resolveWrite entry last current = match parseInt current, addedNumber entry last with
      | some stored, some added =>
        { shouldWrite := true, value := Intent.toString (stored + added) }
      | _, _ => { success := false, shouldWrite := true,
                  reason := ascii "delta rebase requires integer base/current values" } := by
  simp only [resolveWrite, htype, addedNumber]
  cases parseInt current with
  | none => rfl
  | some stored =>
    cases parseInt entry.baseValue with
    | none => rfl
    | some base =>
      cases parseInt entry.currentValue with
      | none => rfl
      | some branchValue => rfl

theorem resolveWrite_cas (htype : last.intentType = .cas)
    (hcurrent : entry'.currentValue = entry.currentValue) (current : Bytes) :
    resolveWrite entry' last current = resolveWrite entry last current := by
  simp only [resolveWrite, htype, hcurrent]

/-- The two entries make the latest intent add the same. -/
def AddsSame (entry entry' : ObjectCacheEntry) (last : WriteIntent) : Prop :=
  match last.intentType with
  | .append => addedText entry' last = addedText entry last
  | .delta => addedNumber entry' last = addedNumber entry last
  | _ => True

/-- Entries resolve alike, whatever the store holds, exactly if they make the latest intent add
the same. -/
theorem resolveWrite_eq_iff (hset : last.intentType = .overwrite ∨ last.intentType = .cas →
      entry'.currentValue = entry.currentValue) :
    (∀ current, resolveWrite entry' last current = resolveWrite entry last current) ↔
      AddsSame entry entry' last := by
  cases htype : last.intentType with
  | read =>
    simp only [AddsSame, htype, iff_true]
    intro current
    rw [resolveWrite_read _ htype, resolveWrite_read _ htype]
  | overwrite =>
    simp only [AddsSame, htype, iff_true]
    intro current
    rw [resolveWrite_overwrite _ htype, resolveWrite_overwrite _ htype, hset (.inl htype)]
  | cas =>
    simp only [AddsSame, htype, iff_true]
    exact resolveWrite_cas htype (hset (.inr htype))
  | append =>
    simp only [AddsSame, htype]
    constructor
    · intro h
      have hempty := h []
      rw [resolveWrite_append htype, resolveWrite_append htype] at hempty
      exact congrArg ResolveResult.value hempty
    · intro h current
      rw [resolveWrite_append htype, resolveWrite_append htype, h]
  | delta =>
    simp only [AddsSame, htype]
    constructor
    · intro h
      have hzero := h (Intent.toString 0)
      rw [resolveWrite_delta htype, resolveWrite_delta htype, parseInt_toString] at hzero
      cases hadded' : addedNumber entry' last with
      | none =>
        cases hadded : addedNumber entry last with
        | none => rfl
        | some n => simp [hadded', hadded] at hzero
      | some n' =>
        cases hadded : addedNumber entry last with
        | none => simp [hadded', hadded] at hzero
        | some n =>
          simp only [hadded', hadded] at hzero
          have hvalue := congrArg parseInt (congrArg ResolveResult.value hzero)
          simp only [parseInt_toString, Option.some.injEq] at hvalue
          rw [Int64.zero_add, Int64.zero_add] at hvalue
          rw [hvalue]
    · intro h current
      rw [resolveWrite_delta htype, resolveWrite_delta htype, h]

/-! ### Pending writes -/

/-- The branch would write the object. -/
def Pending (branch : BranchContext) (k : Bytes) : Prop :=
  ∃ entry ∈ writtenEntries branch, entry.objectId = k

/-- What a commit that gets this value of the object makes of it. -/
def resolved (branch : BranchContext) (k current : Bytes) : Option ResolveResult :=
  match branch.writeBuffer.find k, (latestIntents branch.intentLog).lookup k with
  | some entry, some intent => some (resolveWrite entry intent current)
  | _, _ => none

/-- Both branches end on the object with one intent, and it adds the same. -/
structure Alike (branch branch' : BranchContext) (k : Bytes) : Prop where
  latest : (live branch'.intentLog.entries k).getLast? = (live branch.intentLog.entries k).getLast?
  adds : ∀ entry entry' last, branch.writeBuffer.find k = some entry →
    branch'.writeBuffer.find k = some entry' →
    IsLatest branch k last → AddsSame entry entry' last

theorem resolved_eq (hentry : branch.writeBuffer.find k = some entry)
    (hlast : IsLatest branch k last) (current : Bytes) :
    resolved branch k current = some (resolveWrite entry last current) := by
  rw [resolved, hentry, lookup_of_isLatest hlast]

/-- A latest intent that sets the value has set the buffered value. -/
theorem currentValue_of_set (hsynced : Synced (fun _ _ => True) branch)
    (hentry : branch.writeBuffer.find k = some entry) (hlast : IsLatest branch k last)
    (hset : last.intentType = .overwrite ∨ last.intentType = .cas) :
    entry.currentValue = last.payload := by
  obtain ⟨base, -, hbuffers⟩ := hsynced.buffers hentry
  rw [hbuffers.currentValue, ← List.dropLast_append_getLast? last hlast,
    bufferedFrom_snoc, bufferedValue]
  rcases hset with htype | htype
  · rw [htype]
  · rw [htype]

/-- A read among the intents of a pending write changes nothing that is committed exactly
if both histories end alike. -/
theorem resolved_eq_iff {base : Bytes} {front : List WriteIntent}
    (hsynced : Synced (fun _ _ => True) branch) (hsynced' : Synced (fun _ _ => True) branch')
    (hparallel : Parallel k base front read branch branch') (hread : read.intentType = .read)
    (hid : read.objectId = k)
    (hfront : ∀ last, (live front k).getLast? = some last → last.intentType ≠ .read) :
    (∀ current, resolved branch' k current = resolved branch k current) ↔
      Alike branch branch' k := by
  rcases hparallel.buffered with ⟨hbuffer, hlog⟩ | ⟨entry, entry', back, hentry,
    hentry', hbase, hlog, hlog'⟩
  · refine iff_of_true (fun current => by rw [resolved, resolved, hbuffer, hlog]) ⟨by rw [hlog], ?_⟩
    intro entry entry' last hentry hentry' _
    rw [hbuffer, hentry] at hentry'
    obtain rfl := Option.some.inj hentry'
    unfold AddsSame
    split <;> trivial
  · have hlive : live branch.intentLog.entries k = live front k ++ live back k := by
      rw [hlog, live, List.filter_append]
      rfl
    have hlive' : live branch'.intentLog.entries k = live front k ++ read :: live back k := by
      rw [hlog', live, List.filter_append, List.filter_cons_of_pos (by simpa using hid)]
      rfl
    have hsome : ∃ last, IsLatest branch k last := by
      have hne : live branch.intentLog.entries k ≠ [] := by
        intro hnil
        rw [(hsynced.find_eq_none_iff k).2 hnil] at hentry
        cases hentry
      exact ⟨_, List.getLast?_eq_getLast_of_ne_nil hne⟩
    obtain ⟨last, hlast⟩ := hsome
    by_cases hback : live back k = []
    · -- the read comes last
      have hlast' : IsLatest branch' k read := by
        rw [IsLatest, hlive', hback, List.getLast?_concat]
      have hwrites : last.intentType ≠ .read := by
        apply hfront last
        rw [IsLatest, hlive, hback, List.append_nil] at hlast
        exact hlast
      refine iff_of_false (fun h => ?_) fun h => ?_
      · have hsame := h []
        rw [resolved_eq hentry' hlast', resolved_eq hentry hlast, resolveWrite_read _ hread,
          Option.some.injEq] at hsame
        have hsuccess : (resolveWrite entry last []).success = true := by rw [← hsame]
        have hskip : (resolveWrite entry last []).shouldWrite = false := by rw [← hsame]
        rw [(shouldWrite_iff hsuccess).2 hwrites] at hskip
        cases hskip
      · have hsame := h.latest
        rw [hlast', hlast] at hsame
        exact hwrites (Option.some.inj hsame ▸ hread)
    · have hlast' : IsLatest branch' k last := by
        rw [IsLatest, hlive, List.getLast?_append_of_ne_nil _ hback] at hlast
        rw [IsLatest, hlive', List.getLast?_append_of_ne_nil _ (List.cons_ne_nil _ _),
          ← List.singleton_append, List.getLast?_append_of_ne_nil _ hback]
        exact hlast
      have hset : last.intentType = .overwrite ∨ last.intentType = .cas →
          entry'.currentValue = entry.currentValue := by
        intro htype
        rw [currentValue_of_set hsynced' hentry' hlast' htype,
          currentValue_of_set hsynced hentry hlast htype]
      have hiff := resolveWrite_eq_iff hset
      constructor
      · intro h
        refine ⟨hlast'.trans hlast.symm, fun e e' l he he' hl => ?_⟩
        obtain rfl := Option.some.inj (hentry.symm.trans he)
        obtain rfl := Option.some.inj (hentry'.symm.trans he')
        obtain rfl := Option.some.inj (hlast.symm.trans hl)
        refine hiff.1 fun current => ?_
        have hsame := h current
        rw [resolved_eq hentry' hlast', resolved_eq hentry hlast] at hsame
        exact Option.some.inj hsame
      · intro h current
        rw [resolved_eq hentry' hlast', resolved_eq hentry hlast]
        exact congrArg some (hiff.2 (h.adds entry entry' last hentry hentry' hlast) current)

/-! ### Captured versions -/

/-- Commits of the transaction find the object at this version. -/
def SucceedsOnlyAt (txn : AgentTxnContext) (k : Bytes) (v : UInt64) : Prop :=
  ∀ tr txn' checks writes before,
    (selectWinnerAndCommit txn).Interfered (handle .memory) tr (.ok true, txn') →
    ⟨.batchPutIfVersion checks writes, before⟩ ∈ tr → before.store.getVersion k = v

/-- The object is not rebased, and is written over this version or has been read at it. -/
def Pinned (winner : BranchContext) (k : Bytes) (v : UInt64) : Prop :=
  rebased winner k = false ∧
    ((∃ entry ∈ writtenEntries winner, entry.objectId = k ∧ entry.baseVersion = v) ∨
      ∃ read ∈ winner.readSet.entries, read.objectId = k ∧ read.observedVersion = v)

/-- Where no version is pinned, another one suits as well. -/
theorem exists_suits_ne (hsynced : Synced (fun _ _ => True) winner) (hcan : CanCommit winner)
    (hfree : ¬Pinned winner k v) :
    ∃ held, Suits winner k held ∧ held.version ≠ v := by
  obtain ⟨held, hsuits⟩ := hcan.exists_suits k
  have hmove : (∀ entry ∈ writtenEntries winner, entry.objectId = k → rebased winner k = true) →
      (∀ read ∈ winner.readSet.entries, read.objectId = k →
        rebased winner k = true ∧ ∃ entry ∈ writtenEntries winner, entry.objectId = k) →
      ∃ held, Suits winner k held ∧ held.version ≠ v := fun hwritten hread =>
    ⟨{ held with version := v + 1 },
      ⟨hsuits.resolves, fun entry hentry hid => .inl (hwritten entry hentry hid),
        fun read hmem hid => .inl (hread read hmem hid)⟩, version_add_one_ne v⟩
  cases hrebased : rebased winner k with
  | true =>
    have hwritten : ∃ entry ∈ writtenEntries winner, entry.objectId = k := by
      obtain ⟨intent, hintent, hrebase⟩ := (Option.any_eq_true _ _).1 hrebased
      refine (exists_writtenEntry_iff hsynced k).2 ⟨intent, hintent, fun htype => ?_⟩
      rw [htype] at hrebase
      cases hrebase
    exact hmove (fun _ _ _ => hrebased) fun _ _ _ => ⟨hrebased, hwritten⟩
  | false =>
    by_cases hwritten : ∃ entry ∈ writtenEntries winner, entry.objectId = k
    · obtain ⟨entry, hentry, hid⟩ := hwritten
      have hversion := (hsuits.based entry hentry hid).resolve_left (by rw [hrebased]; decide)
      exact ⟨held, hsuits, fun heq =>
        hfree ⟨hrebased, .inl ⟨entry, hentry, hid, by rw [← hversion, heq]⟩⟩⟩
    · by_cases hread : ∃ read ∈ winner.readSet.entries, read.objectId = k
      · obtain ⟨read, hmem, hid⟩ := hread
        have hversion := (hsuits.read read hmem hid).resolve_left (by rw [hrebased]; simp)
        exact ⟨held, hsuits, fun heq =>
          hfree ⟨hrebased, .inr ⟨read, hmem, hid, by rw [← hversion, heq]⟩⟩⟩
      · exact hmove (fun entry hentry hid => absurd ⟨entry, hentry, hid⟩ hwritten)
          fun read hmem hid => absurd ⟨read, hmem, hid⟩ hread

/-- The commits of a branch find an object at a version exactly if it is pinned there, or there
are none. -/
theorem succeedsOnlyAt_iff {txn : AgentTxnContext} (hsynced : Synced (fun _ _ => True) winner)
    (hs : Selects txn winner) :
    SucceedsOnlyAt txn k v ↔ Pinned winner k v ∨ ¬CanCommit winner := by
  constructor
  · intro honly
    by_contra hno
    push Not at hno
    obtain ⟨hfree, hcan⟩ := hno
    obtain ⟨held, hsuits, hne⟩ := exists_suits_ne hsynced hcan hfree
    obtain ⟨s, ⟨tr, txn', checks, writes, hcommit, -, hbatch, -⟩, hget⟩ :=
      hcan.exists_commitsIn hs hsuits
    have hversion := honly tr txn' checks writes { store := s } hcommit hbatch
    rw [MemoryKVStore.getVersion, hget] at hversion
    exact hne hversion
  · intro hor tr txn' checks writes before hcommit hbatch
    obtain ⟨hcan, batch, seenChecks, hcommitted, -⟩ := batch_of_mem hs hcommit hbatch
    obtain ⟨hrebased, hpinned⟩ := hor.resolve_right (not_not.2 hcan)
    have hstrict : ∀ intent, (latestIntents winner.intentLog).lookup k = some intent →
        usesSemanticRebase intent.intentType = false := by
      intro intent hintent
      rw [rebased, hintent, Option.any_some] at hrebased
      exact hrebased
    obtain ⟨hreads, hwrites⟩ := hcommitted.strict k hstrict
    rcases hpinned with ⟨entry, hentry, hid, rfl⟩ | ⟨read, hread, hid, rfl⟩
    · exact hcommitted.checked k _ (hwrites entry hentry hid)
    · exact hcommitted.checked k _ (hreads read hread hid)

/-! ### Read intents -/

open BranchOp

/-- The branch after the read has been issued. -/
def issue (branch : BranchContext) (read : WriteIntent) (objectType : ObjectType) (w : World) :
    BranchContext :=
  ((bufferWrite branch read.objectId objectType read).run (handle .memory) w).1

/-- The version on which the read has buffered the object. -/
def capturedVersion (branch : BranchContext) (read : WriteIntent) (objectType : ObjectType)
    (w : World) : UInt64 :=
  (startEntry branch read.objectId objectType (w.store.get read.objectId)).baseVersion

/-- With the read, a pending write of the object is committed as without it, whatever is
done afterwards; and where there is none, commits find the version that was captured. -/
structure OnlyReads (branch : BranchContext) (read : WriteIntent)
    (objectType : ObjectType) (w : World) (after : List (BranchOp × World)) : Prop where
  keeps : Pending branch read.objectId → ∀ current,
    resolved (performAll .memory (issue branch read objectType w) after) read.objectId current =
      resolved (performAll .memory branch after) read.objectId current
  checks : ¬Pending branch read.objectId → ∀ txn,
    Selects txn (performAll .memory (issue branch read objectType w) after) →
    SucceedsOnlyAt txn read.objectId (capturedVersion branch read objectType w)

/-- With a pending write: the histories with and without the read end alike on the object.
Without one: the version is pinned in the end, or the branch can commit nowhere. -/
structure Harmless (branch : BranchContext) (read : WriteIntent)
    (objectType : ObjectType) (w : World) (after : List (BranchOp × World)) : Prop where
  alike : Pending branch read.objectId → Alike (performAll .memory branch after)
    (performAll .memory (issue branch read objectType w) after) read.objectId
  pinned : ¬Pending branch read.objectId →
    Pinned (performAll .memory (issue branch read objectType w) after) read.objectId
    (capturedVersion branch read objectType w) ∨
      ¬CanCommit (performAll .memory (issue branch read objectType w) after)

theorem selects_alone (branch : BranchContext) : Selects { branches := [branch] } branch := by
  refine ⟨rfl, ?_⟩
  simp [BranchManager.findBranch]

/-- In any history an intent to read only reads exactly if it is harmless. -/
theorem readIntent_onlyReads_iff {branchId : Bytes} {before after : List (BranchOp × World)}
    {read : WriteIntent} (hbefore : ∀ op ∈ before, op.1.Named) (hafter : ∀ op ∈ after, op.1.Named)
    (hread : read.intentType = .read) (objectType : ObjectType) (w : World) :
    OnlyReads (performAll .memory { branchId := branchId } before) read objectType w after ↔
      Harmless (performAll .memory { branchId := branchId } before) read objectType w after := by
  obtain ⟨records, hinOrder⟩ := @exists_inOrder .memory branchId before
  have hsynced : Synced (fun _ _ => True) (performAll .memory { branchId := branchId } before) :=
    synced_performAll (synced_new _ branchId) hbefore
  generalize performAll .memory { branchId := branchId } before = branch at hinOrder hsynced ⊢
  have hissued : Synced (fun _ _ => True) (issue branch read objectType w) :=
    @synced_perform .memory branch hsynced (.write read.objectId objectType read, w) rfl
  have hwithout : Synced (fun _ _ => True) (performAll .memory branch after) :=
    synced_performAll hsynced hafter
  have hwith : Synced (fun _ _ => True)
      (performAll .memory (issue branch read objectType w) after) :=
    synced_performAll hissued hafter
  have hkeeps : Pending branch read.objectId →
      ((∀ current,
        resolved (performAll .memory (issue branch read objectType w) after) read.objectId current =
          resolved (performAll .memory branch after) read.objectId current) ↔
        Alike (performAll .memory branch after)
            (performAll .memory (issue branch read objectType w) after) read.objectId) := by
    intro hpending
    obtain ⟨last, hlast, hwrites⟩ := exists_isLatest_of_written hpending
    obtain ⟨entry, hentry, hid⟩ := hpending
    have hfind : branch.writeBuffer.find read.objectId = some entry :=
      hid ▸ WriteBuffer.mem_orderedEntries.1 (mem_writtenEntries.1 hentry).1
    have hparallel := @parallel_write .memory _ _ _ hinOrder _ hfind objectType read w
    refine resolved_eq_iff hwithout hwith (hparallel.performAll after) hread
      rfl fun last' hlast' => ?_
    obtain rfl := Option.some.inj (hlast.symm.trans hlast')
    exact hwrites
  constructor
  · intro h
    exact ⟨fun hpending => (hkeeps hpending).1 (h.keeps hpending), fun hnone =>
      (succeedsOnlyAt_iff hwith (selects_alone _)).1 (h.checks hnone _ (selects_alone _))⟩
  · intro h
    exact ⟨fun hpending => (hkeeps hpending).2 (h.alike hpending), fun hnone txn hs =>
      (succeedsOnlyAt_iff hwith hs).2 (h.pinned hnone)⟩

def readK : WriteIntent where
  objectId := ascii "k"
  intentType := .read

/-- A write of `k` in a store that holds `abc`. -/
def writesK (intentType : IntentType) (payload : Bytes) : BranchOp × World :=
  (.write (ascii "k") .generic { objectId := ascii "k", intentType, payload }, holdsText)

theorem named_writesK (intentType : IntentType) (payload : Bytes) :
    (writesK intentType payload).1.Named := rfl

theorem readIntent_onlyReads_overwritten :
    OnlyReads (performAll .memory { branchId := ascii "b" } [writesK .append (ascii "d")]) readK
      .generic holdsText
        [writesK .overwrite (ascii "x")] ↔
      Harmless (performAll .memory { branchId := ascii "b" } [writesK .append (ascii "d")]) readK
        .generic holdsText
        [writesK .overwrite (ascii "x")] :=
  readIntent_onlyReads_iff (List.forall_mem_singleton.2 (named_writesK _ _))
    (List.forall_mem_singleton.2 (named_writesK _ _)) rfl
    .generic holdsText

/-- The pending append is gone after a read; and a read alone is not checked at all. -/
theorem readIntent_not_onlyReads :
    ¬OnlyReads (performAll .memory { branchId := ascii "b" } [writesK .append (ascii "d")])
      readK .generic holdsText [] ∧
      ¬OnlyReads { branchId := ascii "b" } readK .generic holdsText [] := by
  constructor
  · intro h
    have hsame := h.keeps ⟨_, List.mem_cons_self, rfl⟩ (ascii "abc")
    exact absurd hsame (by decide)
  · intro h
    have hs := selects_alone
      (performAll .memory (issue { branchId := ascii "b" } readK .generic holdsText) [])
    have hcommit := Program.interfered_run (h := handle .memory) (selectWinnerAndCommit {
      branches := [performAll .memory (issue { branchId := ascii "b" } readK .generic holdsText) []]
    }) movedOn
    have hnone : ¬Pending { branchId := ascii "b" } readK.objectId := by
      rintro ⟨entry, hentry, -⟩
      cases hentry
    have hversion :=
        h.checks hnone _ hs _ _ [] [] movedOn hcommit (List.mem_of_getElem? (i := 2) rfl)
    exact absurd hversion (by decide)

end DataAgentSystem.AgentTxn
