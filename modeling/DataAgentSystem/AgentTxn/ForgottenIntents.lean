import DataAgentSystem.AgentTxn.CommittableBranch
import DataAgentSystem.AgentTxn.CommittedReads
import DataAgentSystem.AgentTxn.FallbackStates
import DataAgentSystem.AgentTxn.ReachedTransaction

/-! What a commit forgets. A branch may have several live intents on an object, and the
commit goes by the latest one. The version check of an overwrite and the condition of
a swap are therefore kept only as long as no other kind of intent follows. -/

namespace DataAgentSystem.AgentTxn

open Text Intent Cache Branch Storage Interaction Containers CommitManager AgentTxnManager

variable {txn : AgentTxnContext} {winner : BranchContext} {k e : Bytes} {entry : ObjectCacheEntry}
  {last : WriteIntent}

/-- A live intent decides how its object is committed if it is the last one. -/
def IsLatest (winner : BranchContext) (k : Bytes) (intent : WriteIntent) : Prop :=
  (live winner.intentLog.entries k).getLast? = some intent

theorem lookup_of_isLatest (h : IsLatest winner k last) :
    (latestIntents winner.intentLog).lookup k = some last := by
  rw [lookup_latestIntents_live]
  exact h

theorem rebased_of_isLatest (h : IsLatest winner k last) :
    rebased winner k = usesSemanticRebase last.intentType := by
  rw [rebased, lookup_of_isLatest h, Option.any_some]

/-- A buffered object is written unless its latest intent reads. -/
theorem mem_writtenEntries_of_isLatest (hentry : winner.writeBuffer.find k = some entry)
    (hlast : IsLatest winner k last) (hread : last.intentType ≠ .read) :
    entry ∈ writtenEntries winner ∧ entry.objectId = k := by
  have hid : entry.objectId = k := winner.writeBuffer.consistent.objectId_eq hentry
  subst hid
  exact ⟨mem_writtenEntries.2
    ⟨WriteBuffer.mem_orderedEntries.2 hentry, last, lookup_of_isLatest hlast, hread⟩, rfl⟩

/-- An object the batch writes has a latest intent that does more than read. -/
theorem exists_isLatest_of_written (h : ∃ entry ∈ writtenEntries winner, entry.objectId = k) :
    ∃ last, IsLatest winner k last ∧ last.intentType ≠ .read := by
  obtain ⟨entry, hentry, rfl⟩ := h
  obtain ⟨-, intent, hintent, hread⟩ := mem_writtenEntries.1 hentry
  rw [lookup_latestIntents_live] at hintent
  exact ⟨intent, hintent, hread⟩

/-- Where the latest intent rebases, any version suits, and any value that resolves. -/
theorem suits_of_rebased (hentry : winner.writeBuffer.find k = some entry)
    (hlast : IsLatest winner k last) (hrebase : usesSemanticRebase last.intentType = true)
    {value : Bytes} (hsuccess : (resolveWrite entry last value).success = true) (v : UInt64) :
    Suits winner k { value, version := v } := by
  have hrebased : rebased winner k = true := (rebased_of_isLatest hlast).trans hrebase
  have hread : last.intentType ≠ .read := by
    intro heq
    rw [heq] at hrebase
    cases hrebase
  have hwritten := mem_writtenEntries_of_isLatest hentry hlast hread
  refine ⟨fun entry' hentry' => ⟨last, lookup_of_isLatest hlast, ?_⟩, fun _ _ _ =>
    .inl hrebased, fun _ _ _ => ?_⟩
  · rw [hentry] at hentry'
    cases hentry'
    exact hsuccess
  · exact .inl ⟨hrebased, entry, hwritten⟩

/-- The batch among the calls of a commit, and what its checks and writes are. -/
theorem batch_of_mem {tr : List (Event Call World)} {txn' : AgentTxnContext}
    {checks : List VersionCheck} {writes : List WriteOp} {before : World} (hs : Selects txn winner)
    (h : (selectWinnerAndCommit txn).Interfered (handle .memory) tr (.ok true, txn'))
    (hbatch : (⟨.batchPutIfVersion checks writes, before⟩ : Event Call World) ∈ tr) :
    CanCommit winner ∧ ∃ batch seenChecks, BatchCommit winner batch seenChecks writes before ∧
      writes.map WriteOp.key = (writtenEntries winner).map (·.objectId) := by
  obtain ⟨hcan, looks, batch, seenChecks, writes', before', rfl, hlooks, hcommit⟩ :=
    selectWinnerAndCommit_batch hs h
  obtain ⟨looks', hlooks', rfl⟩ := hcommit.trace
  rw [← List.append_assoc, List.mem_append, List.mem_singleton] at hbatch
  rcases hbatch with hlook | heq
  · have hreads := readOnly_append.2 ⟨hlooks, hlooks'⟩ _ hlook
    cases hreads
  · cases heq
    exact ⟨hcan, _, seenChecks, hcommit, keys_of_resolved hcommit.resolved⟩

/-! ### Overwrites -/

/-- Wherever the transaction commits a write of the object, the object still has the version. -/
def StaysStrict (txn : AgentTxnContext) (k : Bytes) (v : UInt64) : Prop :=
  ∀ tr txn' checks writes before,
    (selectWinnerAndCommit txn).Interfered (handle .memory) tr (.ok true, txn') →
    ⟨.batchPutIfVersion checks writes, before⟩ ∈ tr → k ∈ writes.map WriteOp.key →
      before.store.getVersion k = v

/-- An overwritten object, with further intents after the last overwrite or the overwrite last. -/
structure Overwritten (winner : BranchContext) (k : Bytes) (entry : ObjectCacheEntry)
    (after : List WriteIntent) : Prop where
  entry : winner.writeBuffer.find k = some entry
  live : ∃ before overwrite, live winner.intentLog.entries k = before ++ overwrite :: after ∧
    overwrite.intentType = .overwrite
  after : ∀ intent ∈ after, intent.intentType = .append ∨ intent.intentType = .delta ∨
    intent.intentType = .cas

theorem Overwritten.latest {after : List WriteIntent} (h : Overwritten winner k entry after) :
    ∃ last, IsLatest winner k last ∧ (last.intentType = .overwrite ↔ after = []) ∧
      (after ≠ [] → usesSemanticRebase last.intentType = true) := by
  obtain ⟨before, overwrite, hlive, htype⟩ := h.live
  rcases List.eq_nil_or_concat after with rfl | ⟨front, last, rfl⟩
  · refine ⟨overwrite, ?_, iff_of_true htype rfl, fun hne => absurd rfl hne⟩
    rw [IsLatest, hlive, List.getLast?_concat]
  · refine ⟨last, ?_, iff_of_false ?_ (by simp), fun _ => ?_⟩
    · rw [IsLatest, hlive, List.concat_eq_append, ← List.cons_append, ← List.append_assoc,
        List.getLast?_concat]
    · rcases h.after last (by simp) with htype | htype | htype <;> rw [htype] <;> decide
    · rcases h.after last (by simp) with htype | htype | htype <;> rw [htype] <;> rfl

theorem staysStrict_of_overwrite (hs : Selects txn winner)
    (hentry : winner.writeBuffer.find k = some entry) (hlast : IsLatest winner k last)
    (htype : last.intentType = .overwrite) :
    StaysStrict txn k entry.baseVersion := by
  intro tr txn' checks writes before hcommit hbatch _
  obtain ⟨-, batch, seenChecks, hcommitted, -⟩ := batch_of_mem hs hcommit hbatch
  obtain ⟨hwritten, hid⟩ := mem_writtenEntries_of_isLatest hentry hlast (by rw [htype]; decide)
  have hlookups : ∀ intent, (latestIntents winner.intentLog).lookup k = some intent →
      usesSemanticRebase intent.intentType = false := by
    intro intent hintent
    rw [lookup_of_isLatest hlast] at hintent
    rw [← Option.some.inj hintent, htype]
    rfl
  exact hcommitted.checked k _ ((hcommitted.strict k hlookups).2 entry hwritten hid)

/-- An overwrite stays strict exactly if no other intent follows it, or the branch can commit
nowhere. -/
theorem overwrite_staysStrict_iff {after : List WriteIntent} (hs : Selects txn winner)
    (h : Overwritten winner k entry after) : StaysStrict txn k entry.baseVersion ↔
      after = [] ∨ ¬CanCommit winner := by
  obtain ⟨last, hlast, hstrict, hrebase⟩ := h.latest
  constructor
  · intro hstays
    by_contra hno
    push Not at hno
    obtain ⟨hne, hcan⟩ := hno
    obtain ⟨intent, value, hintent, hsuccess⟩ :=
      hcan.resolves entry (WriteBuffer.mem_orderedEntries.2 (by
        rw [winner.writeBuffer.consistent.objectId_eq h.entry]
        exact h.entry))
    rw [winner.writeBuffer.consistent.objectId_eq h.entry, lookup_of_isLatest hlast] at hintent
    obtain rfl := Option.some.inj hintent
    have hsuits := suits_of_rebased h.entry hlast (hrebase hne) hsuccess (entry.baseVersion + 1)
    obtain ⟨s, ⟨tr, txn', checks, writes, hcommit, -, hbatch, hkeys⟩, hget⟩ :=
      hcan.exists_commitsIn hs hsuits
    have hread : last.intentType ≠ .read := by
      intro heq
      have hrebases := hrebase hne
      rw [heq] at hrebases
      cases hrebases
    obtain ⟨hwritten, hid⟩ := mem_writtenEntries_of_isLatest h.entry hlast hread
    have hkey : k ∈ writes.map WriteOp.key := by
      rw [hkeys, List.mem_map]
      exact ⟨entry, hwritten, hid⟩
    have hversion := hstays tr txn' checks writes { store := s } hcommit hbatch hkey
    rw [MemoryKVStore.getVersion, hget] at hversion
    exact version_add_one_ne _ hversion
  · rintro (hnil | hcannot)
    · exact staysStrict_of_overwrite hs h.entry hlast (hstrict.2 hnil)
    · intro tr txn' checks writes before hcommit hbatch _
      exact absurd (batch_of_mem hs hcommit hbatch).1 hcannot

/-- The entry of an object that has been overwritten once. -/
def overwriteEntry : ObjectCacheEntry where
  objectId := ascii "k"
  baseValue := ascii "abc"
  baseVersion := 1
  currentValue := ascii "x"
  dirty := true
  intentType := .overwrite
  undoRecord := { previousValue := ascii "abc", existed := true }

/-- A branch that reads `l`, overwrites `k` and appends to it, with the better score. -/
def readsThenOverwrites : BranchContext :=
  writeK (writeK
    ((BranchManager.readObject { branchId := ascii "b", candidateResult := { score := .finite 1 } }
      (ascii "l")).run (handle .memory) holdsText).1.2 .overwrite (ascii "x"))
    .append (ascii "y")

/-- Two branches that have written `k`. -/
def contested : AgentTxnContext where
  branches := [writeK { branchId := ascii "a" } .append (ascii "w"), readsThenOverwrites]

theorem overwrite_staysStrict_contested :
    let append : WriteIntent :=
      { objectId := ascii "k", intentType := .append, payload := ascii "y" }
    StaysStrict contested (ascii "k") overwriteEntry.baseVersion ↔ [append] = [] ∨
        ¬CanCommit readsThenOverwrites := by
  intro append
  have hoverwritten : Overwritten readsThenOverwrites (ascii "k")
      { overwriteEntry with currentValue := ascii "xy", intentType := .append } [append] :=
    ⟨rfl, ⟨[], _, rfl, rfl⟩, by simp [append]⟩
  have hstrict := @overwrite_staysStrict_iff contested readsThenOverwrites (ascii "k")
    _ [append] ⟨rfl, rfl⟩ hoverwritten
  exact hstrict

/-- The store after somebody else has written `k`. -/
def movedOn : World where
  store := holdsText.store.write (ascii "k") (ascii "new")

/-- An append after the overwrite, and the commit goes through on a foreign update. -/
theorem overwrite_not_staysStrict :
    (∃ entry append, Overwritten overwritesAndAppends (ascii "k") entry [append] ∧
      entry.baseVersion = 1) ∧
      Selects { branches := [overwritesAndAppends] } overwritesAndAppends ∧
      ¬StaysStrict { branches := [overwritesAndAppends] } (ascii "k") 1 := by
  refine ⟨⟨_, _, ⟨rfl, ⟨[], _, rfl, rfl⟩, ?_⟩, rfl⟩, ⟨rfl, rfl⟩, fun h => ?_⟩
  · simp
  · have hcommit := Program.interfered_run (h := handle .memory)
      (selectWinnerAndCommit { branches := [overwritesAndAppends] }) movedOn
    have hversion := h _ _ _ _ _ hcommit (List.mem_of_getElem? (i := 2) rfl) List.mem_cons_self
    exact absurd hversion (by decide)

/-! ### Swaps -/

/-- Wherever the transaction commits a write of the object, the object holds the value. The
history says which value the object has at which version, beginning with the base. -/
def KeepsCondition (txn : AgentTxnContext) (k : Bytes) (entry : ObjectCacheEntry)
    (e : Bytes) : Prop :=
  ∀ history : UInt64 → Bytes, history entry.baseVersion = entry.baseValue →
    ∀ tr txn' checks writes before,
      (selectWinnerAndCommit txn).Interfered (handle .memory) tr (.ok true, txn') →
      (∀ event ∈ tr, (event.before.store.get k).value = history (event.before.store.getVersion k)) →
      ⟨.batchPutIfVersion checks writes, before⟩ ∈ tr → k ∈ writes.map WriteOp.key →
        (before.store.get k).value = e

/-- A commit that goes by this intent writes the object only over the value. -/
def Tests (e : Bytes) (entry : ObjectCacheEntry) (intent : WriteIntent) : Prop :=
  match intent.intentType with
  | .read => True
  | .overwrite => entry.baseValue = e
  | .append | .delta => False
  | .cas => intent.condition = { type := .valueEquals, expectedValue := e }

/-- The live intents on the object begin with a swap of the value. -/
structure BeginsWithSwap (winner : BranchContext) (k : Bytes) (entry : ObjectCacheEntry)
    (e : Bytes) : Prop where
  entry : winner.writeBuffer.find k = some entry
  live : ∃ swap after, live winner.intentLog.entries k = swap :: after ∧ swap.intentType = .cas ∧
    swap.condition = { type := .valueEquals, expectedValue := e }

theorem BeginsWithSwap.latest (h : BeginsWithSwap winner k entry e) :
    ∃ last, IsLatest winner k last := by
  obtain ⟨swap, after, hlive, -⟩ := h.live
  exact ⟨_, by rw [IsLatest, hlive, List.getLast?_eq_getLast_of_ne_nil (List.cons_ne_nil _ _)]⟩

/-- A written object whose latest intent rebases resolved against a value of the version the
batch meets. -/
theorem exists_get_of_written {tr : List (Event Call World)} {txn' : AgentTxnContext}
    {checks : List VersionCheck} {writes : List WriteOp} {before : World} (hs : Selects txn winner)
    (h : (selectWinnerAndCommit txn).Interfered (handle .memory) tr (.ok true, txn'))
    (hbatch : (⟨.batchPutIfVersion checks writes, before⟩ : Event Call World) ∈ tr)
    (hwritten : entry ∈ writtenEntries winner) (hlast : IsLatest winner entry.objectId last)
    (hrebase : usesSemanticRebase last.intentType = true) :
    ∃ w, (⟨.get entry.objectId, w⟩ : Event Call World) ∈ tr ∧
      (resolveWrite entry last (w.store.get entry.objectId).value).success = true ∧
      before.store.getVersion entry.objectId = w.store.getVersion entry.objectId := by
  obtain ⟨winner', writes', before', hs', hwrites⟩ := selectWinnerAndCommit_batchWritten h
  obtain rfl := selects_unique hs hs'
  obtain ⟨checks', looks, hlooks, rfl, -⟩ := hwrites.trace
  obtain rfl : before = before' := by
    rcases List.mem_append.1 hbatch with hlook | hself
    · cases hlooks _ hlook
    · cases List.mem_singleton.1 hself
      rfl
  obtain ⟨write, -, hresolved⟩ := exists_mem_of_forall₂ hwrites.resolved hwritten
  obtain ⟨intent, w, hintent, hget, hsuccess, -, hversion⟩ := hresolved.value
  rw [lookup_of_isLatest hlast] at hintent
  obtain rfl := Option.some.inj hintent
  exact ⟨w, hget, hsuccess, hversion hrebase⟩

theorem exists_bytes_ne (e : Bytes) : ∃ value, value ≠ e := ⟨e ++ [0], by simp⟩

theorem exists_integer_ne (e : Bytes) : ∃ value, IsInteger value ∧ value ≠ e := by
  by_cases h : e = ascii "0"
  · exact ⟨ascii "1", by decide, by rw [h]; decide⟩
  · exact ⟨ascii "0", by decide, Ne.symm h⟩

/-- An intent that rebases and does not test for the value resolves against another one. -/
theorem exists_success_ne (htests : ¬Tests e entry last)
    (hrebase : usesSemanticRebase last.intentType = true) {value : Bytes}
    (hsuccess : (resolveWrite entry last value).success = true) :
    ∃ value, value ≠ e ∧ (resolveWrite entry last value).success = true := by
  cases htype : last.intentType with
  | read => rw [htype] at hrebase; cases hrebase
  | overwrite => rw [htype] at hrebase; cases hrebase
  | append =>
    obtain ⟨value, hne⟩ := exists_bytes_ne e
    refine ⟨value, hne, ?_⟩
    simp only [resolveWrite, htype]
    split <;> rfl
  | delta =>
    obtain ⟨value', hinteger, hne⟩ := exists_integer_ne e
    refine ⟨value', hne, ?_⟩
    have hparsed := parseInt_of_isInteger hinteger
    simp only [resolveWrite, htype] at hsuccess ⊢
    -- it is the other operands that can fail
    rw [hparsed]
    cases hbase : parseInt entry.baseValue with
    | none =>
      cases hpayload : parseInt last.payload <;> cases hvalue : parseInt value <;>
        simp [hbase, hpayload, hvalue] at hsuccess ⊢
    | some base =>
      cases hcurrent : parseInt entry.currentValue <;> cases hpayload : parseInt last.payload <;>
        cases hvalue : parseInt value <;> simp [hbase, hcurrent, hpayload, hvalue] at hsuccess ⊢
  | cas =>
    simp only [Tests, htype] at htests
    cases hcondition : last.condition.type with
    | none =>
      obtain ⟨value, hne⟩ := exists_bytes_ne e
      exact ⟨value, hne, by simp [resolveWrite, htype, hcondition]⟩
    | valueEquals =>
      refine ⟨last.condition.expectedValue, fun heq => htests ?_, by simp [resolveWrite, htype]⟩
      rw [← hcondition, ← heq]

/-- An overwrite suits what the object held when it was first buffered. -/
theorem suits_of_overwrite (hcan : CanCommit winner)
    (hentry : winner.writeBuffer.find k = some entry) (hlast : IsLatest winner k last)
    (htype : last.intentType = .overwrite) :
    Suits winner k { value := entry.baseValue, version := entry.baseVersion } := by
  obtain ⟨hwritten, rfl⟩ := mem_writtenEntries_of_isLatest hentry hlast (by rw [htype]; decide)
  have hrebased : rebased winner entry.objectId = false := by
    rw [rebased_of_isLatest hlast, htype]
    rfl
  refine ⟨fun entry' hentry' => ⟨last, lookup_of_isLatest hlast, ?_⟩,
    fun entry' hentry' hid => .inr ?_, fun read hread hid => .inr ?_⟩
  · rw [resolveWrite_overwrite _ htype]
  · have hmem := WriteBuffer.mem_orderedEntries.1 (mem_writtenEntries.1 hentry').1
    rw [hid, hentry] at hmem
    rw [Option.some.inj hmem]
  · exact (hcan.based entry hwritten hrebased read hread hid).symm

/-- A commit in a store with this version and value of the object keeps the condition only over
that value. -/
theorem KeepsCondition.value_eq (h : KeepsCondition txn k entry e) (hs : Selects txn winner)
    (hcan : CanCommit winner) (hwritten : entry ∈ writtenEntries winner ∧ entry.objectId = k)
    {held : Entry} (hsuits : Suits winner k held)
    (hhistory : held.version = entry.baseVersion → held.value = entry.baseValue) :
    held.value = e := by
  obtain ⟨s, ⟨tr, txn', checks, writes, hcommit, hbefore, hbatch, hkeys⟩, hget⟩ :=
    hcan.exists_commitsIn hs hsuits
  have hkey : k ∈ writes.map WriteOp.key := by
    rw [hkeys, List.mem_map]
    exact ⟨entry, hwritten⟩
  have hvalue := h (fun v => if v = held.version then held.value else entry.baseValue) (by
      split
      next heq => exact hhistory heq.symm
      next => rfl)
    tr txn' checks writes { store := s } hcommit (fun event hevent => by
      rw [hbefore event hevent, MemoryKVStore.getVersion, hget, if_pos rfl]) hbatch hkey
  rwa [hget] at hvalue

/-- The condition of a first swap is kept exactly if the latest intent tests for the
same value, or the branch can commit nowhere. -/
theorem swap_keepsCondition_iff (hs : Selects txn winner) (h : BeginsWithSwap winner k entry e) :
    KeepsCondition txn k entry e ↔ (∃ last, IsLatest winner k last ∧ Tests e entry last) ∨
      ¬CanCommit winner := by
  obtain ⟨last, hlast⟩ := h.latest
  constructor
  · intro hkeeps
    by_contra hno
    push Not at hno
    obtain ⟨hnone, hcan⟩ := hno
    have htests := hnone last hlast
    have hread : last.intentType ≠ .read := by
      intro htype
      rw [Tests, htype] at htests
      exact htests trivial
    have hwritten := mem_writtenEntries_of_isLatest h.entry hlast hread
    by_cases htype : last.intentType = .overwrite
    · rw [Tests, htype] at htests
      exact htests
        (hkeeps.value_eq hs hcan hwritten (suits_of_overwrite hcan h.entry hlast htype) fun _ =>
          rfl)
    · have hrebase : usesSemanticRebase last.intentType = true := by
        cases hintent : last.intentType <;> simp_all [usesSemanticRebase, classify]
      obtain ⟨hmem, rfl⟩ := hwritten
      obtain ⟨intent, value, hintent, hsuccess⟩ := hcan.resolves entry (mem_writtenEntries.1 hmem).1
      rw [lookup_of_isLatest hlast] at hintent
      obtain rfl := Option.some.inj hintent
      obtain ⟨value', hne, hsuccess'⟩ := exists_success_ne htests hrebase hsuccess
      have hsuits := suits_of_rebased h.entry hlast hrebase hsuccess' (entry.baseVersion + 1)
      exact hne (hkeeps.value_eq hs hcan ⟨hmem, rfl⟩ hsuits fun hv =>
        absurd hv (version_add_one_ne _))
  · intro hor history hbase tr txn' checks writes before hcommit htells hbatch hkey
    obtain ⟨hcan, batch, seenChecks, hcommitted, hkeys⟩ := batch_of_mem hs hcommit hbatch
    obtain ⟨last', hlast', htests⟩ := hor.resolve_right (not_not.2 hcan)
    obtain rfl := Option.some.inj (hlast.symm.trans hlast')
    have hatBatch : (before.store.get k).value = history (before.store.getVersion k) :=
      htells _ hbatch
    have hread : last.intentType ≠ .read := by
      rw [hkeys, List.mem_map] at hkey
      obtain ⟨latest, hlatest, hreads⟩ := exists_isLatest_of_written hkey
      rw [Option.some.inj (hlast.symm.trans hlatest)]
      exact hreads
    obtain ⟨hwritten, rfl⟩ := mem_writtenEntries_of_isLatest h.entry hlast hread
    cases htype : last.intentType with
    | read => exact absurd htype hread
    | append => rw [Tests, htype] at htests; exact htests.elim
    | delta => rw [Tests, htype] at htests; exact htests.elim
    | overwrite =>
      rw [Tests, htype] at htests
      have hstrict := staysStrict_of_overwrite hs h.entry hlast htype
      rw [hatBatch, hstrict tr txn' checks writes before hcommit hbatch hkey, hbase, htests]
    | cas =>
      rw [Tests, htype] at htests
      obtain ⟨w, hget, hsuccess, hversion⟩ :=
        exists_get_of_written hs hcommit hbatch hwritten hlast (by rw [htype]; rfl)
      have hmet : (w.store.get entry.objectId).value = e := by
        by_contra hne
        simp [resolveWrite, htype, htests, hne] at hsuccess
      rw [hatBatch, hversion, ← htells _ hget, hmet]

/-- The branch that swaps `abc` for `x`, and the entry it buffers. -/
def swapsAway : BranchContext :=
  ((BranchManager.bufferWrite { branchId := ascii "b" } (ascii "k") .generic {
    objectId := ascii "k"
    intentType := .cas
    payload := ascii "x"
    condition := { type := .valueEquals, expectedValue := ascii "abc" } }).run
      (handle .memory) holdsText).1

def swapEntry : ObjectCacheEntry where
  objectId := ascii "k"
  baseValue := ascii "abc"
  baseVersion := 1
  currentValue := ascii "x"
  dirty := true
  intentType := .cas
  undoRecord := { previousValue := ascii "abc", existed := true }

theorem swap_keepsCondition_alone :
    KeepsCondition { branches := [swapsAway] } (ascii "k") swapEntry (ascii "abc") ↔
    (∃ last, IsLatest swapsAway (ascii "k") last ∧ Tests (ascii "abc") swapEntry last) ∨
        ¬CanCommit swapsAway :=
  swap_keepsCondition_iff ⟨rfl, rfl⟩ ⟨rfl, _, _, rfl, rfl, rfl⟩

/-- An append after the swap, and the commit goes through where the expected value is gone. -/
theorem swap_not_keepsCondition :
    ∃ entry, BeginsWithSwap (writeK swapsAway .append (ascii "y")) (ascii "k") entry (ascii "abc") ∧
      Selects { branches := [writeK swapsAway .append (ascii "y")] }
        (writeK swapsAway .append (ascii "y")) ∧
      ¬KeepsCondition { branches := [writeK swapsAway .append (ascii "y")] } (ascii "k")
          entry (ascii "abc") := by
  refine ⟨_, ⟨rfl, _, _, rfl, rfl, rfl⟩, ⟨rfl, rfl⟩, fun h => ?_⟩
  have hcommit := Program.interfered_run (h := handle .memory)
    (selectWinnerAndCommit { branches := [writeK swapsAway .append (ascii "y")] }) movedOn
  -- the object held `abc` at version 1 and holds `new` since
  have hvalue := h (fun v => if v = 1 then ascii "abc" else ascii "new") rfl _ _ _ _ _ hcommit
    (List.forall_mem_cons.2
      ⟨rfl, List.forall_mem_cons.2 ⟨rfl, List.forall_mem_cons.2 ⟨rfl, nofun⟩⟩⟩)
    (List.mem_of_getElem? (i := 2) rfl) List.mem_cons_self
  exact absurd hvalue (by decide)

end DataAgentSystem.AgentTxn
