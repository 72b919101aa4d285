import DataAgentSystem.AgentTxn.ForgottenIntents
import Mathlib.Data.Int.ModEq

/-! What deltas add up to. A commit rebases the difference between the buffered value
and the base. A delta with no number in it is not in that difference; and over a base
that is no number nothing is, so the commit falls back to the last delta alone. -/

namespace DataAgentSystem.AgentTxn

open Text Intent Cache Branch Storage Interaction Containers CommitManager AgentTxnManager

variable {kind : StoreKind} {txn txn' : AgentTxnContext} {winner : BranchContext} {k : Bytes}
  {entry : ObjectCacheEntry} {tr : List (Event Call World)} {checks : List VersionCheck}
  {writes : List WriteOp} {before : World}

/-! ### The value a commit meets -/

theorem resolveEntries_calls {latest : UnorderedMap WriteIntent} {entries : List ObjectCacheEntry}
    {seenChecks : UnorderedMap UInt64} {writes : List WriteOp}
    {r : UnorderedMap UInt64 × List WriteOp}
    (h : (resolveEntries latest entries seenChecks writes).Interfered (handle kind) tr (.ok r)) :
    tr.map Event.op = (entries.map (·.objectId)).map Call.get := by
  induction entries generalizing seenChecks writes tr with
  | nil => rw [(Program.interfered_ret.1 h).1, List.map_nil, List.map_nil, List.map_nil]
  | cons entry entries ih =>
    obtain ⟨intent, w, rest, -, rfl, -, ⟨-, hrest⟩ | ⟨-, seen, -, hrest⟩⟩ :=
      resolveEntries_cons_ok h
    · rw [List.map_cons, List.map_cons, List.map_cons, ih hrest]
    · rw [List.map_cons, List.map_cons, List.map_cons, ih hrest]

/-- A commit gets each object once. -/
theorem commitWinner_get_unique {log : CommitLog}
    (h : (commitWinner txn winner).Interfered (handle .memory) tr (.ok log)) {met met' : World}
    (hmet : (⟨.get k, met⟩ : Event Call World) ∈ tr)
    (hmet' : (⟨.get k, met'⟩ : Event Call World) ∈ tr) : met = met' := by
  obtain ⟨seen, looks, seenChecks, writes, w, before, hresolve, rfl, -⟩ := commitWinner_memory_ok h
  have hlook : ∀ met : World, (⟨.get k, met⟩ : Event Call World) ∈ looks ++
      [⟨.supportsAtomicBatchConditionalWrite, w⟩,
        ⟨.batchPutIfVersion (checksOf seenChecks) writes, before⟩] →
        (⟨.get k, met⟩ : Event Call World) ∈ looks := by
    intro met hmem
    simpa using hmem
  have hnodup : (looks.map Event.op).Nodup := by
    rw [resolveEntries_calls hresolve]
    exact winner.writeBuffer.nodup_objectId_orderedEntries.map fun _ _ heq => by cases heq; rfl
  have hsame := List.inj_on_of_nodup_map hnodup (hlook met hmet) (hlook met' hmet') rfl
  cases hsame
  rfl

theorem get_unique (hs : Selects txn winner)
    (h : (selectWinnerAndCommit txn).Interfered (handle .memory) tr (.ok true, txn'))
    {met met' : World} (hmet : (⟨.get k, met⟩ : Event Call World) ∈ tr)
    (hmet' : (⟨.get k, met'⟩ : Event Call World) ∈ tr) : met = met' := by
  obtain ⟨v, looks, hvalidate, ⟨-, -, hfalse, -⟩ | ⟨hv, committing, result, rfl, hcommit, hr, -⟩⟩ :=
    selectWinnerAndCommit_steps hs h
  · cases hfalse
  · cases result with
    | error reason => cases hr
    | ok log =>
      have hlater : ∀ met : World, (⟨.get k, met⟩ : Event Call World) ∈ looks ++ committing →
          (⟨.get k, met⟩ : Event Call World) ∈ committing := by
        intro met hmem
        refine (List.mem_append.1 hmem).resolve_left fun hlook => ?_
        -- validation asks for versions only
        obtain ⟨read, -, -, hop, -⟩ :=
          (ValidationManager.validateReads_success hvalidate hv).2 _ hlook
        cases hop
      exact commitWinner_get_unique hcommit (hlater met hmet) (hlater met' hmet')

/-- What a commit writes of an object was resolved from its entry and its latest intent. -/
theorem exists_resolved (hs : Selects txn winner)
    (h : (selectWinnerAndCommit txn).Interfered (handle .memory) tr (.ok true, txn'))
    (hbatch : (⟨.batchPutIfVersion checks writes, before⟩ : Event Call World) ∈ tr) {value : Bytes}
    (hwrite : { key := k, value } ∈ writes) :
    ∃ entry last met, winner.writeBuffer.find k = some entry ∧ IsLatest winner k last ∧
      (⟨.get k, met⟩ : Event Call World) ∈ tr ∧
        (resolveWrite entry last (met.store.get k).value).success = true ∧
      value = (resolveWrite entry last (met.store.get k).value).value := by
  obtain ⟨winner', writes', before', hs', hwrites⟩ := selectWinnerAndCommit_batchWritten h
  obtain rfl := selects_unique hs hs'
  obtain ⟨checks', looks, hlooks, rfl, -⟩ := hwrites.trace
  obtain rfl : writes = writes' := by
    rcases List.mem_append.1 hbatch with hlook | hself
    · cases hlooks _ hlook
    · cases List.mem_singleton.1 hself
      rfl
  obtain ⟨entry, hentry, hresolved⟩ := exists_mem_of_forall₂ hwrites.resolved.flip hwrite
  obtain rfl : k = entry.objectId := hresolved.key
  obtain ⟨last, met, hlast, hget, hsuccess, hvalue, -⟩ := hresolved.value
  rw [lookup_latestIntents_live] at hlast
  exact ⟨entry, last, met, WriteBuffer.mem_orderedEntries.1 (mem_writtenEntries.1 hentry).1,
    hlast, hget, hsuccess, hvalue⟩

/-! ### Resolving deltas -/

/-- What a commit leaves out of some deltas on an object with this base. -/
def leftOut (base : Bytes) (deltas : List WriteIntent) : ℤ :=
  if IsInteger base then 0 else deltaSum deltas.dropLast

/-- Whatever else a delta needs, it needs a number to be added to. -/
theorem isInteger_of_resolved {last : WriteIntent} {current : Bytes}
    (htype : last.intentType = .delta)
    (hsuccess : (resolveWrite entry last current).success = true) : IsInteger current := by
  by_contra hno
  have hnone : parseInt current = none := by simpa [IsInteger] using hno
  simp [resolveWrite, htype, hnone] at hsuccess

theorem resolveWrite_deltas {base : VersionedValue} {deltas : List WriteIntent}
    {last : WriteIntent} {current : Bytes} (hbuffers : Buffers base deltas entry)
    (hdeltas : ∀ intent ∈ deltas, IsDelta intent) (hlast : deltas.getLast? = some last)
    (hcurrent : IsInteger current) : (resolveWrite entry last current).value =
      Intent.toString
        (Int64.ofInt (intValue current + (deltaSum deltas - leftOut entry.baseValue deltas))) := by
  obtain ⟨htype, hpayload⟩ := hdeltas last (List.mem_of_getLast? hlast)
  have hfront : deltas = deltas.dropLast ++ [last] :=
    (List.dropLast_append_getLast? last hlast).symm
  by_cases hbase : IsInteger entry.baseValue
  · have hne : deltas ≠ [] := by
      rintro rfl
      cases hlast
    have hreplayed := replays_delta.resolves base current deltas entry last
      (hbuffers.baseValue ▸ hbase) hcurrent hdeltas
      hbuffers hlast
    rw [hreplayed, (bufferedFrom_delta hdeltas hcurrent).2 hne, leftOut, if_pos hbase, Int.sub_zero]
  · have hnone : parseInt entry.baseValue = none := by simpa [IsInteger] using hbase
    have hsum : deltaSum deltas = deltaSum deltas.dropLast + intValue last.payload := by
      rw [← deltaSum_snoc, ← hfront]
    rw [leftOut, if_neg hbase, hsum, add_sub_cancel_left, Int64.ofInt_add]
    simp only [resolveWrite, htype, hnone, parseInt_of_isInteger hcurrent,
      parseInt_of_isInteger hpayload]

/-- A word spells a number in its range exactly if the two agree up to what words cannot hold. -/
theorem toInt_ofInt_eq_iff {x y : ℤ} (hy : -2 ^ 63 ≤ y ∧ y < 2 ^ 63) :
    (Int64.ofInt x).toInt = y ↔ x ≡ y [ZMOD 2 ^ 64] := by
  rw [Int64.toInt_ofInt, Int.bmod_eq_iff (by decide), Int.modEq_iff_dvd]
  constructor
  · exact fun h => h.2.2
  · exact fun h => ⟨hy.1, hy.2, h⟩

/-! ### Commits of deltas -/

/-- The value adds all deltas, each of them a number, to the number that was held. -/
structure AddsAll (deltas : List WriteIntent) (held value : Bytes) : Prop where
  payloads : ∀ intent ∈ deltas, IsInteger intent.payload
  integer : IsInteger held
  value : (parseInt value).map Int64.toInt = some (intValue held + deltaSum deltas)

/-- Every delta is a number, and so is what the batch meets; and what the commit got of
the object makes up for what it leaves out. -/
structure Balanced (tr : List (Event Call World)) (k base : Bytes) (deltas : List WriteIntent)
    (held : Bytes) : Prop where
  payloads : ∀ intent ∈ deltas, IsInteger intent.payload
  integer : IsInteger held
  got : ∀ met : World, ⟨.get k, met⟩ ∈ tr →
    intValue (met.store.get k).value ≡ intValue held + leftOut base deltas [ZMOD 2 ^ 64]

/-- A commit that writes an object with nothing but deltas on it adds all of them
exactly if they and the number before it are numbers and nothing is left out that
the commit has not got instead. -/
theorem selectWinnerAndCommit_addsAll_iff (hreached : Reached txn) (hs : Selects txn winner)
    (hdeltas : ∀ intent ∈ live winner.intentLog.entries k, intent.intentType = .delta)
    (h : (selectWinnerAndCommit txn).Interfered (handle .memory) tr (.ok true, txn'))
    (hbatch : (⟨.batchPutIfVersion checks writes, before⟩ : Event Call World) ∈ tr) {value : Bytes}
    (hwrite : { key := k, value } ∈ writes) (hentry : winner.writeBuffer.find k = some entry)
    (hlow : -2 ^ 63 ≤ intValue (before.store.get k).value + deltaSum
      (live winner.intentLog.entries k))
    (hhigh : intValue (before.store.get k).value + deltaSum
      (live winner.intentLog.entries k) < 2 ^ 63) :
    AddsAll (live winner.intentLog.entries k) (before.store.get k).value value ↔
      Balanced tr k entry.baseValue (live winner.intentLog.entries k)
          (before.store.get k).value := by
  obtain ⟨entry', last, met, hentry', hlast, hget, hsuccess, rfl⟩ :=
    exists_resolved hs h hbatch hwrite
  obtain rfl := Option.some.inj (hentry'.symm.trans hentry)
  have hmem : winner ∈ txn.branches := BranchManager.mem_of_findBranch hs.2
  obtain ⟨base, -, hbuffers⟩ := (hreached.allSynced winner hmem).buffers hentry
  have hcurrent : IsInteger (met.store.get k).value :=
    isInteger_of_resolved (hdeltas last (List.mem_of_getLast? hlast)) hsuccess
  have hvalue : (∀ intent ∈ live winner.intentLog.entries k, IsInteger intent.payload) →
      ((parseInt (resolveWrite entry' last (met.store.get k).value).value).map Int64.toInt =
          some (intValue (before.store.get k).value + deltaSum (live winner.intentLog.entries k)) ↔
        intValue (met.store.get k).value ≡ intValue (before.store.get k).value +
          leftOut entry'.baseValue (live winner.intentLog.entries k) [ZMOD 2 ^ 64]) := by
    intro hpayloads
    rw [resolveWrite_deltas hbuffers (fun intent hi => ⟨hdeltas intent hi, hpayloads intent hi⟩)
      hlast hcurrent, parseInt_toString, Option.map_some, Option.some.injEq,
      toInt_ofInt_eq_iff ⟨hlow, hhigh⟩, Int.modEq_iff_dvd,
      Int.modEq_iff_dvd]
    refine iff_of_eq (congrArg _ ?_)
    ring
  constructor
  · rintro ⟨hpayloads, hheld, hsum⟩
    refine ⟨hpayloads, hheld, fun met' hget' => ?_⟩
    rw [← get_unique hs h hget hget']
    exact (hvalue hpayloads).1 hsum
  · rintro ⟨hpayloads, hheld, hgot⟩
    exact ⟨hpayloads, hheld, (hvalue hpayloads).2 (hgot met hget)⟩

/-- Where the commit gets what the batch meets, the deltas left out have to cancel. -/
theorem balanced_iff_of_same {base held : Bytes} {deltas : List WriteIntent} {met : World}
    (hget : ⟨.get k, met⟩ ∈ tr)
    (hsame : ∀ met : World, ⟨.get k, met⟩ ∈ tr → (met.store.get k).value = held) :
    Balanced tr k base deltas held ↔
      (∀ intent ∈ deltas, IsInteger intent.payload) ∧ IsInteger held ∧
        2 ^ 64 ∣ leftOut base deltas := by
  have hcancel : ∀ met : World, ⟨.get k, met⟩ ∈ tr →
      (intValue (met.store.get k).value ≡ intValue held + leftOut base deltas [ZMOD 2 ^ 64] ↔
        2 ^ 64 ∣ leftOut base deltas) := by
    intro met hmem
    rw [hsame met hmem, Int.modEq_iff_dvd, add_sub_cancel_left]
  constructor
  · rintro ⟨hpayloads, hinteger, hgot⟩
    exact ⟨hpayloads, hinteger, (hcancel met hget).1 (hgot met hget)⟩
  · rintro ⟨hpayloads, hinteger, hdvd⟩
    exact ⟨hpayloads, hinteger, fun met hmem => (hcancel met hmem).2 hdvd⟩

def holdsFive : World where
  store := MemoryKVStore.write {} (ascii "k") (ascii "5")

/-- A transaction with one branch that makes these deltas of `k`. -/
def addsTo (payloads : List Bytes) : AgentTxnContext :=
  payloads.foldl (fun txn payload => ((txn.write (ascii "b") (ascii "k") .generic {
      objectId := ascii "k"
      intentType := .delta
      payload }).run (handle .memory) holdsFive).1)
    (AgentTxnManager.createBranch (begin_ (ascii "txn:1") (ascii "1")) (ascii "b"))

theorem reached_addsTo (payloads : List Bytes) : Reached (addsTo payloads) := by
  induction payloads using List.reverseRecOn with
  | nil => exact .createBranch (ascii "b") (.begin_ (ascii "txn:1") (ascii "1") {})
  | append_singleton payloads payload ih =>
    rw [addsTo, List.foldl_concat]
    exact .write .memory (ascii "b") (ascii "k") .generic _ holdsFive rfl ih

/-- The branch of that transaction. -/
def adder (payloads : List Bytes) : BranchContext :=
  ((addsTo payloads).findBranch (ascii "b")).getD { branchId := ascii "b" }

theorem selectWinnerAndCommit_addsAll_two :
    AddsAll (live (adder [ascii "1", ascii "2"]).intentLog.entries (ascii "k"))
      (ascii "5") (ascii "8") := by
  have hs : Selects (addsTo [ascii "1", ascii "2"]) (adder [ascii "1", ascii "2"]) := ⟨rfl, rfl⟩
  have hcommit := Program.interfered_run (h := handle .memory)
    (selectWinnerAndCommit (addsTo [ascii "1", ascii "2"])) holdsFive
  have hbatch :
      (⟨.batchPutIfVersion [{ key := ascii "k", expectedVersion := 1 }]
        [{ key := ascii "k", value := ascii "8" }], holdsFive⟩ : Event Call World) ∈
      (selectWinnerAndCommit (addsTo [ascii "1", ascii "2"])).trace (handle .memory) holdsFive :=
    List.mem_of_getElem? (i := 2) rfl
  have hentry : ∃ entry, (adder [ascii "1", ascii "2"]).writeBuffer.find (ascii "k") = some entry ∧
      entry.baseValue = ascii "5" := ⟨_, rfl, rfl⟩
  obtain ⟨entry, hentry, hbase⟩ := hentry
  refine (selectWinnerAndCommit_addsAll_iff (reached_addsTo _) hs (by decide) hcommit hbatch
    List.mem_cons_self hentry
    (by decide) (by decide)).2 ⟨by decide, by decide, fun met hget => ?_⟩
  rw [← get_unique hs hcommit (List.mem_of_getElem? (i := 0) rfl) hget, hbase]
  decide

/-- A delta with no number in it is passed over: 5 becomes 7. -/
theorem selectWinnerAndCommit_not_addsAll :
    Reached (addsTo [ascii "one", ascii "2"]) ∧
      Selects (addsTo [ascii "one", ascii "2"]) (adder [ascii "one", ascii "2"]) ∧
      (∀ intent ∈ live (adder [ascii "one", ascii "2"]).intentLog.entries (ascii "k"),
        intent.intentType = .delta) ∧
      ∃ txn' w' checks, (selectWinnerAndCommit (addsTo [ascii "one", ascii "2"])).run
        (handle .memory) holdsFive =
          ((.ok true, txn'), w') ∧
        ⟨.batchPutIfVersion checks [{ key := ascii "k", value := ascii "7" }], holdsFive⟩ ∈
          (selectWinnerAndCommit (addsTo [ascii "one", ascii "2"])).trace
            (handle .memory) holdsFive ∧
        ¬AddsAll (live (adder [ascii "one", ascii "2"]).intentLog.entries (ascii "k"))
            (ascii "5") (ascii "7") := by
  refine ⟨reached_addsTo _,
    ⟨rfl, rfl⟩, by decide, _, _, _, rfl, List.mem_of_getElem? (i := 2) rfl, fun h => ?_⟩
  exact absurd (h.payloads _ List.mem_cons_self) (by decide)

end DataAgentSystem.AgentTxn
