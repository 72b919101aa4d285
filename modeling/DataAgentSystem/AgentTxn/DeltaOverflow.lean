import DataAgentSystem.AgentTxn.ReachedTransaction
import DataAgentSystem.Branch.DeltaArithmetic

/-! Overflow along a run. Every call that may add or subtract is recorded with what it
is given, while branches are written to, rolled back and committed among other
actors, with the integers that its sums are, of which the code computes the last in
words. None leaves the range of a word exactly if the base and the deltas on it stay in
range at each write, and the deltas and the stored value at each commit. -/

namespace DataAgentSystem.AgentTxn

open Text Intent Cache Branch Storage Interaction Containers BranchManager
  CommitManager AgentTxnManager

variable {kind : StoreKind}

/-! ### Calls -/

/-- A call that may add or subtract, with the deltas that were on the object before it. -/
inductive DeltaCall where
  | bufferWrite (deltas : List WriteIntent) (entry : ObjectCacheEntry) (intent : WriteIntent)
  | resolveWrite (deltas : List WriteIntent) (entry : ObjectCacheEntry) (intent : WriteIntent)
      (currentStoreValue : Bytes)

namespace DeltaCall

def sums : DeltaCall → List ℤ
  | bufferWrite _ entry intent => bufferWriteSums entry intent
  | resolveWrite _ entry intent currentStoreValue => resolveWriteSums entry intent currentStoreValue

/-- What the call makes. -/
def value : DeltaCall → Bytes
  | bufferWrite _ entry intent => bufferedValue entry intent
  | resolveWrite _ entry intent currentStoreValue =>
    (Intent.resolveWrite entry intent currentStoreValue).value

/-- The last of the sums is what the call makes, in words. -/
theorem value_of_sums {call : DeltaCall} {n : ℤ} (h : call.sums.getLast? = some n) :
    call.value = Intent.toString (Int64.ofInt n) := by
  cases call with
  | bufferWrite => exact bufferedValue_of_sums h
  | resolveWrite => exact resolveWrite_of_sums h

/-- No result of the call overflows. -/
def Safe (call : DeltaCall) : Prop := ∀ n ∈ call.sums, InRange n

/-- A write fits if the base and the deltas do; a commit fits if the deltas do by
themselves and on top of the stored value. Without a number for a base only the
last delta counts, and that at the commit. -/
def Fits : DeltaCall → Prop
  | bufferWrite deltas entry intent => IsInteger entry.baseValue →
      InRange (intValue entry.baseValue + deltaSum (deltas ++ [intent]))
  | resolveWrite deltas entry intent currentStoreValue => IsInteger currentStoreValue →
      if IsInteger entry.baseValue then InRange (deltaSum deltas) ∧ InRange (intValue
        currentStoreValue + deltaSum deltas)
      else InRange (intValue currentStoreValue + intValue intent.payload)

variable {entry : ObjectCacheEntry} {deltas : List WriteIntent} {intent : WriteIntent}

theorem safe_bufferWrite_iff (h : SumsUp entry deltas) (hintent : IsDelta intent) :
    (bufferWrite deltas entry intent).Safe ↔ (bufferWrite deltas entry intent).Fits := by
  rw [Safe, sums, h.bufferWriteSums_eq hintent, Fits]
  by_cases hbase : IsInteger entry.baseValue
  · simp [hbase]
  · simp [hbase]

theorem safe_resolveWrite_iff (h : SumsUp entry deltas) (hintent : IsDelta intent)
    (current : Bytes) :
    (resolveWrite deltas entry intent current).Safe ↔
      (resolveWrite deltas entry intent current).Fits := by
  rw [Safe, sums, h.resolveWriteSums_eq hintent, Fits]
  by_cases hcurrent : IsInteger current
  · by_cases hbase : IsInteger entry.baseValue
    · simp [hcurrent, hbase]
    · simp [hcurrent, hbase]
  · simp [hcurrent]

end DeltaCall

/-! ### Runs -/

/-- The call that a write makes. -/
def writeCalls (txn : AgentTxnContext) (branchId : Bytes) (objectType : ObjectType)
    (intent : WriteIntent) (w : World) :
    List DeltaCall :=
  match txn.findBranch branchId with
  | none => []
  | some branch => [.bufferWrite (live branch.intentLog.entries intent.objectId)
      (startEntry branch intent.objectId objectType (w.store.get intent.objectId)) intent]

/-- The call that follows when the commit has got the value of an object. -/
def resolution (winner : BranchContext) (event : Event Call World) : Option DeltaCall :=
  match event.op with
  | .get k => match winner.writeBuffer.find k, (latestIntents winner.intentLog).lookup k with
    | some entry, some intent =>
      some (.resolveWrite (live winner.intentLog.entries k) entry intent
        (event.before.store.get k).value)
    | _, _ => none
  | _ => none

/-- The calls among those of a commit: none if it does not get past validation. -/
inductive CommitCalls (kind : StoreKind) (txn : AgentTxnContext) :
    List (Event Call World) → List DeltaCall → Prop
  | unselected : txn.branches = [] → CommitCalls kind txn [] []
  | refused {winner : BranchContext} {looks : List (Event Call World)} {v : ValidationResult} :
      Selects txn winner →
      (ValidationManager.validateWinner winner).Interfered (handle kind) looks v →
        v.success = false →
      CommitCalls kind txn looks []
  | resolved {winner : BranchContext} {looks plan ending : List (Event Call World)}
      {v : ValidationResult}
      {r : Except Bytes (UnorderedMap UInt64 × List WriteOp)} : Selects txn winner →
      (ValidationManager.validateWinner winner).Interfered (handle kind) looks v →
        v.success = true →
      (planWinner winner).Interfered (handle kind) plan r →
      CommitCalls kind txn (looks ++ (plan ++ ending)) (plan.filterMap (resolution winner))

/-- The transactions that deltas of named objects and commits can make of a fresh one,
among any other actors, and the calls made on the way. -/
inductive Computes : AgentTxnContext → List DeltaCall → Prop
  | begin_ (txnId taskId : Bytes) (fallbackCommit : FallbackCommitConfig) :
      Computes { AgentTxnManager.begin_ txnId taskId with fallbackCommit } []
  | createBranch {txn : AgentTxnContext} {calls : List DeltaCall} (branchId : Bytes) :
      Computes txn calls → Computes (AgentTxnManager.createBranch txn branchId) calls
  | read {txn : AgentTxnContext} {calls : List DeltaCall} (kind : StoreKind)
      (branchId objectId : Bytes) (w : World) :
      Computes txn calls → Computes ((txn.read branchId objectId).run (handle kind) w).1.2 calls
  | write {txn : AgentTxnContext} {calls : List DeltaCall} (kind : StoreKind) (branchId : Bytes)
      (objectType : ObjectType)
      (intent : WriteIntent) (w : World) : IsDelta intent → Computes txn calls →
      Computes ((txn.write branchId intent.objectId objectType intent).run (handle kind) w).1
        (calls ++ writeCalls txn branchId objectType intent w)
  | savepoint {txn : AgentTxnContext} {calls : List DeltaCall} (branchId savepointId : Bytes) :
      Computes txn calls → Computes (txn.savepoint branchId savepointId) calls
  | rollbackToSavepoint {txn : AgentTxnContext} {calls : List DeltaCall}
      (branchId savepointId : Bytes) :
      Computes txn calls → Computes (txn.rollbackToSavepoint branchId savepointId).2 calls
  | stageBranch {txn : AgentTxnContext} {calls : List DeltaCall} (branchId : Bytes)
      (score : Double) (summary : Bytes) :
      Computes txn calls → Computes (txn.stageBranch branchId score summary) calls
  | abortTask {txn : AgentTxnContext} {calls : List DeltaCall} : Computes txn calls →
      Computes txn.abortTask calls
  | commit {txn txn' : AgentTxnContext} {calls added : List DeltaCall} {kind : StoreKind}
      {tr : List (Event Call World)}
      {result : Except Bytes Bool} : (selectWinnerAndCommit txn).Interfered
        (handle kind) tr (result, txn') →
      CommitCalls kind txn tr added → Computes txn calls → Computes txn' (calls ++ added)

variable {txn txn' : AgentTxnContext} {branch : BranchContext} {calls added : List DeltaCall}
  {records : List WriteRecord}

/-- Every commit makes some such calls. -/
theorem exists_commitCalls {tr : List (Event Call World)} {result : Except Bytes Bool}
    (h : (selectWinnerAndCommit txn).Interfered (handle kind) tr (result, txn')) :
    ∃ added, CommitCalls kind txn tr added := by
  by_cases hnil : txn.branches = []
  · rw [selectWinnerAndCommit, hnil] at h
    obtain ⟨rfl, -⟩ := Program.interfered_ret.1 h
    exact ⟨[], .unselected hnil⟩
  · obtain ⟨winner, hs⟩ := exists_selects hnil
    obtain ⟨v, looks, hvalidate, ⟨hv, rfl, -⟩ | ⟨hv, committing, outcome, rfl, hcommit, -⟩⟩ :=
      selectWinnerAndCommit_steps hs h
    · exact ⟨[], .refused hs hvalidate hv⟩
    · rw [commitWinner_plan] at hcommit
      obtain ⟨plan, r, ending, rfl, hplan, -⟩ := Program.interfered_bind.1 hcommit
      exact ⟨_, .resolved hs hvalidate hv hplan⟩

/-! ### What is exact stays exact -/

/-- All records are of deltas, and each object is buffered with the sum of those on it. -/
structure Exact (records : List WriteRecord) : Prop where
  deltas : ∀ record ∈ records, IsDelta record.intent
  unbuffered : ∀ k, (WriteBufferData.replay (records.map (·.entry))).entries k = none →
    live (records.map (·.intent)) k = []
  sumsUp : ∀ k entry, (WriteBufferData.replay (records.map (·.entry))).entries k = some entry →
    SumsUp entry (live (records.map (·.intent)) k)

theorem exact_nil : Exact [] :=
  ⟨fun _ hr => absurd hr List.not_mem_nil, fun _ _ => rfl, fun _ _ hentry => by cases hentry⟩

theorem Exact.startEntry (h : Exact records) (hwritten : HasWritten branch records) (k : Bytes)
    (objectType : ObjectType) (base : VersionedValue) :
    SumsUp (startEntry branch k objectType base) (live branch.intentLog.entries k) ∧
      (AgentTxn.startEntry branch k objectType base).objectId = k := by
  unfold AgentTxn.startEntry
  rw [hwritten.intents]
  cases hfind : branch.writeBuffer.find k with
  | none =>
    rw [WriteBuffer.find, hwritten.buffer] at hfind
    rw [h.unbuffered k hfind, Option.getD_none]
    exact ⟨sumsUp_newEntry k objectType base, rfl⟩
  | some entry =>
    have hid : entry.objectId = k := branch.writeBuffer.consistent.objectId_eq hfind
    rw [WriteBuffer.find, hwritten.buffer] at hfind
    exact ⟨h.sumsUp k entry hfind, hid⟩

theorem Exact.snoc (h : Exact records) {entry : ObjectCacheEntry} {intent : WriteIntent}
    (objectType : ObjectType) (hsums : SumsUp entry (live (records.map (·.intent)) intent.objectId))
    (hid : entry.objectId = intent.objectId) (hintent : IsDelta intent)
    (hfits : (DeltaCall.bufferWrite (live (records.map (·.intent)) intent.objectId) entry
      intent).Fits) :
    Exact (records ++ [⟨updateEntry entry objectType intent, intent⟩]) := by
  have hid' : (updateEntry entry objectType intent).objectId = intent.objectId := hid
  constructor
  · exact List.forall_mem_append.2 ⟨h.deltas, List.forall_mem_singleton.2 hintent⟩
  · intro k hnone
    rw [List.map_append, List.map_singleton, WriteBufferData.replay_snoc,
      WriteBufferData.entries_upsert, hid'] at hnone
    rw [List.map_append, List.map_singleton, live_snoc]
    split at hnone
    next => cases hnone
    next hk =>
      rw [if_neg hk]
      exact h.unbuffered k hnone
  · intro k found hfound
    rw [List.map_append, List.map_singleton, WriteBufferData.replay_snoc,
      WriteBufferData.entries_upsert, hid'] at hfound
    rw [List.map_append, List.map_singleton, live_snoc]
    split at hfound
    next hk =>
      obtain rfl := Option.some.inj hfound
      subst hk
      rw [if_pos rfl]
      exact hsums.snoc hintent objectType hfits
    next hk =>
      rw [if_neg hk]
      exact h.sumsUp k found hfound

theorem kept_exact : Kept (Throughout Exact) := kept_throughout exact_nil

/-- A write that fits is safe, and conversely, and leaves its branch exact. -/
theorem writeCalls_iff (h : AllBranches (Throughout Exact) txn) (branchId : Bytes)
    (objectType : ObjectType) {intent : WriteIntent} (hintent : IsDelta intent) (w : World) :
    ∀ call ∈ writeCalls txn branchId objectType intent w, call.Safe ↔ call.Fits := by
  intro call hcall
  unfold writeCalls at hcall
  cases hbranch : txn.findBranch branchId with
  | none =>
    rw [hbranch] at hcall
    cases hcall
  | some branch =>
    rw [hbranch] at hcall
    obtain rfl := List.mem_singleton.1 hcall
    obtain ⟨records, hwritten, hexact⟩ := (h.findBranch hbranch).now
    exact DeltaCall.safe_bufferWrite_iff (hexact.startEntry hwritten _ objectType _).1 hintent

theorem AllBranches.write_exact (h : AllBranches (Throughout Exact) txn) (branchId : Bytes)
    (objectType : ObjectType) {intent : WriteIntent} (hintent : IsDelta intent) (w : World)
    (hfits : ∀ call ∈ writeCalls txn branchId objectType intent w, call.Fits) :
    AllBranches (Throughout Exact)
      ((txn.write branchId intent.objectId objectType intent).run (handle kind) w).1 := by
  unfold AgentTxnContext.write
  unfold writeCalls at hfits
  cases hbranch : txn.findBranch branchId with
  | none => exact h
  | some branch =>
    rw [hbranch] at hfits
    simp only [Program.run_bind, Program.pure_eq_ret, Program.run_ret]
    refine h.setBranch ((h.findBranch hbranch).bufferWrite fun records hwritten hexact => ?_)
    obtain ⟨hsums, hid⟩ := hexact.startEntry hwritten intent.objectId objectType
      (w.store.get intent.objectId)
    have hfits' := hfits _ List.mem_cons_self
    rw [hwritten.intents] at hsums hfits'
    exact hexact.snoc objectType hsums hid hintent hfits'

/-- The calls of a commit are safe if they fit, and conversely. -/
theorem CommitCalls.iff {tr : List (Event Call World)} (h : CommitCalls kind txn tr added)
    (hexact : AllBranches (Throughout Exact) txn) : ∀ call ∈ added, call.Safe ↔ call.Fits := by
  cases h with
  | unselected => exact fun call hcall => absurd hcall List.not_mem_nil
  | refused => exact fun call hcall => absurd hcall List.not_mem_nil
  | @resolved winner looks plan ending v r hs =>
    intro call hcall
    obtain ⟨event, -, hcall⟩ := List.mem_filterMap.1 hcall
    unfold resolution at hcall
    split at hcall
    next k hop =>
      split at hcall
      next entry intent hentry hintent =>
        obtain rfl := Option.some.inj hcall
        obtain ⟨records, hwritten, hexact⟩ := (hexact.findBranch hs.2).now
        rw [WriteBuffer.find, hwritten.buffer] at hentry
        rw [lookup_latestIntents_live, hwritten.intents] at hintent
        have hmem := (mem_live.1 (List.mem_of_getLast? hintent)).1
        obtain ⟨record, hrecord, rfl⟩ := List.mem_map.1 hmem
        rw [hwritten.intents]
        exact DeltaCall.safe_resolveWrite_iff (hexact.sumsUp k entry hentry)
          (hexact.deltas record hrecord) _
      next => cases hcall
    next => cases hcall

/-- Calls that are safe as far as they fit, one after the other. -/
theorem safe_append_iff (h : (∀ call ∈ calls, call.Safe) ↔ ∀ call ∈ calls, call.Fits)
    (hadded : (∀ call ∈ calls, call.Fits) → ∀ call ∈ added, call.Safe ↔ call.Fits) :
    (∀ call ∈ calls ++ added, call.Safe) ↔ ∀ call ∈ calls ++ added, call.Fits := by
  rw [List.forall_mem_append, List.forall_mem_append, h]
  exact and_congr_right fun hfits => forall₂_congr fun call hcall => hadded hfits call hcall

theorem Computes.exact (h : Computes txn calls) :
    ((∀ call ∈ calls, call.Fits) → AllBranches (Throughout Exact) txn) ∧
    ((∀ call ∈ calls, call.Safe) ↔ ∀ call ∈ calls, call.Fits) := by
  induction h with
  | begin_ => exact ⟨fun _ b hb => absurd hb List.not_mem_nil, by simp⟩
  | createBranch branchId _ ih =>
    exact ⟨fun hfits => (ih.1 hfits).createBranch kept_exact branchId, ih.2⟩
  | read kind branchId objectId w _ ih =>
    exact ⟨fun hfits => (ih.1 hfits).read fun _ hbranch => hbranch.readObject objectId w, ih.2⟩
  | write kind branchId objectType intent w hintent _ ih =>
    refine ⟨fun hfits => ?_, safe_append_iff ih.2 fun hfits =>
      writeCalls_iff (ih.1 hfits) branchId objectType hintent w⟩
    rw [List.forall_mem_append] at hfits
    exact (ih.1 hfits.1).write_exact branchId objectType hintent w hfits.2
  | savepoint branchId savepointId _ ih =>
    exact ⟨fun hfits => (ih.1 hfits).savepoint kept_exact branchId savepointId, ih.2⟩
  | rollbackToSavepoint branchId savepointId _ ih =>
    exact ⟨fun hfits => (ih.1 hfits).rollbackToSavepoint kept_exact branchId savepointId, ih.2⟩
  | stageBranch branchId score summary _ ih =>
    exact ⟨fun hfits => (ih.1 hfits).stageBranch fun _ hbranch => hbranch.congr rfl rfl rfl, ih.2⟩
  | abortTask _ ih => exact ⟨fun hfits => (ih.1 hfits).abortTask kept_exact, ih.2⟩
  | commit hrun hcalls _ ih =>
    refine ⟨fun hfits => ?_, safe_append_iff ih.2 fun hfits => hcalls.iff (ih.1 hfits)⟩
    rw [List.forall_mem_append] at hfits
    exact ((ih.1 hfits.1).selectWinnerAndCommit kept_exact).interfered hrun

/-- In a run no addition or subtraction of a delta overflows exactly if every write and
every commit fits. The sums are those that the code makes in words, and whatever commit
follows, its calls are recorded as well. -/
theorem computes_safe_iff (h : Computes txn calls) :
    ((∀ call ∈ calls, call.Safe) ↔ ∀ call ∈ calls, call.Fits) ∧
      (∀ call ∈ calls, ∀ n, call.sums.getLast? = some n →
        call.value = Intent.toString (Int64.ofInt n)) ∧
      ∀ kind tr result txn',
        (selectWinnerAndCommit txn).Interfered (handle kind) tr (result, txn') →
        ∃ added, CommitCalls kind txn tr added ∧ Computes txn' (calls ++ added) := by
  refine ⟨h.exact.2, fun call _ n hlast => DeltaCall.value_of_sums hlast, ?_⟩
  intro kind tr result txn' hcommit
  obtain ⟨added, hadded⟩ := exists_commitCalls hcommit
  exact ⟨added, hadded, .commit hcommit hadded h⟩

/-- A store that holds the greatest number of a word. -/
def holdsMost : World where
  store := MemoryKVStore.write {} (ascii "k") (ascii "9223372036854775807")

/-- A transaction with one branch. -/
def oneBranch : AgentTxnContext :=
  AgentTxnManager.createBranch (begin_ (ascii "txn:1") (ascii "1")) (ascii "b")

def plusOne : WriteIntent where
  objectId := ascii "k"
  intentType := .delta
  payload := ascii "1"

theorem computes_plusOne (w : World) :
    Computes ((oneBranch.write (ascii "b") (ascii "k") .generic plusOne).run (handle .memory) w).1
      (writeCalls oneBranch (ascii "b") .generic plusOne w) :=
  .write .memory (ascii "b") .generic plusOne w (by decide)
    (.createBranch (ascii "b") (.begin_ (ascii "txn:1") (ascii "1") {}))

theorem computes_safe_plusOne :
    let calls := writeCalls oneBranch (ascii "b") .generic plusOne holdsMost
    let txn := ((oneBranch.write (ascii "b") (ascii "k") .generic plusOne).run
      (handle .memory) holdsMost).1
    ((∀ call ∈ calls, call.Safe) ↔ ∀ call ∈ calls, call.Fits) ∧
      (∀ call ∈ calls, ∀ n, call.sums.getLast? = some n →
        call.value = Intent.toString (Int64.ofInt n)) ∧
      ∀ kind tr result txn',
        (selectWinnerAndCommit txn).Interfered (handle kind) tr (result, txn') →
        ∃ added, CommitCalls kind txn tr added ∧ Computes txn' (calls ++ added) :=
  computes_safe_iff (computes_plusOne holdsMost)

/-- One more than the greatest number is no longer a number of a word. -/
theorem computes_not_safe : ∃ txn call, Computes txn [call] ∧
    call.sums = [2 ^ 63] ∧ ¬call.Safe := by
  refine ⟨_, _, computes_plusOne holdsMost, by decide +kernel, fun hsafe => ?_⟩
  exact absurd (hsafe (2 ^ 63) (by decide +kernel)) (by decide)

end DataAgentSystem.AgentTxn
