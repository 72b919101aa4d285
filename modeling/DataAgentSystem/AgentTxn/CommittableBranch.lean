import DataAgentSystem.AgentTxn.RebasedWrites

/-! The branches that can commit at all. A branch whose reads contradict each other, or
one of whose objects resolves against no value, commits in no store; every other one
commits in some store, and what that store holds of a single object may be chosen
freely as long as it suits that object. -/

namespace DataAgentSystem.AgentTxn

open Text Intent Cache Branch Storage Interaction Containers CommitManager AgentTxnManager

variable {kind : StoreKind} {winner : BranchContext} {k : Bytes} {held : Entry} {w : World}

/-- Nothing in the branch itself stands in the way of its commit. -/
structure CanCommit (winner : BranchContext) : Prop where
  agree : Agree winner.readSet.entries
  resolves : ∀ entry ∈ winner.writeBuffer.orderedEntries, ∃ intent value,
    (latestIntents winner.intentLog).lookup entry.objectId = some intent ∧
      (resolveWrite entry intent value).success = true
  based : ∀ entry ∈ writtenEntries winner, rebased winner entry.objectId = false →
    ∀ read ∈ winner.readSet.entries, read.objectId = entry.objectId →
      read.observedVersion = entry.baseVersion

/-- A store that holds this of the object does not stand in the way either. -/
structure Suits (winner : BranchContext) (k : Bytes) (held : Entry) : Prop where
  resolves : ∀ entry, winner.writeBuffer.find k = some entry → ∃ intent,
    (latestIntents winner.intentLog).lookup k = some intent ∧
      (resolveWrite entry intent held.value).success = true
  based : ∀ entry ∈ writtenEntries winner, entry.objectId = k → rebased winner k = true ∨
    held.version = entry.baseVersion
  read : ∀ read ∈ winner.readSet.entries, read.objectId = k →
    (rebased winner k = true ∧ ∃ entry ∈ writtenEntries winner, entry.objectId = k) ∨
      held.version = read.observedVersion

/-! ### Branches that can commit do so in some store -/

/-- Where a strict write or a read fixes the version, they fix the same one. -/
theorem CanCommit.exists_version (h : CanCommit winner) (k : Bytes) : ∃ v : UInt64,
    (∀ entry ∈ writtenEntries winner, entry.objectId = k → rebased winner k = true ∨
      v = entry.baseVersion) ∧
      ∀ read ∈ winner.readSet.entries, read.objectId = k →
        (rebased winner k = true ∧ ∃ entry ∈ writtenEntries winner, entry.objectId = k) ∨
          v = read.observedVersion := by
  by_cases hstrict : ∃ entry ∈ writtenEntries winner, entry.objectId = k ∧ rebased winner k = false
  · obtain ⟨entry, hentry, rfl, hrebased⟩ := hstrict
    refine ⟨entry.baseVersion, fun entry' hentry' hid => .inr ?_, fun read hread hid => .inr ?_⟩
    · have hmem := (mem_writtenEntries.1 hentry).1
      have hmem' := (mem_writtenEntries.1 hentry').1
      rw [WriteBuffer.mem_orderedEntries] at hmem hmem'
      rw [hid, hmem] at hmem'
      rw [Option.some.inj hmem']
    · exact (h.based entry hentry hrebased read hread hid).symm
  · have hrebase : ∀ entry ∈ writtenEntries winner, entry.objectId = k →
        rebased winner k = true := by
      intro entry hentry hid
      by_contra hno
      exact hstrict ⟨entry, hentry, hid, by simpa using hno⟩
    by_cases hread : ∃ read ∈ winner.readSet.entries, read.objectId = k
    · obtain ⟨read, hread, rfl⟩ := hread
      refine ⟨read.observedVersion, fun entry hentry hid => .inl (hrebase entry hentry hid),
        fun read' hread' hid => ?_⟩
      exact .inr (h.agree read hread read' hread' hid.symm)
    · exact ⟨0, fun entry hentry hid => .inl (hrebase entry hentry hid),
        fun read hmem hid => absurd ⟨read, hmem, hid⟩ hread⟩

theorem CanCommit.exists_suits (h : CanCommit winner) (k : Bytes) :
    ∃ held, Suits winner k held := by
  obtain ⟨v, hbased, hread⟩ := h.exists_version k
  cases hentry : winner.writeBuffer.find k with
  | none =>
    refine ⟨{ version := v }, ⟨fun entry hfind => ?_, hbased, hread⟩⟩
    rw [hentry] at hfind
    cases hfind
  | some entry =>
    have hid : entry.objectId = k := winner.writeBuffer.consistent.objectId_eq hentry
    subst hid
    obtain ⟨intent, value, hintent, hsuccess⟩ :=
      h.resolves entry (WriteBuffer.mem_orderedEntries.2 hentry)
    refine ⟨{ value, version := v }, ⟨fun entry' hfind => ⟨intent, hintent, ?_⟩, hbased, hread⟩⟩
    rw [hentry] at hfind
    cases hfind
    exact hsuccess

/-- The objects a commit of the branch looks at. -/
def objectsOf (winner : BranchContext) : List Bytes :=
  winner.writeBuffer.orderedEntries.map (·.objectId) ++ winner.readSet.entries.map (·.objectId)

/-- In a store that suits every object, the branch commits. -/
theorem CanCommit.ready (h : CanCommit winner) {s : MemoryKVStore}
    (hsuits : ∀ k ∈ objectsOf winner,
      Suits winner k { value := (s.get k).value, version := s.getVersion k }) :
    Ready winner s ∧ AllCurrent winner s := by
  have hentries : ∀ entry ∈ winner.writeBuffer.orderedEntries, entry.objectId ∈ objectsOf winner :=
    fun entry hentry => List.mem_append_left _ (List.mem_map_of_mem hentry)
  have hreads : ∀ read ∈ winner.readSet.entries, read.objectId ∈ objectsOf winner :=
    fun read hread => List.mem_append_right _ (List.mem_map_of_mem hread)
  refine ⟨⟨⟨h.agree, fun entry hentry => ?_, h.based⟩, fun read hread => ?_⟩, fun entry hentry =>
    ?_, fun read hread => ?_⟩
  · exact (hsuits _ (hentries entry hentry)).resolves entry
      (WriteBuffer.mem_orderedEntries.1 hentry)
  · exact ((hsuits _ (hreads read hread)).read read hread rfl).imp And.left id
  · exact (hsuits _ (hentries entry (mem_writtenEntries.1 hentry).1)).based entry hentry rfl
  · exact ((hsuits _ (hreads read hread)).read read hread rfl).symm.imp id And.right

/-- Something suits every object, whatever suits one of them. -/
theorem CanCommit.exists_suits_update (h : CanCommit winner) (hk : Suits winner k held) :
    ∃ pick : Bytes → Entry, pick k = held ∧ ∀ j, Suits winner j (pick j) := by
  classical
  choose pick hpick using h.exists_suits
  refine ⟨Function.update pick k held, Function.update_self .., fun j => ?_⟩
  by_cases hj : j = k
  · subst hj
    rw [Function.update_self]
    exact hk
  · rw [Function.update_of_ne hj]
    exact hpick j

/-- What the store of a commit holds of one object is free as long as it suits the object. -/
theorem CanCommit.exists_store (h : CanCommit winner) (hk : Suits winner k held) :
    ∃ s : MemoryKVStore,
      s.get k = { value := held.value, version := held.version, exists_ := true } ∧
      Ready winner s ∧ AllCurrent winner s := by
  obtain ⟨pick, hself, hall⟩ := h.exists_suits_update hk
  refine ⟨.holding pick (k :: objectsOf winner), ?_, ?_⟩
  · rw [MemoryKVStore.get_holding _ List.mem_cons_self, hself]
  · apply h.ready
    intro j hj
    rw [MemoryKVStore.getVersion, MemoryKVStore.get_holding _ (List.mem_cons_of_mem _ hj)]
    exact hall j

/-! ### Branches that commit can -/

theorem canCommit_of_ready {s : MemoryKVStore} (h : Ready winner s) : CanCommit winner := by
  refine ⟨h.agree, fun entry hentry => ?_, h.based⟩
  obtain ⟨intent, hintent, hsuccess⟩ := h.resolves entry hentry
  exact ⟨intent, _, hintent, hsuccess⟩

theorem resolveEntries_resolves {latest : UnorderedMap WriteIntent}
    {entries : List ObjectCacheEntry} {seenChecks : UnorderedMap UInt64} {writes : List WriteOp}
    {tr : List (Event Call World)} {r : UnorderedMap UInt64 × List WriteOp}
    (h : (resolveEntries latest entries seenChecks writes).Interfered (handle kind) tr (.ok r)) :
    ∀ entry ∈ entries, ∃ intent value, latest.lookup entry.objectId = some intent ∧
      (resolveWrite entry intent value).success = true := by
  induction entries generalizing seenChecks writes tr with
  | nil => exact fun entry hentry => absurd hentry List.not_mem_nil
  | cons entry entries ih =>
    obtain ⟨intent, w, rest, hintent, rfl, hsuccess, ⟨-, hrest⟩ | ⟨-, seen, -, hrest⟩⟩ :=
      resolveEntries_cons_ok h
    · exact List.forall_mem_cons.2 ⟨⟨intent, _, hintent, hsuccess⟩, ih hrest⟩
    · exact List.forall_mem_cons.2 ⟨⟨intent, _, hintent, hsuccess⟩, ih hrest⟩

theorem canCommit_of_commitWinner {txn : AgentTxnContext} {tr : List (Event Call World)}
    {log : CommitLog} (h : (commitWinner txn winner).Interfered (handle kind) tr (.ok log)) :
    CanCommit winner := by
  rw [commitWinner] at h
  split at h
  next => simp at h
  next seen hseen =>
    obtain ⟨tr₁, r, tr₂, rfl, hresolve, hrest⟩ := Program.interfered_bind.1 h
    cases r with
    | error reason => simp at hrest
    | ok r =>
      obtain ⟨seenChecks, writes⟩ := r
      refine ⟨(readChecks_ok_iff.1 ⟨_, hseen⟩).1, resolveEntries_resolves hresolve,
        fun entry hentry hrebased => ?_⟩
      have hstrict : ∀ intent, (latestIntents winner.intentLog).lookup entry.objectId =
        some intent →
          usesSemanticRebase intent.intentType = false := by
        intro intent hintent
        rw [rebased, hintent, Option.any_some] at hrebased
        exact hrebased
      obtain ⟨hkeep, hbase⟩ := resolveEntries_strict hresolve hstrict
      intro read hread hid
      -- the check of the read is still there when the write is checked
      have hchecked := hkeep _ (hid ▸ (readChecks_ok hseen).2 read hread)
      rw [hbase entry hentry rfl] at hchecked
      exact (Option.some.inj hchecked).symm

/-- The batch of a commit that returns true on a store with batches, and what it tells. -/
theorem selectWinnerAndCommit_batch {txn txn' : AgentTxnContext} {tr : List (Event Call World)}
    (hs : Selects txn winner)
    (h : (selectWinnerAndCommit txn).Interfered (handle .memory) tr (.ok true, txn')) :
    CanCommit winner ∧ ∃ looks batch seenChecks writes before,
      tr = looks ++ batch ∧ ReadOnly looks ∧
      BatchCommit winner batch seenChecks writes before := by
  obtain ⟨v, looks, hvalidate, ⟨-, -, hfalse, -⟩ | ⟨-, committing, result, rfl, hcommit, hr, -⟩⟩ :=
    selectWinnerAndCommit_steps hs h
  · cases hfalse
  · cases result with
    | error reason => cases hr
    | ok log =>
      have hcan : CanCommit { winner with status := .winner } := canCommit_of_commitWinner hcommit
      obtain ⟨seenChecks, writes, before, hbatch, -⟩ := commitWinner_ok hcommit
      refine ⟨⟨hcan.agree, hcan.resolves, hcan.based⟩, looks, committing,
        seenChecks, writes, before, rfl, ValidationManager.readOnly_validateReads hvalidate, ?_⟩
      exact ⟨hbatch.trace, hbatch.checked, hbatch.found, hbatch.resolved,
        hbatch.covered, hbatch.strict⟩

/-! ### Undisturbed commits -/

/-- The undisturbed commits of a store with batches meet one store throughout. -/
structure CommitsIn (txn : AgentTxnContext) (winner : BranchContext)
    (s : MemoryKVStore) : Prop where
  run : ∃ tr txn' checks writes,
    (selectWinnerAndCommit txn).Interfered (handle .memory) tr (.ok true, txn') ∧
    (∀ e ∈ tr, e.before.store = s) ∧ ⟨.batchPutIfVersion checks writes, { store := s }⟩ ∈ tr ∧
    writes.map WriteOp.key = (writtenEntries winner).map (·.objectId)

/-- Calls that only look, and one last call, all meet the world in which they began. -/
theorem before_of_looks {α : Type} {p : Prog α} {looks : List (Event Call World)}
    {last : Event Call World} (hlooks : ReadOnly looks)
    (h : p.trace (handle kind) w = looks ++ [last]) : ∀ e ∈ looks ++ [last], e.before = w := by
  induction looks generalizing p with
  | nil =>
    cases p with
    | ret a => cases h
    | call op next =>
      rw [Program.trace_call, List.nil_append, List.cons.injEq] at h
      obtain ⟨rfl, -⟩ := h
      simp
  | cons look looks ih =>
    rw [readOnly_cons] at hlooks
    cases p with
    | ret a => cases h
    | call op next =>
      rw [Program.trace_call, List.cons_append, List.cons.injEq] at h
      obtain ⟨rfl, hrest⟩ := h
      rw [handle_of_reads hlooks.1] at hrest
      exact List.forall_mem_cons.2 ⟨rfl, ih hlooks.2 hrest⟩

theorem commitsIn_of_ready {txn : AgentTxnContext} {s : MemoryKVStore} (hs : Selects txn winner)
    (hready : Ready winner s) (hcurrent : AllCurrent winner s) : CommitsIn txn winner s := by
  obtain ⟨txn', hrun⟩ := run_selectWinnerAndCommit_memory (w := { store := s }) hs hready hcurrent
  have hcommit :=
      Program.interfered_run (h := handle .memory) (selectWinnerAndCommit txn) { store := s }
  rw [hrun] at hcommit
  obtain ⟨-, looks, batch, seenChecks, writes, before, htrace, hlooks, hbatch⟩ :=
    selectWinnerAndCommit_batch hs hcommit
  obtain ⟨looks', hlooks', rfl⟩ := hbatch.trace
  rw [← List.append_assoc] at htrace
  have hbefore := before_of_looks (readOnly_append.2 ⟨hlooks, hlooks'⟩) htrace
  have hlast : before = { store := s } :=
    hbefore _ (List.mem_append_right _ (List.mem_singleton.2 rfl))
  refine ⟨_, txn', checksOf seenChecks, writes, hcommit, fun e he => ?_, ?_, ?_⟩
  · rw [htrace] at he
    rw [hbefore e he]
  · rw [htrace, ← hlast]
    exact List.mem_append_right _ (List.mem_singleton.2 rfl)
  · exact keys_of_resolved hbatch.resolved

/-- Of an object that suits it, the store of a commit holds what one likes. -/
theorem CanCommit.exists_commitsIn {txn : AgentTxnContext} (h : CanCommit winner)
    (hs : Selects txn winner) (hk : Suits winner k held) :
    ∃ s : MemoryKVStore, CommitsIn txn winner s ∧
      s.get k = { value := held.value, version := held.version, exists_ := true } := by
  obtain ⟨s, hget, hready, hcurrent⟩ := h.exists_store hk
  exact ⟨s, commitsIn_of_ready hs hready hcurrent, hget⟩

end DataAgentSystem.AgentTxn
