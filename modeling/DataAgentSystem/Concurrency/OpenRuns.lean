import DataAgentSystem.AgentTxn.ReachedTransaction
import DataAgentSystem.AgentTxn.RebasedWrites
import DataAgentSystem.Concurrency.Serializability

/-! Runs of the transaction system among arbitrary foreign writers, seen from one
key. The version of the key counts its writes, so while fewer than 2 ^ 64 of them
have been made, a version names a value: what a commit got at the version it then
finds again is what the key holds. A commit therefore resolves its rebased write
against the value its batch meets, however long ago its branch was based. -/

namespace DataAgentSystem.Concurrency

open Text Intent Cache Branch Storage Interaction AgentTxn CommitManager AgentTxnManager

variable {ι : Type}

/-- A step of the system, or one of the conditional calls of a foreign writer. -/
inductive Move (ι : Type) where
  | act (a : Action ι)
  | putIfVersion (key : Bytes) (expectedVersion : UInt64) (value : Bytes)
  | deleteIfVersion (key : Bytes) (expectedVersion : UInt64)

namespace Move

/-- Every buffered intent names the object it is buffered for. -/
def Named : Move ι → Prop
  | .act (.operate _ (.write _ objectId _ intent)) => intent.objectId = objectId
  | _ => True

/-- The move does not delete the key. -/
def Keeps (k : Bytes) : Move ι → Prop
  | .deleteIfVersion key _ => key ≠ k
  | _ => True

/-- No foreign call is about the key. -/
def Spares (k : Bytes) : Move ι → Prop
  | .act (.put key _) => key ≠ k
  | .act (.batchPutIfVersion _ writes) => k ∉ writes.map WriteOp.key
  | .putIfVersion key _ _ => key ≠ k
  | .deleteIfVersion key _ => key ≠ k
  | _ => True

theorem Spares.keeps {k : Bytes} {m : Move ι} (h : m.Spares k) : m.Keeps k := by
  cases m with
  | deleteIfVersion key expectedVersion => exact h
  | act a => trivial
  | putIfVersion key expectedVersion value => trivial

end Move

/-- The branch a commit of the transaction selects. -/
def winnerOf (txn : AgentTxnContext) : Option BranchContext :=
  match BranchManager.selectWinner txn.branches with
  | .error _ => none
  | .ok winnerBranchId => txn.findBranch winnerBranchId

/-- The intents on the key that are live in the winner. -/
def liveInWinner (txn : AgentTxnContext) (k : Bytes) : List WriteIntent :=
  match winnerOf txn with
  | none => []
  | some winner => live winner.intentLog.entries k

theorem liveInWinner_of_selects {txn : AgentTxnContext} {winner : BranchContext}
    (h : Selects txn winner) (k : Bytes) :
    liveInWinner txn k = live winner.intentLog.entries k := by
  have hwinner : winnerOf txn = some winner := by
    rw [winnerOf, h.1]
    exact h.2
  rw [liveInWinner, hwinner]

namespace System

/-- The changes a move adds to the history. -/
def changes (s : System ι) : Move ι → List (Change ι)
  | .act (.commitCall i) =>
    match (s.clients i).stage with
    | .committing _ (.call op _) => batchChange (some i) s.world op
    | _ => []
  | .act (.put key value) => [{ author := none, writes := [{ key, value }] }]
  | .act (.batchPutIfVersion checks writes) =>
    batchChange none s.world (.batchPutIfVersion checks writes)
  | .putIfVersion key expectedVersion value =>
    if s.world.store.getVersion key = expectedVersion then
      [{ author := none, writes := [{ key, value }] }]
    else []
  | _ => []

/-- The transaction whose commit comes to return true by the move. -/
def commits (s : System ι) : Move ι → List (ι × AgentTxnContext)
  | .act (.commitCall i) =>
    match (s.clients i).stage with
    | .committing txn (.call op next) =>
      match next (handle .memory op s.world).1 with
      | .ret (.ok true, _) => [(i, txn)]
      | _ => []
    | _ => []
  | _ => []

theorem commits_cases {s : System ι} {m : Move ι} {c : ι × AgentTxnContext} (h : c ∈ s.commits m) :
    ∃ op next txn', m = .act (.commitCall c.1) ∧
      (s.clients c.1).stage = .committing c.2 (.call op next) ∧
      next (handle .memory op s.world).1 = .ret (.ok true, txn') ∧ s.commits m = [c] := by
  cases m with
  | putIfVersion key expectedVersion value => cases h
  | deleteIfVersion key expectedVersion => cases h
  | act a =>
    cases a with
    | commitCall i =>
      simp only [commits] at h ⊢
      split at h
      next txn op next hstage =>
        split at h
        next txn' hret =>
          rw [List.mem_singleton] at h
          subst h
          exact ⟨op, next, txn', rfl, hstage, hret, rfl⟩
        next => cases h
      next => cases h
    | operate i op => cases h
    | beginCommit i => cases h
    | endCommit i => cases h
    | put key value => cases h
    | batchPutIfVersion checks writes => cases h

variable [DecidableEq ι]

def move (s : System ι) : Move ι → Option (System ι)
  | .act a => s.step a
  | .putIfVersion key expectedVersion value =>
    some { s with
      world := (handle .memory (.putIfVersion key expectedVersion value) s.world).2
      history := s.history ++ s.changes (.putIfVersion key expectedVersion value) }
  | .deleteIfVersion key expectedVersion =>
    some { s with world := (handle .memory (.deleteIfVersion key expectedVersion) s.world).2 }

/-- Some moves, each allowed where it is made, and the transactions they commit, in order. -/
inductive RunsTo (allowed : System ι → Move ι → Prop) (s₀ : System ι) :
    List (ι × AgentTxnContext) → System ι → Prop
  | start : RunsTo allowed s₀ [] s₀
  | move {committed : List (ι × AgentTxnContext)} {s s' : System ι} (m : Move ι) :
      RunsTo allowed s₀ committed s →
      allowed s m → s.move m = some s' → RunsTo allowed s₀ (committed ++ s.commits m) s'

/-- The system after some moves, and what they commit. -/
def follow (s : System ι) : List (Move ι) → Option (List (ι × AgentTxnContext) × System ι)
  | [] => some ([], s)
  | m :: moves =>
    (s.move m).bind fun s' => (s'.follow moves).map fun out => (s.commits m ++ out.1, out.2)

theorem follow_append (s : System ι) (moves moves' : List (Move ι)) :
    s.follow (moves ++ moves') =
      (s.follow moves).bind fun out => (out.2.follow moves').map fun out' =>
        (out.1 ++ out'.1, out'.2) := by
  induction moves generalizing s with
  | nil => cases h : s.follow moves' <;> simp [follow, h]
  | cons m moves ih =>
    cases hm : s.move m with
    | none => simp [follow, hm]
    | some s' =>
      simp only [List.cons_append, follow, hm, Option.bind_some, ih]
      cases s'.follow moves with
      | none => rfl
      | some out =>
        simp only [Option.bind_some, Option.map_some]
        cases out.2.follow moves' with
        | none => rfl
        | some out' => simp

theorem runsTo_follow {allowed : System ι → Move ι → Prop}
    {s₀ s s' : System ι} {moves : List (Move ι)} {committed new : List (ι × AgentTxnContext)}
    (h : RunsTo allowed s₀ committed s) (hallowed : ∀ m ∈ moves, ∀ s, allowed s m)
    (hfollow : s.follow moves = some (new, s')) :
    RunsTo allowed s₀ (committed ++ new) s' := by
  induction moves generalizing s committed new with
  | nil =>
    cases hfollow
    rw [List.append_nil]
    exact h
  | cons m moves ih =>
    obtain ⟨t, hmove, hrest⟩ := Option.bind_eq_some_iff.1 hfollow
    obtain ⟨⟨later, s''⟩, hlater, heq⟩ := Option.map_eq_some_iff.1 hrest
    cases heq
    rw [List.forall_mem_cons] at hallowed
    rw [← List.append_assoc]
    exact ih (h.move m (hallowed.1 s) hmove) hallowed.2 hlater

theorem RunsTo.mono {allowed allowed' : System ι → Move ι → Prop} {s₀ s : System ι}
    {committed : List (ι × AgentTxnContext)} (h : RunsTo allowed s₀ committed s)
    (hallowed : ∀ s m, allowed s m → allowed' s m) : RunsTo allowed' s₀ committed s := by
  induction h with
  | start => exact .start
  | move m _ hm hstep ih => exact .move m ih (hallowed _ m hm) hstep

end System

/-! ### What a move does to a key -/

/-- The key after some writes of a history that grew by `new`. -/
structure Touched (k : Bytes) (new : List (Change ι)) (store store' : MemoryKVStore) : Prop where
  version : store'.getVersion k = store.getVersion k + UInt64.ofNat
    (MemoryKVStore.writesTo k (allWrites new))
  value : MemoryKVStore.writesTo k (allWrites new) = 0 → (store'.get k).value = (store.get k).value

theorem touched_applyWrites (k : Bytes) (store : MemoryKVStore) (new : List (Change ι)) :
    Touched k new store (store.applyWrites (allWrites new)) := by
  refine ⟨MemoryKVStore.getVersion_applyWrites store _ k, fun hzero => ?_⟩
  rw [MemoryKVStore.get_applyWrites_of_notMem (MemoryKVStore.writesTo_eq_zero_iff.1 hzero)]

theorem touched_refl (k : Bytes) (store : MemoryKVStore) :
    Touched k ([] : List (Change ι)) store store :=
  touched_applyWrites k store []

theorem touched_putIfVersion (k : Bytes) (w : World) (key : Bytes) (expectedVersion : UInt64)
    (value : Bytes) :
    Touched k (if w.store.getVersion key = expectedVersion
        then [({ author := none, writes := [{ key, value }] } : Change ι)] else [])
      w.store (handle .memory (.putIfVersion key expectedVersion value) w).2.store := by
  by_cases hv : w.store.getVersion key = expectedVersion
  · rw [if_pos hv]
    have hput : (handle .memory (.putIfVersion key expectedVersion value) w).2.store =
        w.store.write key value := by
      simp only [handle, World.withStore, MemoryKVStore.putIfVersion_of_eq value hv]
    rw [hput]
    exact touched_applyWrites k w.store [{ author := none, writes := [{ key, value }] }]
  · rw [if_neg hv]
    obtain ⟨hvalue, hversion⟩ := MemoryKVStore.get_putIfVersion_of_ne value hv k
    exact ⟨hversion.trans (UInt64.add_zero _).symm, fun _ => hvalue⟩

theorem get_deleteIfVersion_of_ne {w : World} {key k : Bytes} (hk : key ≠ k)
    (expectedVersion : UInt64) :
    (handle .memory (.deleteIfVersion key expectedVersion) w).2.store.get k = w.store.get k := by
  simp only [handle, World.withStore]
  by_cases hv : w.store.getVersion key = expectedVersion
  · rw [(MemoryKVStore.deleteIfVersion_of_eq hv).2 k, if_neg (Ne.symm hk)]
  · rw [MemoryKVStore.deleteIfVersion_of_ne hv]

theorem writesTo_batchChange {k : Bytes} {author : Option ι} {w : World}
    {checks : List VersionCheck} {writes : List WriteOp} (hk : k ∉ writes.map WriteOp.key) :
    MemoryKVStore.writesTo k (allWrites (batchChange author w (.batchPutIfVersion checks writes))) =
      0 := by
  rw [MemoryKVStore.writesTo_eq_zero_iff, batchChange]
  split
  · simpa [allWrites] using hk
  · exact List.not_mem_nil

theorem run_perform_world (kind : StoreKind) (op : TxnOp) (txn : AgentTxnContext) (w : World) :
    ((op.perform txn).run (handle kind) w).2 = w := by
  cases op with
  | createBranch branchId => rfl
  | read branchId objectId =>
    simp only [TxnOp.perform, Program.run_bind, Program.pure_eq_ret, Program.run_ret]
    exact AgentTxnContext.run_read _ _ _ _ _
  | write branchId objectId objectType intent =>
    simp only [TxnOp.perform, Program.run_bind, Program.pure_eq_ret, Program.run_ret]
    exact AgentTxnContext.run_write _ _ _ _ _ _ _
  | savepoint branchId savepointId => rfl
  | rollbackToSavepoint branchId savepointId => rfl
  | stageBranch branchId score summary => rfl
  | abort => rfl

/-! ### What a move does to a transaction -/

/-- How a move takes the transaction of a client on. -/
inductive StageStep (s : System ι) (i : ι) : Move ι → Stage → Prop
  | operate {txn : AgentTxnContext} (op : TxnOp) : (s.clients i).stage = .working txn →
      StageStep s i (.act (.operate i op))
        (.working ((op.perform txn).run (handle .memory) s.world).1.1)
  | beginCommit {txn : AgentTxnContext} : (s.clients i).stage = .working txn →
      StageStep s i (.act (.beginCommit i)) (.committing txn (selectWinnerAndCommit txn))
  | commitCall {txn : AgentTxnContext} {op : Call}
      {next : op.Resp → Prog (Except Bytes Bool × AgentTxnContext)} :
      (s.clients i).stage = .committing txn (.call op next) →
      StageStep s i (.act (.commitCall i)) (.committing txn (next (handle .memory op s.world).1))
  | endCommit {txn txn' : AgentTxnContext} {r : Except Bytes Bool} :
      (s.clients i).stage = .committing txn (.ret (r, txn')) →
        StageStep s i (.act (.endCommit i)) (.working txn')

theorem stage_setClient [DecidableEq ι] (s : System ι) (i j : ι) (client : Client) :
    ((s.setClient i client).clients j).stage = if j = i then client.stage
      else (s.clients j).stage := by
  by_cases hj : j = i
  · subst hj
    simp only [System.setClient, Function.update_self, ↓reduceIte]
  · simp only [System.setClient, Function.update_of_ne hj, hj, ↓reduceIte]

/-- A move leaves the transaction of a client alone, or takes it on. -/
theorem stage_move [DecidableEq ι] {s s' : System ι} {m : Move ι}
    (hmove : s.move m = some s') (j : ι) :
    (s'.clients j).stage = (s.clients j).stage ∨ StageStep s j m (s'.clients j).stage := by
  cases m with
  | putIfVersion key expectedVersion value =>
    cases hmove
    exact .inl rfl
  | deleteIfVersion key expectedVersion =>
    cases hmove
    exact .inl rfl
  | act a =>
    simp only [System.move] at hmove
    cases a with
    | put key value =>
      cases hmove
      exact .inl rfl
    | batchPutIfVersion checks writes =>
      cases hmove
      exact .inl rfl
    | operate i op =>
      simp only [System.step] at hmove
      split at hmove
      next txn hstage =>
        cases hmove
        rw [stage_setClient]
        by_cases hj : j = i
        · subst hj
          rw [if_pos rfl]
          exact .inr (.operate op hstage)
        · exact .inl (if_neg hj)
      next => cases hmove
    | beginCommit i =>
      simp only [System.step] at hmove
      split at hmove
      next txn hstage =>
        cases hmove
        rw [stage_setClient]
        by_cases hj : j = i
        · subst hj
          rw [if_pos rfl]
          exact .inr (.beginCommit hstage)
        · exact .inl (if_neg hj)
      next => cases hmove
    | commitCall i =>
      simp only [System.step] at hmove
      split at hmove
      next txn op next hstage =>
        cases hmove
        rw [stage_setClient]
        by_cases hj : j = i
        · subst hj
          rw [if_pos rfl]
          exact .inr (.commitCall hstage)
        · exact .inl (if_neg hj)
      next => cases hmove
    | endCommit i =>
      simp only [System.step] at hmove
      split at hmove
      next txn r txn' hstage =>
        cases hmove
        rw [stage_setClient]
        by_cases hj : j = i
        · subst hj
          rw [if_pos rfl]
          exact .inr (.endCommit hstage)
        · exact .inl (if_neg hj)
      next => cases hmove

/-! ### The invariant of a key -/

section Key

variable {B : BaseSpec} {k : Bytes} {version₀ : UInt64} {writes : ℕ} {now store : MemoryKVStore}
  {new : List (Change ι)}

/-- A store of some time at which no more writes of the key had been made than by
now, and if just as many, then the key held what it holds now. -/
def Earlier (k : Bytes) (version₀ : UInt64) (writes : ℕ) (now store : MemoryKVStore) : Prop :=
  ∃ m ≤ writes, store.getVersion k = version₀ + UInt64.ofNat m ∧
    (m = writes → (store.get k).value = (now.get k).value)

theorem Earlier.advance (h : Earlier k version₀ writes now store) {now' : MemoryKVStore}
    (ht : Touched k new now now') :
    Earlier k version₀ (writes + MemoryKVStore.writesTo k (allWrites new)) now' store := by
  obtain ⟨m, hm, hversion, hvalue⟩ := h
  refine ⟨m, by omega, hversion, fun heq => ?_⟩
  have hnone : MemoryKVStore.writesTo k (allWrites new) = 0 := by omega
  rw [ht.value hnone]
  exact hvalue (by omega)

/-- A version that is found again vouches for the value. -/
theorem Earlier.value_eq (h : Earlier k version₀ writes now store)
    (hnow : now.getVersion k = version₀ + UInt64.ofNat writes) (hfew : writes < 2 ^ 64)
    (hsame : now.getVersion k = store.getVersion k) :
    (store.get k).value = (now.get k).value := by
  obtain ⟨m, hm, hversion, hvalue⟩ := h
  rw [hnow, hversion] at hsame
  have hcount := congrArg UInt64.toNat ((UInt64.add_right_inj version₀).1 hsame)
  rw [UInt64.toNat_ofNat_of_lt' hfew,
    UInt64.toNat_ofNat_of_lt' (show m < 2 ^ 64 by omega)] at hcount
  exact hvalue hcount.symm

/-- What is known of a transaction that has met the key. -/
structure KeyClientInv (B : BaseSpec) (k : Bytes) (version₀ : UInt64)
    (writes : ℕ) (now : MemoryKVStore) (stage : Stage) : Prop where
  synced : AllSynced B stage.txn
  underway : ∀ txn rest, stage = .committing txn rest →
    ∃ tr, (selectWinnerAndCommit txn).Suspended (handle .memory) tr rest ∧
      ∀ e ∈ tr, Earlier k version₀ writes now e.before.store

theorem KeyClientInv.advance {stage : Stage} (h : KeyClientInv B k version₀ writes now stage)
    {now' : MemoryKVStore} (ht : Touched k new now now') :
    KeyClientInv B k version₀ (writes + MemoryKVStore.writesTo k (allWrites new)) now' stage := by
  refine ⟨h.synced, fun txn rest hstage => ?_⟩
  obtain ⟨tr, hs, hearlier⟩ := h.underway txn rest hstage
  exact ⟨tr, hs, fun e he => (hearlier e he).advance ht⟩

theorem keyClientInv_working {txn : AgentTxnContext} (h : AllSynced B txn) :
    KeyClientInv B k version₀ writes now (.working txn) :=
  ⟨h, fun _ _ hstage => by cases hstage⟩

theorem synced_perform {kind : StoreKind} {op : TxnOp} {txn : AgentTxnContext} {w : World}
    {i : ι} (h : AllSynced B txn) (hnamed : (Move.act (.operate i op)).Named)
    (hbase : ∀ j, B j (w.store.get j)) :
    AllSynced B ((op.perform txn).run (handle kind) w).1.1 := by
  cases op with
  | createBranch branchId => exact h.createBranch branchId
  | read branchId objectId =>
    simp only [TxnOp.perform, Program.run_bind, Program.pure_eq_ret, Program.run_ret]
    exact h.read branchId objectId w
  | write branchId objectId objectType intent =>
    simp only [TxnOp.perform, Program.run_bind, Program.pure_eq_ret, Program.run_ret]
    exact h.write branchId objectType hnamed (hbase objectId)
  | savepoint branchId savepointId => exact h.savepoint branchId savepointId
  | rollbackToSavepoint branchId savepointId => exact h.rollbackToSavepoint branchId savepointId
  | stageBranch branchId score summary => exact h.stageBranch branchId score summary
  | abort => exact h.abortTask

end Key

/-- The version of the key counts its writes, and every transaction is one the key vouches for. -/
structure KeyInv (B : BaseSpec) (k : Bytes) (s₀ s : System ι) : Prop where
  version : s.world.store.getVersion k =
    s₀.world.store.getVersion k + UInt64.ofNat (MemoryKVStore.writesTo k (allWrites s.history))
  clients : ∀ i,
    KeyClientInv B k (s₀.world.store.getVersion k) (MemoryKVStore.writesTo k (allWrites s.history))
    s.world.store (s.clients i).stage

variable {B : BaseSpec} {k : Bytes} {s₀ s s' : System ι}

theorem keyInv_initial (h₀ : s₀.Initial) : KeyInv B k s₀ s₀ := by
  constructor
  case version =>
    rw [h₀.history]
    exact (UInt64.add_zero _).symm
  case clients =>
    intro i
    obtain ⟨txnId, taskId, hi⟩ := h₀.fresh i
    rw [hi]
    exact keyClientInv_working fun branch hb => absurd hb List.not_mem_nil

/-- It is enough to look at the transactions whose stage has changed. -/
theorem KeyInv.of_touched (h : KeyInv B k s₀ s) {new : List (Change ι)}
    (hhistory : s'.history = s.history ++ new) (ht : Touched k new s.world.store s'.world.store)
    (hclients : ∀ i, (s'.clients i).stage = (s.clients i).stage ∨
      KeyClientInv B k (s₀.world.store.getVersion k)
      (MemoryKVStore.writesTo k (allWrites s'.history)) s'.world.store (s'.clients i).stage) :
    KeyInv B k s₀ s' := by
  have hcount : MemoryKVStore.writesTo k (allWrites s'.history) =
      MemoryKVStore.writesTo k (allWrites s.history) +
          MemoryKVStore.writesTo k (allWrites new) := by
    rw [hhistory, allWrites_append, MemoryKVStore.writesTo_append]
  constructor
  case version => rw [hcount, ht.version, h.version, UInt64.ofNat_add, UInt64.add_assoc]
  case clients =>
    intro i
    rcases hclients i with hsame | hnew
    · rw [hsame, hcount]
      exact (h.clients i).advance ht
    · exact hnew

/-- A key that foreign writers spare is written by commits only. -/
theorem KeyInv.writesTo_eq_zero {m : Move ι} (h : KeyInv B k s₀ s) (hspares : m.Spares k)
    (hnone : s.commits m = []) :
    MemoryKVStore.writesTo k (allWrites (s.changes m)) = 0 := by
  cases m with
  | putIfVersion key expectedVersion value =>
    simp only [System.changes]
    split
    · exact MemoryKVStore.writesTo_eq_zero_iff.2 (by simpa [allWrites] using Ne.symm hspares)
    · rfl
  | deleteIfVersion key expectedVersion => rfl
  | act a =>
    cases a with
    | put key value =>
      exact MemoryKVStore.writesTo_eq_zero_iff.2
        (by simpa [System.changes, allWrites] using Ne.symm hspares)
    | batchPutIfVersion checks writes => exact writesTo_batchChange hspares
    | operate i op | beginCommit i | endCommit i => rfl
    | commitCall i =>
      simp only [System.changes]
      split
      next txn op next hstage =>
        obtain ⟨tr, hs, -⟩ := (h.clients i).underway _ _ hstage
        rcases call_cases hs s.world with hharmless | ⟨checks, writes, txn', rfl, -, hret⟩
        · rw [batchChange_of_harmless hharmless]
          rfl
        · simp only [System.commits, hstage, hret] at hnone
          cases hnone
      next => rfl

variable [DecidableEq ι]

theorem history_move {m : Move ι} (hmove : s.move m = some s') :
    s'.history = s.history ++ s.changes m := by
  cases m with
  | putIfVersion key expectedVersion value =>
    cases hmove
    rfl
  | deleteIfVersion key expectedVersion =>
    cases hmove
    exact (List.append_nil _).symm
  | act a =>
    simp only [System.move] at hmove
    cases a with
    | operate i op | beginCommit i | endCommit i =>
      simp only [System.step] at hmove
      split at hmove
      next =>
        cases hmove
        exact (List.append_nil _).symm
      next => cases hmove
    | commitCall i =>
      simp only [System.step] at hmove
      split at hmove
      next txn op next hstage =>
        cases hmove
        simp only [System.changes, hstage]
      next => cases hmove
    | put key value =>
      cases hmove
      rfl
    | batchPutIfVersion checks writes =>
      cases hmove
      rfl

theorem writesTo_le_of_move {s s' : System ι} {m : Move ι} (hmove : s.move m = some s') :
    MemoryKVStore.writesTo k (allWrites s.history) ≤
      MemoryKVStore.writesTo k (allWrites s'.history) := by
  rw [history_move hmove, allWrites_append, MemoryKVStore.writesTo_append]
  omega

/-- What a move does to the key: what the changes it adds to the history do. -/
theorem KeyInv.touched {m : Move ι} (h : KeyInv B k s₀ s) (hkeeps : m.Keeps k)
    (hmove : s.move m = some s') :
    Touched k (s.changes m) s.world.store s'.world.store := by
  cases m with
  | putIfVersion key expectedVersion value =>
    cases hmove
    exact touched_putIfVersion k s.world key expectedVersion value
  | deleteIfVersion key expectedVersion =>
    cases hmove
    have hsame := get_deleteIfVersion_of_ne (w := s.world) hkeeps expectedVersion
    refine ⟨?_, fun _ => congrArg VersionedValue.value hsame⟩
    exact (congrArg VersionedValue.version hsame).trans (UInt64.add_zero _).symm
  | act a =>
    simp only [System.move] at hmove
    cases a with
    | operate i op =>
      simp only [System.step] at hmove
      split at hmove
      next txn hstage =>
        cases hmove
        simp only [run_perform_world]
        exact touched_refl k _
      next => cases hmove
    | beginCommit i | endCommit i =>
      simp only [System.step] at hmove
      split at hmove
      next =>
        cases hmove
        exact touched_refl k _
      next => cases hmove
    | commitCall i =>
      simp only [System.step] at hmove
      split at hmove
      next txn op next hstage =>
        cases hmove
        obtain ⟨tr, hs, -⟩ := (h.clients i).underway _ _ hstage
        simp only [System.changes, hstage]
        rw [store_call hs s.world (some i)]
        exact touched_applyWrites k _ _
      next => cases hmove
    | put key value =>
      cases hmove
      exact touched_applyWrites k s.world.store [{ author := none, writes := [{ key, value }] }]
    | batchPutIfVersion checks writes =>
      cases hmove
      rw [store_batchPutIfVersion (ι := ι)]
      exact touched_applyWrites k _ _

theorem KeyInv.move {m : Move ι} (h : KeyInv B k s₀ s) (hbase : ∀ j, B j (s.world.store.get j))
    (hnamed : m.Named) (hkeeps : m.Keeps k) (hmove : s.move m = some s') : KeyInv B k s₀ s' := by
  have hhistory := history_move hmove
  have ht := h.touched hkeeps hmove
  refine h.of_touched hhistory ht fun j => (stage_move hmove j).imp id fun hstep => ?_
  have hlater := (h.clients j).advance ht
  rw [← MemoryKVStore.writesTo_append, ← allWrites_append, ← hhistory] at hlater
  generalize (s'.clients j).stage = stage' at hstep
  cases hstep with
  | operate op hstage =>
    rw [hstage] at hlater
    exact keyClientInv_working (synced_perform hlater.synced hnamed hbase)
  | beginCommit hstage =>
    rw [hstage] at hlater
    refine ⟨hlater.synced, fun txn' rest heq => ?_⟩
    cases heq
    exact ⟨[], .start, fun e he => absurd he List.not_mem_nil⟩
  | @commitCall txn op next hstage =>
    rw [hstage] at hlater
    obtain ⟨tr, hs, hearlier⟩ := hlater.underway _ _ rfl
    refine ⟨hlater.synced, fun txn' rest heq => ?_⟩
    cases heq
    refine ⟨tr ++ [⟨op, s.world⟩], hs.call s.world, fun e he => ?_⟩
    rcases List.mem_append.1 he with hold | hself
    · exact hearlier e hold
    · -- the call of this move met the store as it was before
      have hnow : Earlier k (s₀.world.store.getVersion k)
        (MemoryKVStore.writesTo k (allWrites s.history))
          s.world.store s.world.store := ⟨_, le_rfl, h.version, fun _ => rfl⟩
      rw [List.mem_singleton.1 hself, hhistory, allWrites_append, MemoryKVStore.writesTo_append]
      exact hnow.advance ht
  | endCommit hstage =>
    rw [hstage] at hlater
    obtain ⟨tr, hs, -⟩ := hlater.underway _ _ rfl
    exact keyClientInv_working
      (hlater.synced.selectWinnerAndCommit.interfered (hs.interfered (.ret _)))

/-! ### Commits -/

/-- What a commit does to the key: nothing, if the winner does not write it; and if
its latest intent rebases, what that intent makes of the value the batch meets. -/
inductive CommitsAt (B : BaseSpec) (k : Bytes) (txn : AgentTxnContext)
    (store store' : MemoryKVStore) : Prop
  | untouched :
      (∀ intent, (liveInWinner txn k).getLast? = some intent → intent.intentType = .read) →
      store'.get k = store.get k → CommitsAt B k txn store store'
  | written {intent : WriteIntent} {entry : ObjectCacheEntry} {base : VersionedValue} :
      (liveInWinner txn k).getLast? = some intent → intent.intentType ≠ .read →
      B k base → Buffers base (liveInWinner txn k) entry →
      (usesSemanticRebase intent.intentType = true →
        (resolveWrite entry intent (store.get k).value).success = true ∧
          (store'.get k).value = (resolveWrite entry intent (store.get k).value).value) →
      CommitsAt B k txn store store'

theorem KeyInv.commit {m : Move ι} {c : ι × AgentTxnContext} (h : KeyInv B k s₀ s)
    (hfew : MemoryKVStore.writesTo k (allWrites s.history) < 2 ^ 64) (hc : c ∈ s.commits m)
    (hmove : s.move m = some s') :
    CommitsAt B k c.2 s.world.store s'.world.store := by
  obtain ⟨op, next, txn', rfl, hstage, hret, -⟩ := System.commits_cases hc
  obtain ⟨tr, hs, hearlier⟩ := (h.clients c.1).underway _ _ hstage
  have hsynced := (h.clients c.1).synced
  rw [hstage] at hsynced
  have hsuspended := hs.call s.world
  rw [hret] at hsuspended
  have hall := hsuspended.interfered (.ret _)
  rw [List.append_nil] at hall
  obtain ⟨winner, writes, before, hselects, hbatch⟩ := selectWinnerAndCommit_batchWritten hall
  obtain ⟨checks, looks, hlooks, htr, hanswer⟩ := hbatch.trace
  -- the call of this move is the batch
  obtain ⟨rfl, hlast⟩ := List.append_inj' htr rfl
  obtain ⟨rfl, rfl⟩ : op = .batchPutIfVersion checks writes ∧ s.world = before := by
    simpa using hlast
  have hstore : s'.world.store = s.world.store.applyWrites writes := by
    simp only [System.move, System.step, hstage] at hmove
    cases hmove
    simp only [handle, World.withStore, StoreKind.batchPutIfVersion, hanswer]
  have hlive := liveInWinner_of_selects hselects k
  have hwinner : Synced B winner := hsynced winner (BranchManager.mem_of_findBranch hselects.2)
  rw [hstore]
  by_cases hwritten : ∃ entry ∈ writtenEntries winner, entry.objectId = k
  · obtain ⟨entry, hentry, rfl⟩ := hwritten
    obtain ⟨hordered, intent, hintent, hread⟩ := mem_writtenEntries.1 hentry
    obtain ⟨base, hbase, hbuffers⟩ := hwinner.buffers (WriteBuffer.mem_orderedEntries.1 hordered)
    rw [lookup_latestIntents_live] at hintent
    rw [← hlive] at hintent hbuffers
    refine .written hintent hread hbase hbuffers fun hsemantic => ?_
    obtain ⟨write, ⟨-, intent', w, hintent', hget, hsuccess, hvalue, hversion⟩, hafter⟩ :=
      hbatch.get_of_mem hentry
    rw [lookup_latestIntents_live, ← hlive, hintent] at hintent'
    cases hintent'
    have hevent : (⟨.get entry.objectId, w⟩ : Event Call World) ∈ tr := by
      rcases List.mem_append.1 hget with hlook | hself
      · exact hlook
      · cases List.mem_singleton.1 hself
    have hsame := (hearlier _ hevent).value_eq h.version hfew (hversion hsemantic)
    rw [← hsame]
    exact ⟨hsuccess, hafter.trans hvalue⟩
  · have hnone : ∀ entry ∈ writtenEntries winner, entry.objectId ≠ k :=
      fun entry hentry hid => hwritten ⟨entry, hentry, hid⟩
    refine .untouched (fun intent hintent => ?_) (hbatch.get_of_notMem hnone)
    by_contra hread
    refine hwritten ((exists_writtenEntry_iff hwinner k).2 ⟨intent, ?_, hread⟩)
    rw [lookup_latestIntents_live, ← hlive, hintent]

theorem KeyInv.value_eq_of_no_commit {m : Move ι} (h : KeyInv B k s₀ s) (hspares : m.Spares k)
    (hmove : s.move m = some s') (hnone : s.commits m = []) :
    (s'.world.store.get k).value = (s.world.store.get k).value :=
  (h.touched hspares.keeps hmove).value (h.writesTo_eq_zero hspares hnone)

end DataAgentSystem.Concurrency
