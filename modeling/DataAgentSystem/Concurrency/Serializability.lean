import DataAgentSystem.AgentTxn.AllOrNothing
import DataAgentSystem.Concurrency.TransactionSystem

/-! Transactions that only overwrite are strictly serializable. A read stays true
until the version of its object grows, and a commit checks the version of every
read and of every base, so at the batch nothing the winner has seen has changed.
The invariant says this of every transaction, and of every call a commit has made. -/

namespace DataAgentSystem.Concurrency

open Text Intent Cache Branch Storage Interaction Containers AgentTxn CommitManager AgentTxnManager

variable {ι : Type}

theorem allWrites_append (history history' : List (Change ι)) :
    allWrites (history ++ history') = allWrites history ++ allWrites history' := List.flatMap_append

/-! ### Reads that are still true -/

namespace StoreRead

def observed (r : StoreRead) : VersionedValue where
  value := r.result.value
  version := r.result.version
  exists_ := r.result.exists_

/-- The object is as it was read, or has a later version. -/
def Fresh (r : StoreRead) (s : MemoryKVStore) : Prop :=
  r.observed.version < s.getVersion r.objectId ∨ s.get r.objectId = r.observed

theorem Fresh.advance {r : StoreRead} {s : MemoryKVStore} {writes : List WriteOp} (h : r.Fresh s)
    (hnowrap : s.NoWrap writes) : r.Fresh (s.applyWrites writes) := by
  rcases MemoryKVStore.get_applyWrites_of_noWrap hnowrap r.objectId with hlt | heq
  · refine .inl ?_
    rcases h with hlater | hsame
    · exact UInt64.lt_trans hlater hlt
    · rw [MemoryKVStore.getVersion, hsame] at hlt
      exact hlt
  · rcases h with hlater | hsame
    · refine .inl ?_
      rw [MemoryKVStore.getVersion, heq]
      exact hlater
    · exact .inr (heq.trans hsame)

/-- A version that has not moved vouches for the value. -/
theorem Fresh.get_eq {r : StoreRead} {s : MemoryKVStore} (h : r.Fresh s)
    (hversion : s.getVersion r.objectId = r.observed.version) : s.get r.objectId = r.observed := by
  rcases h with hlater | hsame
  · rw [hversion] at hlater
    exact absurd hlater (UInt64.lt_irrefl _)
  · exact hsame

/-- The read is in the read set of its branch. -/
def RecordedIn (r : StoreRead) (txn : AgentTxnContext) : Prop :=
  ∃ b, txn.findBranch r.branchId = some b ∧
    { objectId := r.objectId, observedVersion := r.observed.version } ∈ b.readSet.entries

end StoreRead

/-! ### What steps keep of a transaction -/

/-- Every buffered intent is an overwrite. -/
def Overwriting (txn : AgentTxnContext) : Prop :=
  ∀ b ∈ txn.branches, ∀ intent ∈ b.intentLog.entries, intent.intentType = .overwrite

/-- A branch after a step: it has read what it had read, and its new intents overwrite. -/
structure Continues (b b' : BranchContext) : Prop where
  branchId : b'.branchId = b.branchId
  reads : b.readSet.entries ⊆ b'.readSet.entries
  intents : ∀ intent ∈ b'.intentLog.entries, intent ∈ b.intentLog.entries ∨
    intent.intentType = .overwrite

structure Extends (txn txn' : AgentTxnContext) : Prop where
  recorded : ∀ r : StoreRead, r.RecordedIn txn → r.RecordedIn txn'
  overwriting : Overwriting txn → Overwriting txn'

theorem Extends.refl (txn : AgentTxnContext) : Extends txn txn := ⟨fun _ h => h, fun h => h⟩

theorem Extends.trans {txn txn' txn'' : AgentTxnContext} (h : Extends txn txn')
    (h' : Extends txn' txn'') :
    Extends txn txn'' :=
  ⟨fun r hr => h'.recorded r (h.recorded r hr), fun ho => h'.overwriting (h.overwriting ho)⟩

theorem continues_of_status (b : BranchContext) (status : BranchStatus) :
    Continues b { b with status } :=
  ⟨rfl, fun _ h => h, fun _ h => .inl h⟩

theorem continues_discardBranch (b : BranchContext) :
    Continues b (RollbackManager.discardBranch b) :=
  ⟨rfl, fun _ h => h, fun _ h => .inl (List.mem_of_mem_take h)⟩

theorem extends_map {txn txn' : AgentTxnContext} {f : BranchContext → BranchContext}
    (hf : ∀ b, Continues b (f b)) (heq : txn'.branches = txn.branches.map f) :
    Extends txn txn' := by
  constructor
  case recorded =>
    rintro r ⟨b, hb, hr⟩
    refine ⟨f b, ?_, (hf b).reads hr⟩
    unfold AgentTxnContext.findBranch at hb ⊢
    rw [heq, BranchManager.findBranch_map fun b => (hf b).branchId, hb, Option.map_some]
  case overwriting =>
    intro ho b' hb' intent hintent
    rw [heq] at hb'
    obtain ⟨b, hb, rfl⟩ := List.mem_map.1 hb'
    rcases (hf b).intents intent hintent with hold | hnew
    · exact ho b hb intent hold
    · exact hnew

theorem findBranch_setBranch {txn : AgentTxnContext} {id : Bytes} {b b' : BranchContext}
    (hb : txn.findBranch id = some b) (hid : b'.branchId = b.branchId) (k : Bytes) :
    (txn.setBranch b').findBranch k = if k = id then some b' else txn.findBranch k := by
  have hbid : b.branchId = id := BranchManager.branchId_of_findBranch hb
  unfold AgentTxnContext.findBranch AgentTxnContext.setBranch at *
  rw [BranchManager.findBranch_replaceBranch, hid, hbid]
  split
  next hk => rw [hk, hb, Option.map_some]
  next => rfl

theorem extends_setBranch {txn : AgentTxnContext} {id : Bytes} {b b' : BranchContext}
    (hb : txn.findBranch id = some b) (h : Continues b b') : Extends txn (txn.setBranch b') := by
  constructor
  case recorded =>
    rintro r ⟨c, hc, hr⟩
    rw [StoreRead.RecordedIn]
    rw [findBranch_setBranch hb h.branchId]
    by_cases hk : r.branchId = id
    · rw [hk, hb] at hc
      cases hc
      exact ⟨b', if_pos hk, h.reads hr⟩
    · exact ⟨c, by rw [if_neg hk, hc], hr⟩
  case overwriting =>
    intro ho c hc intent hintent
    rcases BranchManager.mem_of_mem_replaceBranch hc with rfl | hc
    · rcases h.intents intent hintent with hold | hnew
      · exact ho b (BranchManager.mem_of_findBranch hb) intent hold
      · exact hnew
    · exact ho c hc intent hintent

/-! ### Branch operations -/

theorem extends_createBranch (txn : AgentTxnContext) (branchId : Bytes) :
    Extends txn (AgentTxnManager.createBranch txn branchId) := by
  constructor
  case recorded =>
    rintro r ⟨b, hb, hr⟩
    refine ⟨b, ?_, hr⟩
    unfold AgentTxnContext.findBranch BranchManager.findBranch at hb ⊢
    rw [AgentTxnManager.createBranch, BranchManager.createBranch,
      List.find?_append, hb, Option.some_or]
  case overwriting =>
    intro ho b hb intent hintent
    rcases List.mem_append.1 hb with hold | hnew
    · exact ho b hold intent hintent
    · rw [List.mem_singleton.1 hnew] at hintent
      simp at hintent

theorem continues_rollbackToSavepoint (b : BranchContext) (savepointId : Bytes) :
    Continues b (RollbackManager.rollbackToSavepoint b savepointId).2 := by
  unfold RollbackManager.rollbackToSavepoint
  split
  next => exact ⟨rfl, fun _ h => h, fun _ h => .inl h⟩
  next => exact ⟨rfl, fun _ h => h, fun _ h => .inl (List.mem_of_mem_take h)⟩

theorem continues_recordWrite (b : BranchContext) (entry : ObjectCacheEntry)
    (objectType : ObjectType) {intent : WriteIntent} (h : intent.intentType = .overwrite) :
    Continues b (BranchManager.recordWrite b entry objectType intent) := by
  refine ⟨rfl, fun _ hr => hr, fun i hi => ?_⟩
  rcases List.mem_append.1 hi with hold | hnew
  · exact .inl hold
  · exact .inr (by rw [List.mem_singleton.1 hnew, h])

/-- A read keeps what the transaction had, and a read of the store is recorded and true. -/
theorem run_read_cases (txn : AgentTxnContext) (branchId objectId : Bytes) (w : World) :
    Extends txn ((txn.read branchId objectId).run (handle .memory) w).1.2 ∧
      ∀ r ∈ storeReads txn branchId objectId
        ((txn.read branchId objectId).run (handle .memory) w).1.1,
        r.RecordedIn ((txn.read branchId objectId).run (handle .memory) w).1.2 ∧
          r.Fresh w.store := by
  unfold AgentTxnContext.read storeReads
  cases hb : txn.findBranch branchId with
  | none => exact ⟨Extends.refl txn, fun r hr => absurd hr List.not_mem_nil⟩
  | some b =>
    cases hf : b.writeBuffer.find objectId with
    | some buffered =>
      simp only [BranchManager.readObject, hf, Option.isSome_some, ↓reduceIte]
      exact ⟨extends_setBranch hb (continues_of_status b .running), fun r hr =>
        absurd hr List.not_mem_nil⟩
    | none =>
      simp only [BranchManager.readObject, hf, Option.isSome_none, Bool.false_eq_true, ↓reduceIte,
        Store.get_bind, Program.run_bind, Program.run_call,
        Program.pure_eq_ret, Program.run_ret, handle]
      have hcont : Continues b { b with
          status := .running
          readSet := b.readSet.record objectId (w.store.get objectId).version } :=
        ⟨rfl, List.subset_append_left _ _, fun _ h => .inl h⟩
      refine ⟨extends_setBranch hb hcont, fun r hr => ?_⟩
      rw [List.mem_singleton.1 hr]
      refine ⟨⟨_, by rw [findBranch_setBranch hb hcont.branchId, if_pos rfl], ?_⟩, .inr rfl⟩
      exact List.mem_append_right _ List.mem_cons_self

theorem extends_run_write (txn : AgentTxnContext) (branchId objectId : Bytes)
    (objectType : ObjectType) {intent : WriteIntent} (h : intent.intentType = .overwrite)
    (w : World) :
    Extends txn ((txn.write branchId objectId objectType intent).run (handle .memory) w).1 := by
  unfold AgentTxnContext.write
  cases hb : txn.findBranch branchId with
  | none => exact Extends.refl txn
  | some b =>
    have hcont : Continues b
        ((BranchManager.bufferWrite b objectId objectType intent).run (handle .memory) w).1 := by
      unfold BranchManager.bufferWrite
      cases b.writeBuffer.find objectId with
      | some existing => exact continues_recordWrite b _ _ h
      | none => exact continues_recordWrite b _ _ h
    simp only [Program.run_bind, Program.pure_eq_ret, Program.run_ret]
    exact extends_setBranch hb hcont

/-- What a branch operation does: nothing to the world, and only these things to
the transaction. -/
theorem run_perform_cases {op : TxnOp} (txn : AgentTxnContext) (w : World) {i : ι}
    (hop : (Action.operate i op).overwrites = true) :
    ((op.perform txn).run (handle .memory) w).2 = w ∧
      Extends txn ((op.perform txn).run (handle .memory) w).1.1 ∧
      ∀ r ∈ ((op.perform txn).run (handle .memory) w).1.2,
        r.RecordedIn ((op.perform txn).run (handle .memory) w).1.1 ∧ r.Fresh w.store := by
  cases op with
  | createBranch branchId =>
    exact ⟨rfl, extends_createBranch txn branchId, fun r hr => absurd hr List.not_mem_nil⟩
  | read branchId objectId =>
    simp only [TxnOp.perform, Program.run_bind, Program.pure_eq_ret, Program.run_ret]
    exact ⟨AgentTxnContext.run_read _ _ _ _ _, run_read_cases txn branchId objectId w⟩
  | write branchId objectId objectType intent =>
    simp only [TxnOp.perform, Program.run_bind, Program.pure_eq_ret, Program.run_ret]
    exact ⟨AgentTxnContext.run_write _ _ _ _ _ _ _,
      extends_run_write txn branchId objectId objectType (of_decide_eq_true hop) w, fun r hr =>
      absurd hr List.not_mem_nil⟩
  | savepoint branchId savepointId =>
    refine ⟨rfl, ?_, fun r hr => absurd hr List.not_mem_nil⟩
    simp only [TxnOp.perform, Program.pure_eq_ret, Program.run_ret, AgentTxnContext.savepoint]
    cases hb : txn.findBranch branchId with
    | none => exact Extends.refl txn
    | some b => exact extends_setBranch hb ⟨rfl, fun _ h => h, fun _ h => .inl h⟩
  | rollbackToSavepoint branchId savepointId =>
    refine ⟨rfl, ?_, fun r hr => absurd hr List.not_mem_nil⟩
    simp only [TxnOp.perform, Program.pure_eq_ret, Program.run_ret,
      AgentTxnContext.rollbackToSavepoint]
    cases hb : txn.findBranch branchId with
    | none => exact Extends.refl txn
    | some b => exact extends_setBranch hb (continues_rollbackToSavepoint b savepointId)
  | stageBranch branchId score summary =>
    refine ⟨rfl, ?_, fun r hr => absurd hr List.not_mem_nil⟩
    simp only [TxnOp.perform, Program.pure_eq_ret, Program.run_ret, AgentTxnContext.stageBranch]
    cases hb : txn.findBranch branchId with
    | none => exact Extends.refl txn
    | some b => exact extends_setBranch hb ⟨rfl, fun _ h => h, fun _ h => .inl h⟩
  | abort =>
    exact ⟨rfl, extends_map continues_discardBranch rfl, fun r hr => absurd hr List.not_mem_nil⟩

/-! ### Commits -/

theorem extends_mark (txn : AgentTxnContext) (id : Bytes) : Extends txn (mark txn id) :=
  extends_map (fun b => continues_of_status b _) rfl

theorem findBranch_mark {txn : AgentTxnContext} {winner : BranchContext}
    (hw : txn.findBranch winner.branchId = some winner) :
    (mark txn winner.branchId).findBranch winner.branchId =
      some { winner with status := .winner } := by
  unfold AgentTxnContext.findBranch at hw ⊢
  rw [mark, BranchManager.findBranch_markWinnerAndLosers, hw, Option.map_some, if_pos rfl]

theorem extends_selectWinnerAndCommit {txn txn' : AgentTxnContext} {tr : List (Event Call World)}
    {r : Except Bytes Bool}
    (h : (selectWinnerAndCommit txn).Interfered (handle .memory) tr (r, txn')) :
    Extends txn txn' := by
  by_cases hne : txn.branches = []
  · rw [selectWinnerAndCommit, hne] at h
    obtain ⟨-, heq⟩ := Program.interfered_ret.1 h
    cases heq
    exact Extends.refl txn
  · obtain ⟨winner, -, hwinner,
        ⟨-, -, v, rfl⟩ | ⟨-, v, looks, batch, seenChecks, writes, before, -, -, -, rfl⟩⟩ :=
      selectWinnerAndCommit_cases hne h
    · exact (extends_mark txn winner.branchId).trans (extends_map continues_discardBranch rfl)
    · have hset := extends_setBranch (findBranch_mark hwinner)
        (continues_of_status { winner with status := .winner } .committed)
      refine (extends_mark txn winner.branchId).trans (hset.trans ?_)
      have hcont : ∀ b : BranchContext, Continues b
          (if b.branchId ≠ winner.branchId then RollbackManager.discardBranch b else b) := by
        intro b
        split
        · exact continues_discardBranch b
        · exact ⟨rfl, fun _ h => h, fun _ h => .inl h⟩
      exact extends_map hcont rfl

/-- A call of a commit is harmless, or it is the batch after which the commit returns true. -/
theorem call_cases {txn : AgentTxnContext} {tr : List (Event Call World)} {op : Call}
    {next : op.Resp → Prog (Except Bytes Bool × AgentTxnContext)}
    (hs : (selectWinnerAndCommit txn).Suspended (handle .memory) tr (.call op next)) (w : World) :
    Harmless ⟨op, w⟩ ∨ ∃ checks writes txn', op = .batchPutIfVersion checks writes ∧
      w.store.batchPutIfVersion checks writes = (true, w.store.applyWrites writes) ∧
      next (handle .memory op w).1 = .ret (.ok true, txn') := by
  have hrest := Program.interfered_run (h := handle .memory) (next (handle .memory op w).1)
    (handle .memory op w).2
  have hall := (hs.call w).interfered hrest
  generalize (next (handle .memory op w).1).trace (handle .memory) (handle .memory op w).2 =
    later at hrest hall
  generalize ((next (handle .memory op w).1).run (handle .memory) (handle .memory op w).2).1 =
    out at hrest hall
  have hmem : (⟨op, w⟩ : Event Call World) ∈ tr ++ [⟨op, w⟩] ++ later := by simp
  obtain ⟨r, txn'⟩ := out
  by_cases hne : txn.branches = []
  · rw [selectWinnerAndCommit, hne] at hall
    obtain ⟨hnil, -⟩ := Program.interfered_ret.1 hall
    simp at hnil
  obtain ⟨winner, -, -, ⟨-, hharmless, -⟩ | ⟨rfl, v, looks, batch, seenChecks, writes, before,
      htr, hlooks, hbatch, -⟩⟩ :=
    selectWinnerAndCommit_cases hne hall
  · exact .inl (hharmless _ hmem)
  · obtain ⟨looks', hlooks', rfl⟩ := hbatch.trace
    -- the batch is the last call, so this call is the batch or comes before it
    rcases List.eq_nil_or_concat later with rfl | ⟨later', last, rfl⟩
    · rw [List.append_nil, ← List.append_assoc] at htr
      obtain ⟨-, hlast⟩ := List.append_inj' htr rfl
      obtain ⟨rfl, rfl⟩ : op = .batchPutIfVersion (checksOf seenChecks) writes ∧ w = before := by
        simpa using hlast
      exact .inr ⟨_, writes, txn', rfl, hbatch.answered, Program.interfered_nil.1 hrest⟩
    · rw [← List.append_assoc, List.concat_eq_append, ← List.append_assoc] at htr
      obtain ⟨hinit, -⟩ := List.append_inj' htr rfl
      have hin : (⟨op, w⟩ : Event Call World) ∈ looks ++ looks' := by rw [← hinit]; simp
      rcases List.mem_append.1 hin with hin | hin
      · exact .inl (.inl (hlooks _ hin))
      · exact .inl (.inl (hlooks' _ hin))

theorem batchChange_of_harmless {op : Call} {w : World} (h : Harmless ⟨op, w⟩) (author : Option ι) :
    batchChange author w op = [] := by
  rcases h with hreads | ⟨checks, writes, hop, hfalse⟩
  · cases op <;> first | rfl | simp [Call.reads] at hreads
  · simp only at hop hfalse
    subst hop
    simp [batchChange, hfalse]

/-- What a call changes is in the history. -/
theorem store_call {txn : AgentTxnContext} {tr : List (Event Call World)} {op : Call}
    {next : op.Resp → Prog (Except Bytes Bool × AgentTxnContext)}
    (hs : (selectWinnerAndCommit txn).Suspended (handle .memory) tr (.call op next))
    (w : World) (author : Option ι) :
    (handle .memory op w).2.store = w.store.applyWrites (allWrites (batchChange author w op)) := by
  rcases call_cases hs w with hharmless | ⟨checks, writes, txn', rfl, hbatch, -⟩
  · have hkeeps := hharmless.keepsStore
    rw [KeepsStore, Event.after] at hkeeps
    rw [hkeeps, batchChange_of_harmless hharmless]
    rfl
  · simp [handle, World.withStore, StoreKind.batchPutIfVersion, batchChange, hbatch, allWrites]

/-! ### The invariant -/

def Stage.txn : Stage → AgentTxnContext
  | .working txn => txn
  | .committing txn _ => txn

/-- When a commit made this call, all reads were still true; and if the call was a
batch that was carried out, the history shows it where it happened. -/
structure Met (init : MemoryKVStore) (history : List (Change ι)) (i : ι) (reads : List StoreRead)
    (e : Event Call World) : Prop where
  fresh : ∀ r ∈ reads, r.Fresh e.before.store
  recorded : ∀ checks writes, e.op = .batchPutIfVersion checks writes →
    (e.before.store.batchPutIfVersion checks writes).1 = true →
      ∃ earlier later, history = earlier ++ { author := some i, writes } :: later ∧
        e.before.store = init.applyWrites (allWrites earlier)

structure ClientInv (init store : MemoryKVStore) (history : List (Change ι)) (i : ι)
    (c : Client) : Prop where
  recorded : ∀ r ∈ c.reads, r.RecordedIn c.stage.txn
  fresh : ∀ r ∈ c.reads, r.Fresh store
  overwriting : Overwriting c.stage.txn
  underway : ∀ txn rest, c.stage = .committing txn rest →
    ∃ tr, (selectWinnerAndCommit txn).Suspended (handle .memory) tr rest ∧ ∀ e ∈ tr,
      Met init history i c.reads e

theorem Met.later {init : MemoryKVStore} {history : List (Change ι)}
    {i : ι} {reads : List StoreRead} {e : Event Call World} (h : Met init history i reads e)
    (new : List (Change ι)) :
    Met init (history ++ new) i reads e := by
  refine ⟨h.fresh, fun checks writes hop htrue => ?_⟩
  obtain ⟨earlier, later, rfl, hbefore⟩ := h.recorded checks writes hop htrue
  exact ⟨earlier, later ++ new, by simp, hbefore⟩

/-- Other writers do not disturb the invariant of a transaction. -/
theorem ClientInv.advance {init store : MemoryKVStore} {history : List (Change ι)} {i : ι}
    {c : Client} (h : ClientInv init store history i c) {new : List (Change ι)}
    (hnowrap : store.NoWrap (allWrites new)) :
    ClientInv init (store.applyWrites (allWrites new)) (history ++ new) i c where
  recorded := h.recorded
  fresh r hr := (h.fresh r hr).advance hnowrap
  overwriting := h.overwriting
  underway txn rest hstage := by
    obtain ⟨tr, hs, hmet⟩ := h.underway txn rest hstage
    exact ⟨tr, hs, fun e he => (hmet e he).later new⟩

theorem ClientInv.operate {init : MemoryKVStore} {w : World} {history : List (Change ι)} {i : ι}
    {c : Client} {txn : AgentTxnContext} {op : TxnOp} (h : ClientInv init w.store history i c)
    (hstage : c.stage = .working txn) (hop : (Action.operate i op).overwrites = true) :
    ClientInv init w.store history i
      ⟨.working ((op.perform txn).run (handle .memory) w).1.1,
        c.reads ++ ((op.perform txn).run (handle .memory) w).1.2⟩ := by
  obtain ⟨-, hext, hnew⟩ := run_perform_cases txn w hop
  have htxn : c.stage.txn = txn := by rw [hstage]; rfl
  constructor
  case recorded =>
    intro r hr
    rcases List.mem_append.1 hr with hold | hr
    · exact hext.recorded r (htxn ▸ h.recorded r hold)
    · exact (hnew r hr).1
  case fresh =>
    intro r hr
    rcases List.mem_append.1 hr with hold | hr
    · exact h.fresh r hold
    · exact (hnew r hr).2
  case overwriting => exact hext.overwriting (htxn ▸ h.overwriting)
  case underway =>
    intro txn' rest heq
    cases heq

theorem ClientInv.beginCommit {init store : MemoryKVStore} {history : List (Change ι)} {i : ι}
    {c : Client} {txn : AgentTxnContext} (h : ClientInv init store history i c)
    (hstage : c.stage = .working txn) :
    ClientInv init store history i
      { c with stage := .committing txn (selectWinnerAndCommit txn) } := by
  have htxn : c.stage.txn = txn := by rw [hstage]; rfl
  refine ⟨fun r hr => htxn ▸ h.recorded r hr, h.fresh,
    htxn ▸ h.overwriting, fun txn' rest heq => ?_⟩
  cases heq
  exact ⟨[], .start, fun e he => absurd he List.not_mem_nil⟩

theorem ClientInv.endCommit {init store : MemoryKVStore} {history : List (Change ι)} {i : ι}
    {c : Client} {txn txn' : AgentTxnContext} {r : Except Bytes Bool}
    (h : ClientInv init store history i c) (hstage : c.stage = .committing txn (.ret (r, txn'))) :
    ClientInv init store history i { c with stage := .working txn' } := by
  have htxn : c.stage.txn = txn := by rw [hstage]; rfl
  obtain ⟨tr, hs, -⟩ := h.underway _ _ hstage
  have hext := extends_selectWinnerAndCommit (hs.interfered (.ret _))
  refine ⟨fun r hr => hext.recorded r (htxn ▸ h.recorded r hr), h.fresh,
    hext.overwriting (htxn ▸ h.overwriting), fun txn'' rest heq => ?_⟩
  cases heq

theorem ClientInv.commitCall {init : MemoryKVStore} {w : World} {history : List (Change ι)} {i : ι}
    {c : Client} {txn : AgentTxnContext} {op : Call}
    {next : op.Resp → Prog (Except Bytes Bool × AgentTxnContext)}
    (h : ClientInv init w.store history i c) (hstage : c.stage = .committing txn (.call op next))
    (hstore : w.store = init.applyWrites (allWrites history))
    (hnowrap : w.store.NoWrap (allWrites (batchChange (some i) w op))) :
    ClientInv init (handle .memory op w).2.store (history ++ batchChange (some i) w op) i
      { c with stage := .committing txn (next (handle .memory op w).1) } := by
  obtain ⟨tr, hs, hmet⟩ := h.underway _ _ hstage
  have hadv := h.advance hnowrap
  have htxn : c.stage.txn = txn := by rw [hstage]; rfl
  rw [store_call hs w (some i)]
  refine ⟨fun r hr => htxn ▸ h.recorded r hr, hadv.fresh,
    htxn ▸ h.overwriting, fun txn' rest heq => ?_⟩
  cases heq
  refine ⟨tr ++ [⟨op, w⟩], hs.call w, fun e he => ?_⟩
  rcases List.mem_append.1 he with hold | hnew
  · exact (hmet e hold).later _
  · rw [List.mem_singleton.1 hnew]
    refine ⟨h.fresh, fun checks writes hop htrue => ⟨history, [], ?_, hstore⟩⟩
    simp only at hop htrue
    subst hop
    simp [batchChange, htrue]

structure Inv (s₀ s : System ι) : Prop where
  store : s.world.store = s₀.world.store.applyWrites (allWrites s.history)
  clients : ∀ i, ClientInv s₀.world.store s.world.store s.history i (s.clients i)

theorem inv_initial {s₀ : System ι} (h₀ : s₀.Initial) : Inv s₀ s₀ := by
  constructor
  case store =>
    rw [h₀.history]
    rfl
  case clients =>
    intro i
    obtain ⟨txnId, taskId, hi⟩ := h₀.fresh i
    rw [hi]
    refine ⟨fun r hr => absurd hr List.not_mem_nil, fun r hr => absurd hr List.not_mem_nil,
      fun b hb => absurd hb List.not_mem_nil, fun txn rest heq => ?_⟩
    cases heq

section Steps

variable {s₀ s s' : System ι}

/-- A foreign write or batch. -/
theorem Inv.foreign (hinv : Inv s₀ s) {world : World} {new : List (Change ι)}
    (hworld : world.store = s.world.store.applyWrites (allWrites new))
    (hnowrap : s.world.store.NoWrap (allWrites new)) :
    Inv s₀ { s with world, history := s.history ++ new } := by
  constructor
  case store => rw [hworld, hinv.store, allWrites_append, MemoryKVStore.applyWrites_append]
  case clients =>
    intro j
    have h := (hinv.clients j).advance hnowrap
    rw [← hworld] at h
    exact h

theorem noWrap_new (hinv : Inv s₀ s) {new : List (Change ι)}
    (hnowrap : s₀.world.store.NoWrap (allWrites (s.history ++ new))) :
    s.world.store.NoWrap (allWrites new) := by
  rw [allWrites_append, MemoryKVStore.noWrap_append] at hnowrap
  rw [hinv.store]
  exact hnowrap.2

theorem store_batchPutIfVersion (w : World) (checks : List VersionCheck) (writes : List WriteOp) :
    (handle .memory (.batchPutIfVersion checks writes) w).2.store =
      w.store.applyWrites
        (allWrites (batchChange (none : Option ι) w (.batchPutIfVersion checks writes))) := by
  simp only [handle, World.withStore, StoreKind.batchPutIfVersion, batchChange]
  cases hanswer : (w.store.batchPutIfVersion checks writes).1 with
  | true =>
    rw [(MemoryKVStore.batchPutIfVersion_true hanswer).2]
    simp [allWrites]
  | false =>
    rw [MemoryKVStore.batchPutIfVersion_false hanswer]
    simp [allWrites]

variable [DecidableEq ι]

/-- A step of one transaction that leaves store and history alone. -/
theorem Inv.setClient (hinv : Inv s₀ s) {i : ι} {c : Client} {world : World}
    (hworld : world = s.world) (hc : ClientInv s₀.world.store s.world.store s.history i c) :
    Inv s₀ { s.setClient i c with world } := by
  subst hworld
  refine ⟨hinv.store, fun j => ?_⟩
  by_cases hj : j = i
  · subst hj
    simp only [System.setClient, Function.update_self]
    exact hc
  · simp only [System.setClient, Function.update_of_ne hj]
    exact hinv.clients j

theorem Inv.step {a : Action ι} (hinv : Inv s₀ s) (hop : a.overwrites = true)
    (hstep : s.step a = some s') (hnowrap : s₀.world.store.NoWrap (allWrites s'.history)) :
    Inv s₀ s' := by
  cases a with
  | operate i op =>
    simp only [System.step] at hstep
    split at hstep
    next txn hstage =>
      cases hstep
      exact hinv.setClient (run_perform_cases txn s.world hop).1
        ((hinv.clients i).operate hstage hop)
    next => simp at hstep
  | beginCommit i =>
    simp only [System.step] at hstep
    split at hstep
    next txn hstage =>
      cases hstep
      exact hinv.setClient rfl ((hinv.clients i).beginCommit hstage)
    next => simp at hstep
  | commitCall i =>
    simp only [System.step] at hstep
    split at hstep
    next txn op next hstage =>
      cases hstep
      have hnew := noWrap_new hinv hnowrap
      have hcall := (hinv.clients i).commitCall hstage hinv.store hnew
      obtain ⟨tr, hs, -⟩ := (hinv.clients i).underway _ _ hstage
      obtain ⟨hstore, hclients⟩ := hinv.foreign (store_call hs s.world (some i)) hnew
      refine ⟨hstore, fun j => ?_⟩
      by_cases hj : j = i
      · subst hj
        simp only [System.setClient, Function.update_self]
        exact hcall
      · simp only [System.setClient, Function.update_of_ne hj]
        exact hclients j
    next => simp at hstep
  | endCommit i =>
    simp only [System.step] at hstep
    split at hstep
    next txn r txn' hstage =>
      cases hstep
      exact hinv.setClient rfl ((hinv.clients i).endCommit hstage)
    next => simp at hstep
  | put key value =>
    simp only [System.step] at hstep
    cases hstep
    exact hinv.foreign rfl (noWrap_new hinv hnowrap)
  | batchPutIfVersion checks writes =>
    simp only [System.step] at hstep
    cases hstep
    exact hinv.foreign (store_batchPutIfVersion s.world checks writes) (noWrap_new hinv hnowrap)

/-- Histories only grow. -/
theorem history_step {a : Action ι} (hstep : s.step a = some s') :
    ∃ new, s'.history = s.history ++ new := by
  cases a with
  | operate i op | beginCommit i | endCommit i =>
    simp only [System.step] at hstep
    split at hstep
    next =>
      cases hstep
      exact ⟨[], (List.append_nil _).symm⟩
    next => simp at hstep
  | commitCall i =>
    simp only [System.step] at hstep
    split at hstep
    next =>
      cases hstep
      exact ⟨_, rfl⟩
    next => simp at hstep
  | put key value =>
    cases hstep
    exact ⟨_, rfl⟩
  | batchPutIfVersion checks writes =>
    cases hstep
    exact ⟨_, rfl⟩

theorem inv_reachable (h₀ : s₀.Initial) (hreach : System.Reachable s₀ s)
    (hnowrap : s₀.world.store.NoWrap (allWrites s.history)) : Inv s₀ s := by
  induction hreach with
  | start => exact inv_initial h₀
  | step a _ hop hstep ih =>
    obtain ⟨new, hnew⟩ := history_step hstep
    have hbefore := hnowrap
    rw [hnew, allWrites_append, MemoryKVStore.noWrap_append] at hbefore
    exact (ih hbefore.1).step hop hstep hnowrap

end Steps

/-! ### Serializability -/

/-- The transaction with winner `winner` is one that ran all at once in the store
`before`: it reads what is there, and it overwrites the versions that are there. -/
structure RanAt (before : MemoryKVStore) (txn : AgentTxnContext) (reads : List StoreRead)
    (winner : BranchContext) (writes : List WriteOp) : Prop where
  selected : BranchManager.selectWinner txn.branches = .ok winner.branchId
  found : txn.findBranch winner.branchId = some winner
  reads_current : ∀ r ∈ reads, r.branchId = winner.branchId → before.get r.objectId = r.observed
  bases_current : ∀ entry ∈ winner.writeBuffer.orderedEntries,
    before.getVersion entry.objectId = entry.baseVersion
  writes_eq : writes = winner.writeBuffer.orderedEntries.map fun entry =>
    { key := entry.objectId, value := entry.currentValue }

theorem latestIntents_overwrite {txn : AgentTxnContext} {b : BranchContext} (ho : Overwriting txn)
    (hb : b ∈ txn.branches) {k : Bytes} {intent : WriteIntent}
    (h : (latestIntents b.intentLog).lookup k = some intent) : intent.intentType = .overwrite := by
  rw [lookup_latestIntents] at h
  exact ho b hb intent (List.mem_reverse.1 (List.mem_of_find?_eq_some h))

theorem writtenEntries_eq {txn : AgentTxnContext} {winner : BranchContext}
    {tr : List (Event Call World)} {seenChecks : UnorderedMap UInt64} {writes : List WriteOp}
    {before : World} (ho : Overwriting txn) (hw : winner ∈ txn.branches)
    (hbatch : BatchCommit winner tr seenChecks writes before) :
    writtenEntries winner = winner.writeBuffer.orderedEntries := by
  apply List.filter_eq_self.2
  intro entry hentry
  obtain ⟨intent, hintent⟩ := Option.isSome_iff_exists.1 (hbatch.found entry hentry)
  simp [written, hintent, latestIntents_overwrite ho hw hintent]

theorem writes_of_resolved {latest : UnorderedMap WriteIntent} {tr : List (Event Call World)}
    {entries : List ObjectCacheEntry} {writes : List WriteOp}
    (ho : ∀ k intent, latest.lookup k = some intent → intent.intentType = .overwrite)
    (h : List.Forall₂ (Resolved latest tr) entries writes) :
    writes = entries.map fun entry => { key := entry.objectId, value := entry.currentValue } := by
  induction h with
  | nil => rfl
  | @cons entry write entries writes hhead _ ih =>
    obtain ⟨hkey, intent, w, hintent, -, -, hvalue⟩ := hhead
    rw [resolveWrite_overwrite _ (ho _ _ hintent)] at hvalue
    rw [List.map_cons, ← ih]
    obtain ⟨key, value⟩ := write
    simp only at hkey hvalue
    rw [hkey, hvalue]

theorem ranAt_batch {txn : AgentTxnContext} {winner : BranchContext} {reads : List StoreRead}
    {tr : List (Event Call World)} {seenChecks : UnorderedMap UInt64}
    {writes : List WriteOp} {before : World} (ho : Overwriting txn)
    (hselect : BranchManager.selectWinner txn.branches = .ok winner.branchId)
    (hfound : txn.findBranch winner.branchId = some winner)
    (hrecorded : ∀ r ∈ reads, r.RecordedIn txn) (hfresh : ∀ r ∈ reads, r.Fresh before.store)
    (hbatch : BatchCommit winner tr seenChecks writes before) :
    RanAt before.store txn reads winner writes := by
  have hmem : winner ∈ txn.branches := BranchManager.mem_of_findBranch hfound
  have hall := writtenEntries_eq ho hmem hbatch
  have hstrict : ∀ k intent, (latestIntents winner.intentLog).lookup k = some intent →
      usesSemanticRebase intent.intentType = false := by
    intro k intent hk
    rw [latestIntents_overwrite ho hmem hk]
    rfl
  constructor
  case selected => exact hselect
  case found => exact hfound
  case reads_current =>
    intro r hr hid
    obtain ⟨b, hb, hread⟩ := hrecorded r hr
    rw [hid, hfound] at hb
    cases hb
    have hcheck := (hbatch.strict r.objectId (hstrict r.objectId)).1 _ hread rfl
    exact (hfresh r hr).get_eq (hbatch.checked _ _ hcheck)
  case bases_current =>
    intro entry hentry
    have hcheck := (hbatch.strict entry.objectId (hstrict entry.objectId)).2
      entry (hall ▸ hentry) rfl
    exact hbatch.checked _ _ hcheck
  case writes_eq =>
    have hresolved := hbatch.resolved
    rw [hall] at hresolved
    exact writes_of_resolved (fun k intent hk => latestIntents_overwrite ho hmem hk) hresolved

/-- In every run, a transaction whose commit returns true ran, in effect, all at once
where its batch stands in the history; the store is the history applied in order; and
a transaction whose batch enters the history returns true. -/
theorem strictly_serializable [DecidableEq ι] {s₀ s : System ι} (h₀ : s₀.Initial)
    (hreach : System.Reachable s₀ s) (hnowrap : s₀.world.store.NoWrap (allWrites s.history)) :
    s.world.store = s₀.world.store.applyWrites (allWrites s.history) ∧
      (∀ i txn txn', (s.clients i).stage = .committing txn (.ret (.ok true, txn')) →
        ∃ winner writes earlier later, s.history = earlier ++
          { author := some i, writes } :: later ∧
          RanAt (s₀.world.store.applyWrites (allWrites earlier)) txn
            (s.clients i).reads winner writes) ∧
      ∀ i s', s.step (.commitCall i) = some s' → s'.history ≠ s.history →
        ∃ txn txn', (s'.clients i).stage = .committing txn (.ret (.ok true, txn')) := by
  have hinv := inv_reachable h₀ hreach hnowrap
  refine ⟨hinv.store, fun i txn txn' hstage => ?_, fun i s' hstep hne => ?_⟩
  · have hclient := hinv.clients i
    have htxn : (s.clients i).stage.txn = txn := by rw [hstage]; rfl
    obtain ⟨tr, hs, hmet⟩ := hclient.underway _ _ hstage
    have hrun := hs.interfered (.ret _)
    have hbranches : txn.branches ≠ [] := by
      intro hnil
      rw [selectWinnerAndCommit, hnil] at hrun
      obtain ⟨-, heq⟩ := Program.interfered_ret.1 hrun
      cases heq
    obtain ⟨winner, hselect, hfound,
        ⟨hfalse, -, -⟩ | ⟨-, v, looks, batch, seenChecks, writes, before, htr, -, hbatch, -⟩⟩ :=
      selectWinnerAndCommit_cases hbranches hrun
    · cases hfalse
    · obtain ⟨looks', -, rfl⟩ := hbatch.trace
      rw [List.append_nil] at htr
      have hevent :=
        hmet ⟨.batchPutIfVersion (checksOf seenChecks) writes, before⟩ (by rw [htr]; simp)
      obtain ⟨earlier, later, hhistory, hbefore⟩ :=
        hevent.recorded _ writes rfl (by rw [hbatch.answered])
      refine ⟨winner, writes, earlier, later, hhistory, ?_⟩
      rw [← hbefore]
      exact ranAt_batch (htxn ▸ hclient.overwriting) hselect hfound
        (fun r hr => htxn ▸ hclient.recorded r hr)
        hevent.fresh hbatch
  · simp only [System.step] at hstep
    split at hstep
    next txn op next hstage =>
      cases hstep
      obtain ⟨tr, hs, -⟩ := (hinv.clients i).underway _ _ hstage
      simp only [System.setClient, Function.update_self]
      rcases call_cases hs s.world with hharmless | ⟨checks, writes, txn', rfl, -, hret⟩
      · refine absurd ?_ hne
        rw [batchChange_of_harmless hharmless, List.append_nil]
      · exact ⟨txn, txn', by rw [hret]⟩
    next => simp at hstep

/-- Two transactions over an empty store. -/
def twoTransactions : System Bool where
  world := {}
  clients i := ⟨.working (begin_ (if i then ascii "txn:1" else ascii "txn:0") (ascii "task")), []⟩
  history := []

/-- One transaction reads and overwrites `k` and commits; meanwhile the other one
reads `k`, and a foreign writer puts `l`. -/
def interleaving : List (Action Bool) :=
  [.operate true (.createBranch (ascii "b")), .operate false (.createBranch (ascii "c")),
    .operate true (.read (ascii "b") (ascii "k")),
    .operate true (.write (ascii "b") (ascii "k") .generic
      { objectId := ascii "k", intentType := .overwrite, payload := ascii "v" }),
    .put (ascii "l") (ascii "w"), .beginCommit true, .commitCall true,
    .operate false (.read (ascii "c") (ascii "k")), .commitCall true,
    .commitCall true, .commitCall true]

theorem strictly_serializable_interleaving :
    ∃ s, twoTransactions.run interleaving = some s ∧
      s.world.store = ({} : MemoryKVStore).applyWrites (allWrites s.history) ∧
      (∃ txn txn', (s.clients true).stage = .committing txn (.ret (.ok true, txn'))) ∧
      ∀ i txn txn', (s.clients i).stage = .committing txn (.ret (.ok true, txn')) →
        ∃ winner writes earlier later, s.history = earlier ++
          { author := some i, writes } :: later ∧
          RanAt (({} : MemoryKVStore).applyWrites (allWrites earlier)) txn
              (s.clients i).reads winner writes := by
  have hrun : twoTransactions.run interleaving =
      some ((twoTransactions.run interleaving).getD twoTransactions) := rfl
  refine ⟨_, hrun, ?_⟩
  have hinit : twoTransactions.Initial := ⟨fun i => ⟨_, _, rfl⟩, rfl⟩
  have hreach := System.reachable_run .start (by decide) hrun
  obtain ⟨hstore, hcommitted, -⟩ := strictly_serializable hinit hreach (by decide)
  exact ⟨hstore, ⟨_, _, rfl⟩, hcommitted⟩

end DataAgentSystem.Concurrency
