import DataAgentSystem.Concurrency.OpenRuns

/-! What a wrapped version does to a rebased commit. A version has 64 bits, so after
2 ^ 64 writes of a key a commit that got the key before finds the version it got.
Its batch is then made of a value that is long gone: the writes in between are lost.
The run has one transaction that stops after it got the key, and 2 ^ 64 others that
commit meanwhile, of which only the first changes the value. -/

namespace DataAgentSystem.Concurrency

open Text Intent Cache Branch Storage Interaction AgentTxn CommitManager AgentTxnManager

/-- The transaction whose commit begins by the move. -/
def Move.begins {ι : Type} : Move ι → Option ι
  | .act (.beginCommit i) => some i
  | _ => none

/-- Fresh transactions over a store that holds one value. -/
def openOver (ι : Type) (value : Bytes) : System ι where
  world := {
    store := {
      values := (∅ : Containers.UnorderedMap Entry).insert (ascii "k") { value, version := 1 } } }
  clients _ := ⟨.working (begin_ (ascii "txn:1") (ascii "task")), []⟩
  history := []

theorem initial_openOver (ι : Type) (value : Bytes) :
    (openOver ι value).Initial := ⟨fun _ => ⟨_, _, rfl⟩, rfl⟩

/-- A run over such a store in which each transaction commits at most once and no
foreign writer touches the key. -/
structure RunsOnce (value : Bytes) (moves : List (Move ℕ)) (committed : List (ℕ × AgentTxnContext))
    (s : System ℕ) :
    Prop where
  once : (moves.filterMap Move.begins).Nodup
  spares : ∀ m ∈ moves, m.Spares (ascii "k")
  follows : (openOver ℕ value).follow moves = some (committed, s)

def intentOnK (intentType : IntentType) (payload : Bytes) : WriteIntent :=
  { objectId := ascii "k", intentType, payload }

/-- A transaction with one write of `k`, based on `base`. -/
def txnWith (base : VersionedValue) (intent : WriteIntent) : AgentTxnContext :=
  { begin_ (ascii "txn:1") (ascii "task") with
    branches := [BranchManager.recordWrite { branchId := ascii "b" }
      (BranchManager.newEntry (ascii "k") .generic base) .generic intent] }

/-- A transaction with this one write makes `value'` of `value`, in three calls. -/
def Rounds (intent : WriteIntent) (value value' : Bytes) : Prop :=
  ∀ version, ∃ next₁ next₂ next₃ txn',
    selectWinnerAndCommit (txnWith { value, version, exists_ := true } intent) =
      .call (.get (ascii "k")) next₁ ∧
    next₁ { value, version, exists_ := true } = .call .supportsAtomicBatchConditionalWrite next₂ ∧
    next₂ true = .call (.batchPutIfVersion [{ key := ascii "k", expectedVersion := version }]
      [{ key := ascii "k", value := value' }]) next₃ ∧
    next₃ true = .ret (.ok true, txn')

section Rounds

variable {ι : Type} {intent : WriteIntent} {value value' : Bytes}
  {version : UInt64} {s : System ι} {i : ι}

/-- A fresh transaction writes `k`, begins to commit and gets `k`. -/
def beginRound (i : ι) (intent : WriteIntent) : List (Move ι) :=
  [.act (.operate i (.createBranch (ascii "b"))),
    .act (.operate i (.write (ascii "b") (ascii "k") .generic intent)),
    .act (.beginCommit i), .act (.commitCall i)]

/-- It learns that the store has batches, and makes its batch. -/
def endRound (i : ι) : List (Move ι) := [.act (.commitCall i), .act (.commitCall i)]

theorem run_createBranch (w : World) :
    ((TxnOp.createBranch (ascii "b")).perform (begin_ (ascii "txn:1") (ascii "task"))).run
      (handle .memory) w =
      ((createBranch (begin_ (ascii "txn:1") (ascii "task")) (ascii "b"), []), w) := rfl

theorem run_write (w : World) (intent : WriteIntent) :
    ((TxnOp.write (ascii "b") (ascii "k") .generic intent).perform
        (createBranch (begin_ (ascii "txn:1") (ascii "task")) (ascii "b"))).run (handle .memory) w =
      ((txnWith (w.store.get (ascii "k")) intent, []), w) := rfl

/-- Where a transaction stands between the two halves of its round. -/
structure Between (s : System ι) (i : ι) (intent : WriteIntent) (value' : Bytes)
    (version : UInt64) : Prop where
  stage : ∃ txn next₂ next₃ txn',
    (s.clients i).stage = .committing txn (.call .supportsAtomicBatchConditionalWrite next₂) ∧
    next₂ true = .call (.batchPutIfVersion [{ key := ascii "k", expectedVersion := version }]
      [{ key := ascii "k", value := value' }]) next₃ ∧
    next₃ true = .ret (.ok true, txn') ∧ liveInWinner txn (ascii "k") = [intent]

variable [DecidableEq ι]

theorem follow_beginRound (hround : Rounds intent value value') (hid : intent.objectId = ascii "k")
    (hfresh : s.clients i = ⟨.working (begin_ (ascii "txn:1") (ascii "task")), []⟩)
    (hget : s.world.store.get (ascii "k") = { value, version, exists_ := true }) :
    ∃ s', s.follow (beginRound i intent) = some ([], s') ∧ Between s' i intent value' version ∧
      s'.world = s.world ∧ ∀ j, j ≠ i → s'.clients j = s.clients j := by
  obtain ⟨next₁, next₂, next₃, txn', h₁, h₂, h₃, h₄⟩ := hround version
  have hlive : liveInWinner (txnWith { value, version, exists_ := true } intent) (ascii "k") =
      [intent] := by
    change live [intent] (ascii "k") = [intent]
    simp [live, hid]
  let txn := txnWith { value, version, exists_ := true } intent
  refine ⟨s.setClient i ⟨.committing txn (.call .supportsAtomicBatchConditionalWrite next₂), []⟩,
    ?_, ⟨txn, next₂, next₃, txn', by simp [System.setClient], h₃, h₄, hlive⟩, rfl, fun j hj =>
    Function.update_of_ne hj _ _⟩
  simp only [beginRound, System.follow, System.move, System.step, hfresh,
    run_createBranch, Option.bind_some, System.setClient, Function.update_self, run_write, hget, h₁,
    handle_get, h₂, System.commits]
  simp only [Function.update_idem, Option.map_some, List.nil_append,
    batchChange, List.append_nil, txn]

/-- Where a transaction stands before its batch. -/
structure BeforeBatch (s : System ι) (i : ι) (intent : WriteIntent) (value' : Bytes)
    (version : UInt64) : Prop where
  stage : ∃ txn next₃ txn', (s.clients i).stage = .committing txn (.call (.batchPutIfVersion
      [{ key := ascii "k", expectedVersion := version }] [{ key := ascii "k", value := value' }])
        next₃) ∧
    next₃ true = .ret (.ok true, txn') ∧ liveInWinner txn (ascii "k") = [intent]

theorem follow_commitCall (h : Between s i intent value' version) :
    ∃ s', s.follow [.act (.commitCall i)] = some ([], s') ∧ BeforeBatch s' i intent value' version ∧
      s'.world = s.world ∧ ∀ j, j ≠ i → s'.clients j = s.clients j := by
  obtain ⟨txn, next₂, next₃, txn', hstage, h₃, h₄, hlive⟩ := h.stage
  let client : Client := ⟨.committing txn (next₂ true), (s.clients i).reads⟩
  refine ⟨s.setClient i client, ?_,
    ⟨txn, next₃, txn', by simp [System.setClient, client, h₃], h₄, hlive⟩, rfl, fun j hj =>
    Function.update_of_ne hj _ _⟩
  simp only [System.follow, System.move, System.step, hstage, handle, decide_true, h₃,
    Option.bind_some, System.commits, batchChange, Option.map_some, List.append_nil, client]
  rfl

theorem move_batch (h : BeforeBatch s i intent value' version)
    (hversion : s.world.store.getVersion (ascii "k") = version) :
    ∃ txn s', s.move (.act (.commitCall i)) = some s' ∧
      s.commits (.act (.commitCall i)) = [(i, txn)] ∧
      liveInWinner txn (ascii "k") = [intent] ∧
      s'.world.store.get (ascii "k") =
        { value := value', version := version + 1, exists_ := true } ∧
      ∀ j, j ≠ i → s'.clients j = s.clients j := by
  obtain ⟨txn, next₃, txn', hstage, h₄, hlive⟩ := h.stage
  have hbatch : s.world.store.batchPutIfVersion [{ key := ascii "k", expectedVersion := version }]
      [{ key := ascii "k", value := value' }] = (true, s.world.store.write (ascii "k") value') :=
    MemoryKVStore.batchPutIfVersion_of_all _ fun check hcheck => by
      rw [List.mem_singleton.1 hcheck, hversion]
  let client : Client := ⟨.committing txn (.ret (.ok true, txn')), (s.clients i).reads⟩
  refine ⟨txn, { s.setClient i client with
    world := { s.world with store := s.world.store.write (ascii "k") value' }
    history := s.history ++
      [{ author := some i, writes := [{ key := ascii "k", value := value' }] }] }, ?_,
      ?_, hlive, ?_,
    fun j hj => Function.update_of_ne hj _ _⟩
  · simp only [System.move, System.step, hstage, handle, World.withStore,
      StoreKind.batchPutIfVersion, hbatch, h₄, batchChange, ↓reduceIte, client]
  · simp only [System.commits, hstage, handle, World.withStore,
      StoreKind.batchPutIfVersion, hbatch, h₄]
  · rw [MemoryKVStore.get_write_self]
    simp only [← hversion, MemoryKVStore.getVersion]

theorem follow_endRound (h : Between s i intent value' version)
    (hversion : s.world.store.getVersion (ascii "k") = version) :
    ∃ txn s', s.follow (endRound i) = some ([(i, txn)], s') ∧
      liveInWinner txn (ascii "k") = [intent] ∧
      s'.world.store.get (ascii "k") =
        { value := value', version := version + 1, exists_ := true } ∧
      ∀ j, j ≠ i → s'.clients j = s.clients j := by
  obtain ⟨t, hfirst, hbatch, hworld, hothers⟩ := follow_commitCall h
  rw [← hworld] at hversion
  obtain ⟨txn, s', hmove, hcommits, hlive, hvalue, hothers'⟩ := move_batch hbatch hversion
  refine ⟨txn, s', ?_, hlive, hvalue, fun j hj => (hothers' j hj).trans (hothers j hj)⟩
  have hsplit : (endRound i : List (Move ι)) = [.act (.commitCall i)] ++
      [.act (.commitCall i)] := rfl
  rw [hsplit, System.follow_append, hfirst, Option.bind_some, System.follow, hmove,
    Option.bind_some, hcommits]
  rfl

/-- A whole transaction, from its first operation to its commit. -/
def round (i : ι) (intent : WriteIntent) : List (Move ι) := beginRound i intent ++ endRound i

theorem follow_round (hround : Rounds intent value value') (hid : intent.objectId = ascii "k")
    (hfresh : s.clients i = ⟨.working (begin_ (ascii "txn:1") (ascii "task")), []⟩)
    (hget : s.world.store.get (ascii "k") = { value, version, exists_ := true }) :
    ∃ txn s', s.follow (round i intent) = some ([(i, txn)], s') ∧
      liveInWinner txn (ascii "k") = [intent] ∧
      s'.world.store.get (ascii "k") =
        { value := value', version := version + 1, exists_ := true } ∧
      ∀ j, j ≠ i → s'.clients j = s.clients j := by
  obtain ⟨t, hbegin, hbetween, hworld, hothers⟩ := follow_beginRound hround hid hfresh hget
  have hversion : t.world.store.getVersion (ascii "k") = version := by
    rw [hworld, MemoryKVStore.getVersion, hget]
  obtain ⟨txn, s', hend, hlive, hvalue, hothers'⟩ := follow_endRound hbetween hversion
  refine ⟨txn, s', ?_, hlive, hvalue, fun j hj => (hothers' j hj).trans (hothers j hj)⟩
  rw [round, System.follow_append, hbegin, Option.bind_some, hend]
  rfl

omit [DecidableEq ι] in
theorem begins_round (i : ι) (intent : WriteIntent) :
    (round i intent).filterMap Move.begins = [i] := rfl

end Rounds

/-! ### Going round the versions -/

/-- So many transactions with the same write, one after the other. -/
def rounds (intent : WriteIntent) : ℕ → ℕ → List (Move ℕ)
  | _, 0 => []
  | first, n + 1 => round first intent ++ rounds intent (first + 1) n

variable {intent idle : WriteIntent} {value value' : Bytes}

theorem begins_rounds (intent : WriteIntent) (first n : ℕ) :
    (rounds intent first n).filterMap Move.begins = List.range' first n := by
  induction n generalizing first with
  | zero => rfl
  | succ n ih =>
    rw [rounds, List.filterMap_append, begins_round, ih, List.range'_succ, List.singleton_append]

/-- Transactions that change nothing raise the version all the same. -/
theorem follow_rounds (hidle : Rounds idle value value) (hid : idle.objectId = ascii "k")
    (n : ℕ) {first : ℕ} {s : System ℕ} {version : UInt64}
    (hfresh : ∀ j, first ≤ j → s.clients j = ⟨.working (begin_ (ascii "txn:1") (ascii "task")), []⟩)
    (hget : s.world.store.get (ascii "k") = { value, version, exists_ := true }) :
    ∃ committed s', s.follow (rounds idle first n) = some (committed, s') ∧
      (committed.map fun c => liveInWinner c.2 (ascii "k")) = List.replicate n [idle] ∧
      s'.world.store.get (ascii "k") =
        { value, version := version + UInt64.ofNat n, exists_ := true } ∧
      ∀ j < first, s'.clients j = s.clients j := by
  induction n generalizing s first version with
  | zero =>
    exact ⟨[], s, rfl, rfl, hget.trans (by rw [show UInt64.ofNat 0 = 0 from rfl, UInt64.add_zero]),
      fun _ _ => rfl⟩
  | succ n ih =>
    obtain ⟨txn, t, hround, hlive, hvalue, hothers⟩ :=
      follow_round hidle hid (hfresh first le_rfl) hget
    have hfresh' : ∀ j, first + 1 ≤ j →
        t.clients j = ⟨.working (begin_ (ascii "txn:1") (ascii "task")), []⟩ := by
      intro j hj
      rw [hothers j (by omega)]
      exact hfresh j (by omega)
    obtain ⟨committed, s', hrest, hlives, hvalue', hbefore⟩ := ih hfresh' hvalue
    refine ⟨(first, txn) :: committed, s', ?_, ?_, ?_, fun j hj => ?_⟩
    · rw [rounds, System.follow_append, hround, Option.bind_some, hrest]
      rfl
    · rw [List.map_cons, hlive, hlives, List.replicate_succ]
    · rw [hvalue', UInt64.ofNat_add, UInt64.add_assoc, UInt64.add_comm 1]
      rfl
    · rw [hbefore j (by omega), hothers j (by omega)]

/-- Transaction 0 gets the key, transaction 1 makes the same write, `n` more write
something idle, and transaction 0 makes its batch. -/
def aroundVersions (intent idle : WriteIntent) (n : ℕ) : List (Move ℕ) :=
  beginRound 0 intent ++ (round 1 intent ++ (rounds idle 2 n ++ endRound 0))

theorem begins_aroundVersions (intent idle : WriteIntent) (n : ℕ) :
    ((aroundVersions intent idle n).filterMap Move.begins).Nodup := by
  have hfirst : (beginRound 0 intent).filterMap Move.begins = [0] := rfl
  have hlast : (endRound 0 : List (Move ℕ)).filterMap Move.begins = [] := rfl
  rw [aroundVersions, List.filterMap_append, List.filterMap_append, List.filterMap_append, hfirst,
    begins_round, begins_rounds, hlast, List.append_nil]
  change (List.range' 0 (n + 2)).Nodup
  exact List.nodup_range'

theorem forall_mem_rounds {P : Move ℕ → Prop} (hidle : ∀ i, ∀ m ∈ round i idle, P m) (first n : ℕ) :
    ∀ m ∈ rounds idle first n, P m := by
  induction n generalizing first with
  | zero => exact fun m hm => absurd hm List.not_mem_nil
  | succ n ih =>
    rw [rounds, List.forall_mem_append]
    exact ⟨hidle first, ih (first + 1)⟩

/-- The run makes no other moves than those of a round of one of the two writes. -/
theorem forall_mem_aroundVersions {P : Move ℕ → Prop} (hintent : ∀ i, ∀ m ∈ round i intent, P m)
    (hidle : ∀ i, ∀ m ∈ round i idle, P m) (n : ℕ) : ∀ m ∈ aroundVersions intent idle n, P m := by
  have hfirst := hintent 0
  rw [round, List.forall_mem_append] at hfirst
  rw [aroundVersions, List.forall_mem_append, List.forall_mem_append, List.forall_mem_append]
  exact ⟨hfirst.1, hintent 1, forall_mem_rounds hidle 2 n, hfirst.2⟩

theorem spares_round {ι : Type} (i : ι) (intent : WriteIntent) :
    ∀ m ∈ round i intent, m.Spares (ascii "k") := by
  simp [round, beginRound, endRound, Move.Spares]

theorem spares_aroundVersions (intent idle : WriteIntent) (n : ℕ) :
    ∀ m ∈ aroundVersions intent idle n, m.Spares (ascii "k") :=
  forall_mem_aroundVersions (fun i => spares_round i intent) (fun i => spares_round i idle) n

theorem named_round {ι : Type} (i : ι) (hid : intent.objectId = ascii "k") :
    ∀ m ∈ round i intent, m.Named := by
  simp [round, beginRound, endRound, Move.Named, hid]

theorem named_aroundVersions (hid : intent.objectId = ascii "k")
    (hid' : idle.objectId = ascii "k") (n : ℕ) :
    ∀ m ∈ aroundVersions intent idle n, m.Named :=
  forall_mem_aroundVersions (fun i => named_round i hid) (fun i => named_round i hid') n

/-- A live intent of a transaction that such a run commits is one of the two. -/
theorem mem_lives_aroundVersions {committed : List (ℕ × AgentTxnContext)} {n : ℕ}
    (hlives : (committed.map fun c => liveInWinner c.2 (ascii "k")) = [intent] ::
      (List.replicate n [idle] ++ [[intent]]))
    {c : ℕ × AgentTxnContext} (hc : c ∈ committed) {i : WriteIntent}
    (hi : i ∈ liveInWinner c.2 (ascii "k")) :
    i = intent ∨ i = idle := by
  have hmem : liveInWinner c.2 (ascii "k") ∈ [intent] :: (List.replicate n [idle] ++ [[intent]]) :=
    hlives ▸ List.mem_map_of_mem hc
  rcases List.mem_cons.1 hmem with hfirst | hrest
  · rw [hfirst] at hi
    exact .inl (List.mem_singleton.1 hi)
  · rcases List.mem_append.1 hrest with hidle | hlast
    · rw [List.eq_of_mem_replicate hidle] at hi
      exact .inr (List.mem_singleton.1 hi)
    · rw [List.mem_singleton.1 hlast] at hi
      exact .inl (List.mem_singleton.1 hi)

/-- If `n` more writes come back to the version, the write of transaction 1 is lost. -/
theorem runsOnce_aroundVersions (hround : Rounds intent value value')
    (hidle : Rounds idle value' value') (hid : intent.objectId = ascii "k")
    (hid' : idle.objectId = ascii "k") (n : ℕ) (hn : (1 : UInt64) + 1 + UInt64.ofNat n = 1) :
    ∃ committed s, RunsOnce value (aroundVersions intent idle n) committed s ∧
      (committed.map fun c => liveInWinner c.2 (ascii "k")) = [intent] ::
        (List.replicate n [idle] ++ [[intent]]) ∧
      (s.world.store.get (ascii "k")).value = value' := by
  have hget : (openOver ℕ value).world.store.get (ascii "k") =
      { value, version := 1, exists_ := true } := rfl
  obtain ⟨s₁, hfollow₁, hbetween, hworld₁, hothers₁⟩ :=
      follow_beginRound (i := 0) hround hid rfl hget
  have hget₁ : s₁.world.store.get (ascii "k") = { value, version := 1, exists_ := true } := by
    rw [hworld₁, hget]
  obtain ⟨txn₁, s₂, hfollow₂, hlive₁, hget₂, hothers₂⟩ :=
    follow_round (i := 1) hround hid (hothers₁ 1 (by omega)) hget₁
  have hfresh : ∀ j, 2 ≤ j →
      s₂.clients j = ⟨.working (begin_ (ascii "txn:1") (ascii "task")), []⟩ := by
    intro j hj
    rw [hothers₂ j (by omega), hothers₁ j (by omega)]
    rfl
  obtain ⟨committed, s₃, hfollow₃, hlives, hget₃, hbefore⟩ :=
    follow_rounds hidle hid' n hfresh hget₂
  have hstill : s₃.clients 0 = s₁.clients 0 := by rw [hbefore 0 (by omega), hothers₂ 0 (by omega)]
  have hbetween₃ : Between s₃ 0 intent value' 1 := ⟨by rw [hstill]; exact hbetween.stage⟩
  have hversion : s₃.world.store.getVersion (ascii "k") = 1 := by
    rw [MemoryKVStore.getVersion, hget₃, hn]
  obtain ⟨txn₀, s₄, hfollow₄, hlive₀, hget₄, -⟩ := follow_endRound hbetween₃ hversion
  refine ⟨(1, txn₁) :: (committed ++ [(0, txn₀)]), s₄, ⟨begins_aroundVersions intent idle n,
    spares_aroundVersions intent idle n, ?_⟩, ?_, by rw [hget₄]⟩
  · rw [aroundVersions, System.follow_append, hfollow₁, Option.bind_some,
      System.follow_append, hfollow₂, Option.bind_some, System.follow_append, hfollow₃,
      Option.bind_some, hfollow₄]
    rfl
  · rw [List.map_cons, List.map_append, hlive₁, hlives, List.map_singleton, hlive₀]

end DataAgentSystem.Concurrency
