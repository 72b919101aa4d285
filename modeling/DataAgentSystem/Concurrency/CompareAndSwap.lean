import DataAgentSystem.Concurrency.VersionWrap

/-! Compare-and-swap commits. The condition of a CAS is tested against a value the
commit gets before its batch, and the read of the same key is deliberately not
validated; the batch checks the version of that value, so it meets the value the
condition was tested against. Of several transactions that swap one value away, only
the first can commit until the value is set back. -/

namespace DataAgentSystem.Concurrency

open Text Intent Cache Branch Storage Interaction AgentTxn CommitManager AgentTxnManager

variable {ι : Type} {k e : Bytes}

/-- The only live intent on the key swaps the expected value. -/
structure SwapsFrom (e k : Bytes) (intent : WriteIntent) (txn : AgentTxnContext) : Prop where
  live : liveInWinner txn k = [intent]
  intentType : intent.intentType = .cas
  condition : intent.condition = { type := .valueEquals, expectedValue := e }

/-- It swaps it for another one. -/
def SwapsAway (e k : Bytes) (txn : AgentTxnContext) : Prop :=
  ∃ intent, SwapsFrom e k intent txn ∧ intent.payload ≠ e

/-- A swap that commits meets the expected value, and leaves its own. -/
theorem CommitsAt.swap {txn : AgentTxnContext} {store store' : MemoryKVStore}
    {intent : WriteIntent} {B : BaseSpec} (h : CommitsAt B k txn store store')
    (hswap : SwapsFrom e k intent txn) :
    (store.get k).value = e ∧ (store'.get k).value = intent.payload := by
  cases h with
  | untouched hreads hsame =>
    have hread := hreads intent (by rw [hswap.live]; rfl)
    rw [hswap.intentType] at hread
    cases hread
  | @written last entry base hlast hread hbase hbuffers hresolved =>
    rw [hswap.live] at hlast hbuffers
    obtain rfl : intent = last := Option.some.inj hlast
    have hcurrent : entry.currentValue = intent.payload := by
      rw [hbuffers.currentValue]
      change BranchManager.bufferedValue _ intent = intent.payload
      rw [BranchManager.bufferedValue, hswap.intentType]
    obtain ⟨hsuccess, hvalue⟩ := hresolved (by rw [hswap.intentType]; rfl)
    have hmet : (store.get k).value = e := by
      by_contra hne
      simp [resolveWrite, hswap.intentType, hswap.condition, hne] at hsuccess
    refine ⟨hmet, ?_⟩
    rw [hvalue]
    simp [resolveWrite, hswap.intentType, hswap.condition, hmet, hcurrent]

variable [DecidableEq ι]

/-- The moves of a run in which every intent names its object and nobody deletes the key. -/
def KeepsKey (k : Bytes) (_ : System ι) (m : Move ι) : Prop := m.Named ∧ m.Keeps k

/-- The move does not set the key back to the value. -/
def NotBack (e k : Bytes) (s : System ι) (m : Move ι) : Prop :=
  ∀ s', s.move m = some s' → (s.world.store.get k).value ≠ e → (s'.world.store.get k).value ≠ e

theorem keyInv_of_runsTo {s₀ s s' : System ι} {committed : List (ι × AgentTxnContext)}
    (h : KeyInv (fun _ _ => True) k s₀ s) (hruns : System.RunsTo (KeepsKey k) s committed s') :
    KeyInv (fun _ _ => True) k s₀ s' := by
  induction hruns with
  | start => exact h
  | move m _ hm hmove ih => exact ih.move (fun _ => trivial) hm.1 hm.2 hmove

/-- While nobody sets the value back, no swap away from it commits after another. -/
theorem pairwise_swapsAway {s₀ s s' : System ι} {committed : List (ι × AgentTxnContext)}
    (h : KeyInv (fun _ _ => True) k s₀ s)
    (hruns : System.RunsTo (fun t m => KeepsKey k t m ∧ NotBack e k t m) s committed s')
    (hfew : MemoryKVStore.writesTo k (allWrites s'.history) < 2 ^ 64) :
    (committed.Pairwise fun c c' => ¬(SwapsAway e k c.2 ∧ SwapsAway e k c'.2)) ∧
      ∀ c ∈ committed, SwapsAway e k c.2 → (s'.world.store.get k).value ≠ e := by
  induction hruns with
  | start => exact ⟨.nil, fun c hc => absurd hc List.not_mem_nil⟩
  | @move committed t t' m hbefore hm hmove ih =>
    have hcount := Nat.lt_of_le_of_lt (writesTo_le_of_move hmove) hfew
    obtain ⟨hpairs, haway⟩ := ih hcount
    have hinv := keyInv_of_runsTo h (hbefore.mono fun _ _ hboth => hboth.1)
    have hswap : ∀ c ∈ t.commits m, SwapsAway e k c.2 →
        (t.world.store.get k).value = e ∧ (t'.world.store.get k).value ≠ e := by
      rintro c hc ⟨intent, hswaps, hpayload⟩
      obtain ⟨hmet, hleft⟩ := (hinv.commit hcount hc hmove).swap hswaps
      exact ⟨hmet, by rw [hleft]; exact hpayload⟩
    constructor
    · rw [List.pairwise_append]
      refine ⟨hpairs, ?_, fun c hc c' hc' hboth => ?_⟩
      · cases hcommits : t.commits m with
        | nil => exact .nil
        | cons c rest =>
          have hc : c ∈ t.commits m := by rw [hcommits]; exact List.mem_cons_self
          obtain ⟨-, -, -, -, -, -, hone⟩ := System.commits_cases hc
          rw [← hcommits, hone]
          exact List.pairwise_singleton _ _
      · exact haway c hc hboth.1 (hswap c' hc' hboth.2).1
    · intro c hc haways
      rcases List.mem_append.1 hc with hold | hnew
      · exact hm.2 t' hmove (haway c hold haways)
      · exact (hswap c hnew haways).2

/-- A swap that commits meets the value it expects; and while nobody sets that value
back, at most one of the swaps away from it commits. -/
theorem cas_linearizable {s₀ s : System ι} {committed : List (ι × AgentTxnContext)}
    (k e : Bytes) (h₀ : s₀.Initial) (hruns : System.RunsTo (KeepsKey k) s₀ committed s)
    (hfew : MemoryKVStore.writesTo k (allWrites s.history) < 2 ^ 64) :
    (∀ m s' c intent, s.move m = some s' → c ∈ s.commits m → SwapsFrom e k intent c.2 →
        (s.world.store.get k).value = e) ∧
      ∀ later s', System.RunsTo (fun t m => KeepsKey k t m ∧ NotBack e k t m) s later s' →
        MemoryKVStore.writesTo k (allWrites s'.history) < 2 ^ 64 →
          later.Pairwise fun c c' => ¬(SwapsAway e k c.2 ∧ SwapsAway e k c'.2) := by
  have hinv := keyInv_of_runsTo (keyInv_initial h₀) hruns
  constructor
  · intro m s' c intent hmove hc hswap
    exact ((hinv.commit hfew hc hmove).swap hswap).1
  · intro later s' hlater hfew'
    exact (pairwise_swapsAway hinv hlater hfew').1

def swapOnK (expectedValue payload : Bytes) : WriteIntent :=
  { objectId := ascii "k", intentType := .cas, payload,
    condition := { type := .valueEquals, expectedValue } }

/-- Two swaps of the same value; the first one is about to make its batch. -/
def swapRace : List (Move Bool) :=
  beginRound true (swapOnK (ascii "e") (ascii "x")) ++
    beginRound false (swapOnK (ascii "e") (ascii "y")) ++
    [.act (.commitCall true)]

theorem keepsKey_swapRace : ∀ m ∈ swapRace, ∀ s, KeepsKey (ascii "k") s m := by
  simp [swapRace, beginRound, swapOnK, KeepsKey, Move.Named, Move.Keeps]

theorem cas_linearizable_swapRace :
    ∃ s s' txn, (openOver Bool (ascii "e")).follow swapRace = some ([], s) ∧
      s.move (.act (.commitCall true)) = some s' ∧
      s.commits (.act (.commitCall true)) = [(true, txn)] ∧
        (s.world.store.get (ascii "k")).value = ascii "e" := by
  let s := (((openOver Bool (ascii "e")).follow swapRace).getD ([], openOver Bool [])).2
  let s' := (s.move (.act (.commitCall true))).getD s
  have hfollow : (openOver Bool (ascii "e")).follow swapRace = some ([], s) := rfl
  have hmove : s.move (.act (.commitCall true)) = some s' := rfl
  have hruns := System.runsTo_follow .start keepsKey_swapRace hfollow
  have hcas :=
    (cas_linearizable (ascii "k") (ascii "e") (initial_openOver Bool (ascii "e"))
      hruns (by decide +kernel)).1
  exact ⟨s, s', _, hfollow, hmove, rfl,
    hcas _ s' _ (swapOnK (ascii "e") (ascii "x")) hmove List.mem_cons_self ⟨rfl, rfl, rfl⟩⟩

/-- Foreign puts of one value raise the version and leave every transaction alone. -/
theorem follow_puts (s : System ι) (value : Bytes) (n : ℕ) :
    ∃ s', s.follow (List.replicate n (.act (.put (ascii "k") value))) = some ([], s') ∧
      s'.clients = s.clients ∧
      s'.world.store.getVersion (ascii "k") =
        s.world.store.getVersion (ascii "k") + UInt64.ofNat n ∧
      (n ≠ 0 → (s'.world.store.get (ascii "k")).value = value) := by
  induction n generalizing s with
  | zero => exact ⟨s, rfl, rfl, (UInt64.add_zero _).symm, fun hne => absurd rfl hne⟩
  | succ n ih =>
    let t : System ι := { s with
      world := (handle .memory (.put (ascii "k") value) s.world).2
      history := s.history ++ [{ author := none, writes := [{ key := ascii "k", value }] }] }
    have hmove : s.move (.act (.put (ascii "k") value)) = some t := rfl
    have hget : t.world.store.get (ascii "k") =
        { value, version := s.world.store.getVersion (ascii "k") + 1, exists_ := true } :=
      MemoryKVStore.get_write_self _ _ _
    obtain ⟨s', hfollow, hclients, hversion, hvalue⟩ := ih t
    refine ⟨s', ?_, hclients, ?_, fun _ => ?_⟩
    · rw [List.replicate_succ, System.follow, hmove, Option.bind_some, hfollow]
      rfl
    · rw [hversion, MemoryKVStore.getVersion, hget, UInt64.ofNat_add,
        UInt64.add_assoc, UInt64.add_comm 1]
      rfl
    · by_cases hn : n = 0
      · subst hn
        cases hfollow
        rw [hget]
      · exact hvalue hn

/-- One transaction tests its swap, `n` foreign puts follow, and it is about to make its batch. -/
def swapAroundPuts (intent : WriteIntent) (value : Bytes) (n : ℕ) : List (Move ℕ) :=
  beginRound 0 intent ++
    (List.replicate n (.act (.put (ascii "k") value)) ++ [.act (.commitCall 0)])

theorem follow_swapAroundPuts {intent : WriteIntent} {value value' : Bytes}
    (hround : Rounds intent value value') (hid : intent.objectId = ascii "k") (other : Bytes)
    {n : ℕ} (hn : n ≠ 0) (hwrap : (1 : UInt64) + UInt64.ofNat n = 1) :
    ∃ s s' txn, (openOver ℕ value).follow (swapAroundPuts intent other n) = some ([], s) ∧
      s.move (.act (.commitCall 0)) = some s' ∧ s.commits (.act (.commitCall 0)) = [(0, txn)] ∧
      liveInWinner txn (ascii "k") = [intent] ∧ (s.world.store.get (ascii "k")).value = other := by
  have hget : (openOver ℕ value).world.store.get (ascii "k") =
      { value, version := 1, exists_ := true } := rfl
  obtain ⟨s₁, hfollow₁, hbetween, hworld₁, -⟩ := follow_beginRound (i := 0) hround hid rfl hget
  obtain ⟨s₂, hfollow₂, hclients, hversion₂, hvalue₂⟩ := follow_puts s₁ other n
  have hbetween₂ : Between s₂ 0 intent value' 1 := ⟨by rw [hclients]; exact hbetween.stage⟩
  obtain ⟨s, hfollow, hbatch, hworld, -⟩ := follow_commitCall hbetween₂
  have hversion : s.world.store.getVersion (ascii "k") = 1 := by
    rw [hworld, hversion₂, hworld₁, MemoryKVStore.getVersion, hget, hwrap]
  obtain ⟨txn, s', hmove, hcommits, hlive, -, -⟩ := move_batch hbatch hversion
  refine ⟨s, s', txn, ?_, hmove, hcommits, hlive, by rw [hworld]; exact hvalue₂ hn⟩
  rw [swapAroundPuts, System.follow_append, hfollow₁, Option.bind_some, System.follow_append,
    hfollow₂, Option.bind_some, hfollow]
  rfl

/-- A swap buffered for an object it does not name, and then an overwrite that names that object. -/
def misnamedSwap : List (Move ℕ) :=
  [.act (.operate 0 (.createBranch (ascii "b"))),
    .act (.operate 0 (.write (ascii "b") (ascii "j") .generic (swapOnK (ascii "e") (ascii "y")))),
    .act (.operate 0 (.write (ascii "b") (ascii "j") .generic
      { objectId := ascii "j", intentType := .overwrite })),
    .act (.beginCommit 0), .act (.commitCall 0), .act (.commitCall 0)]

/-- Without the bound on the writes, or without intents that name their objects, a
swap commits that does not meet the value it expects. -/
theorem cas_not_linearizable :
    (∃ s s' txn, (openOver ℕ (ascii "e")).follow
      (swapAroundPuts (swapOnK (ascii "e") (ascii "y")) (ascii "x") (2 ^ 64)) =
        some ([], s) ∧
      (∀ m ∈ swapAroundPuts (swapOnK (ascii "e") (ascii "y")) (ascii "x") (2 ^ 64),
        m.Named ∧ m.Keeps (ascii "k")) ∧
      s.move (.act (.commitCall 0)) = some s' ∧ s.commits (.act (.commitCall 0)) = [(0, txn)] ∧
      SwapsFrom (ascii "e") (ascii "k") (swapOnK (ascii "e") (ascii "y")) txn ∧
      (s.world.store.get (ascii "k")).value = ascii "x") ∧
    (∃ s s' txn, (openOver ℕ (ascii "d")).follow misnamedSwap = some ([], s) ∧
      (∀ m ∈ misnamedSwap, m.Keeps (ascii "k")) ∧
      s.move (.act (.commitCall 0)) = some s' ∧ s.commits (.act (.commitCall 0)) = [(0, txn)] ∧
      SwapsFrom (ascii "e") (ascii "k") (swapOnK (ascii "e") (ascii "y")) txn ∧
      (s.world.store.get (ascii "k")).value = ascii "d") := by
  constructor
  · have hround : Rounds (swapOnK (ascii "e") (ascii "y")) (ascii "e") (ascii "y") :=
      fun _ => ⟨_, _, _, _, rfl, rfl, rfl, rfl⟩
    obtain ⟨s, s', txn, hfollow, hmove, hcommits, hlive, hvalue⟩ :=
      follow_swapAroundPuts hround rfl (ascii "x") (n := 2 ^ 64) (by decide) (by decide)
    refine ⟨s, s', txn, hfollow, ?_, hmove, hcommits, ⟨hlive, rfl, rfl⟩, hvalue⟩
    rw [swapAroundPuts, List.forall_mem_append, List.forall_mem_append]
    refine ⟨?_, fun m hm => ?_, ?_⟩
    · simp [beginRound, swapOnK, Move.Named, Move.Keeps]
    · rw [List.eq_of_mem_replicate hm]
      exact ⟨trivial, trivial⟩
    · simp [Move.Named, Move.Keeps]
  · let s := (((openOver ℕ (ascii "d")).follow misnamedSwap).getD ([], openOver ℕ [])).2
    let s' := (s.move (.act (.commitCall 0))).getD s
    have hfollow : (openOver ℕ (ascii "d")).follow misnamedSwap = some ([], s) := rfl
    have hmove : s.move (.act (.commitCall 0)) = some s' := rfl
    exact ⟨s, s', _, hfollow, by simp [misnamedSwap, Move.Keeps], hmove, rfl, ⟨rfl, rfl, rfl⟩, rfl⟩

end DataAgentSystem.Concurrency
