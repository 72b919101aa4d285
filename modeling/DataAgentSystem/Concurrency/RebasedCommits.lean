import DataAgentSystem.Branch.Replay
import DataAgentSystem.Concurrency.VersionWrap

/-! Commits of intents that replay. Whatever the interleaving, each commit replays
the live intents of its winner on what the key holds then, so a key that only such
commits write holds its first value with all of them replayed in commit order:
nothing is lost, and nothing is counted twice. -/

namespace DataAgentSystem.Concurrency

open Text Intent Cache Branch Storage Interaction AgentTxn CommitManager AgentTxnManager

variable {ι : Type} {Good : Bytes → Prop} {Fit : WriteIntent → Prop} {k : Bytes}

/-- What is known of the value on which the key was buffered. -/
def goodBase (Good : Bytes → Prop) (k : Bytes) : BaseSpec := fun j base => j = k → Good base.value

/-- A value with the live intents of some commits replayed on it. -/
def replayed (k : Bytes) (value : Bytes) (committed : List (ι × AgentTxnContext)) : Bytes :=
  committed.foldl (fun value c => bufferedFrom value (liveInWinner c.2 k)) value

theorem replayed_snoc (k : Bytes) (value : Bytes) (committed : List (ι × AgentTxnContext))
    (c : ι × AgentTxnContext) :
    replayed k value (committed ++ [c]) =
      bufferedFrom (replayed k value committed) (liveInWinner c.2 k) :=
  List.foldl_concat ..

/-- A commit replays its live intents on what the key holds. -/
theorem CommitsAt.value_eq {txn : AgentTxnContext} {store store' : MemoryKVStore}
    (hreplays : Replays Good Fit) (h : CommitsAt (goodBase Good k) k txn store store')
    (hgood : Good (store.get k).value) (hfit : ∀ intent ∈ liveInWinner txn k, Fit intent) :
    (store'.get k).value = bufferedFrom (store.get k).value (liveInWinner txn k) := by
  cases h with
  | untouched hreads hsame =>
    have hnil : liveInWinner txn k = [] := by
      by_contra hne
      obtain ⟨intent, hlast⟩ := List.getLast?_isSome.2 hne |> Option.isSome_iff_exists.1
      have hsemantic := hreplays.semantic intent (hfit intent (List.mem_of_getLast? hlast))
      rw [hreads intent hlast] at hsemantic
      cases hsemantic
    rw [hnil, hsame, bufferedFrom_nil]
  | @written intent entry base hlast hread hbase hbuffers hresolved =>
    have hsemantic := hreplays.semantic intent (hfit intent (List.mem_of_getLast? hlast))
    rw [(hresolved hsemantic).2]
    exact hreplays.resolves base _ _ entry intent (hbase rfl) hgood hfit hbuffers hlast

variable [DecidableEq ι]

/-- The moves of a run in which every intent names its object and no foreign writer
touches the key. -/
def OnlyCommits (k : Bytes) (_ : System ι) (m : Move ι) : Prop := m.Named ∧ m.Spares k

/-- At every moment the key holds its first value with all commits replayed on it. -/
theorem value_eq_replayed {s₀ s : System ι} {committed : List (ι × AgentTxnContext)}
    (hreplays : Replays Good Fit) (h₀ : s₀.Initial) (hgood : Good (s₀.world.store.get k).value)
    (hruns : System.RunsTo (OnlyCommits k) s₀ committed s)
    (hfit : ∀ c ∈ committed, ∀ intent ∈ liveInWinner c.2 k, Fit intent)
    (hfew : MemoryKVStore.writesTo k (allWrites s.history) < 2 ^ 64) :
    KeyInv (goodBase Good k) k s₀ s ∧ Good (s.world.store.get k).value ∧
      (s.world.store.get k).value = replayed k (s₀.world.store.get k).value committed := by
  induction hruns with
  | start => exact ⟨keyInv_initial h₀, hgood, rfl⟩
  | @move committed s s' m _ hm hmove ih =>
    have hbefore := Nat.lt_of_le_of_lt (writesTo_le_of_move hmove) hfew
    obtain ⟨hinv, hnow, hvalue⟩ := ih (fun c hc => hfit c (List.mem_append_left _ hc)) hbefore
    have hbase : ∀ j, goodBase Good k j (s.world.store.get j) := by
      rintro j rfl
      exact hnow
    have hinv' := hinv.move hbase hm.1 hm.2.keeps hmove
    refine ⟨hinv', ?_⟩
    cases hcommits : s.commits m with
    | nil =>
      have hsame := hinv.value_eq_of_no_commit hm.2 hmove hcommits
      rw [hsame, List.append_nil]
      exact ⟨hnow, hvalue⟩
    | cons c rest =>
      have hc : c ∈ s.commits m := by rw [hcommits]; exact List.mem_cons_self
      obtain ⟨-, -, -, -, -, -, hone⟩ := System.commits_cases hc
      rw [hcommits] at hone
      obtain rfl : rest = [] := (List.cons.inj hone).2
      have hlive := hfit c (List.mem_append_right _ hc)
      have hnew := (hinv.commit hbefore hc hmove).value_eq hreplays hnow hlive
      rw [hnew, replayed_snoc, ← hvalue]
      exact ⟨hreplays.keeps _ _ hnow hlive, rfl⟩

/-! ### Integer deltas -/

/-- What the deltas of some commits add up to. -/
def committedSum (k : Bytes) (committed : List (ι × AgentTxnContext)) : ℤ :=
  (committed.map fun c => deltaSum (liveInWinner c.2 k)).sum

omit [DecidableEq ι] in
theorem parseInt_replayed {value : Bytes} {committed : List (ι × AgentTxnContext)}
    (hvalue : IsInteger value)
    (hdelta : ∀ c ∈ committed, ∀ intent ∈ liveInWinner c.2 k, IsDelta intent) :
    parseInt (replayed k value committed) =
      some (Int64.ofInt (intValue value + committedSum k committed)) := by
  induction committed using List.reverseRecOn with
  | nil => simpa [committedSum, replayed] using parseInt_of_isInteger hvalue
  | append_singleton committed c ih =>
    have hbefore := ih fun c' hc' => hdelta c' (List.mem_append_left _ hc')
    have hinteger : IsInteger (replayed k value committed) := by
      rw [IsInteger, hbefore]
      rfl
    have hsum : committedSum k (committed ++ [c]) = committedSum k committed + deltaSum
        (liveInWinner c.2 k) := by
      simp [committedSum]
    rw [replayed_snoc, (bufferedFrom_delta (hdelta c (by simp)) hinteger).1, hsum,
      Int64.ofInt_add, intValue, hbefore, Option.getD_some, Int64.ofInt_toInt, ← Int64.ofInt_add,
      Int.add_assoc]

/-- At every moment the key spells its first value plus all deltas committed so far. -/
theorem delta_no_lost_update {s₀ s : System ι} {committed : List (ι × AgentTxnContext)}
    (k : Bytes) (h₀ : s₀.Initial) (hinteger : IsInteger (s₀.world.store.get k).value)
    (hruns : System.RunsTo (OnlyCommits k) s₀ committed s)
    (hdelta : ∀ c ∈ committed, ∀ intent ∈ liveInWinner c.2 k, IsDelta intent)
    (hfew : MemoryKVStore.writesTo k (allWrites s.history) < 2 ^ 64)
    (hlow : -2 ^ 63 ≤ intValue (s₀.world.store.get k).value + committedSum k committed)
    (hhigh : intValue (s₀.world.store.get k).value + committedSum k committed < 2 ^ 63) :
    (parseInt (s.world.store.get k).value).map Int64.toInt =
      some (intValue (s₀.world.store.get k).value + committedSum k committed) := by
  obtain ⟨-, -, hvalue⟩ := value_eq_replayed replays_delta h₀ hinteger hruns hdelta hfew
  rw [hvalue, parseInt_replayed hinteger hdelta, Option.map_some,
    Int64.toInt_ofInt_of_le hlow hhigh]

/-- A write of `k` in the branch `b`. -/
def writeK (i : ι) (intentType : IntentType) (payload : Bytes) : Move ι :=
  .act (.operate i (.write (ascii "b") (ascii "k") .generic (intentOnK intentType payload)))

/-- Two transactions based on the same value commit one after the other. The first
has taken part of its writes back. -/
def staleBases (intentType : IntentType) (payload payload' payload'' : Bytes) : List (Move Bool) :=
  [.act (.operate true (.createBranch (ascii "b"))),
    .act (.operate false (.createBranch (ascii "b"))), writeK true intentType payload,
    .act (.operate true (.savepoint (ascii "b") (ascii "s"))),
    writeK false intentType payload', writeK true intentType payload'',
    .act (.operate true (.rollbackToSavepoint (ascii "b") (ascii "s"))),
    .act (.beginCommit true), .act (.commitCall true),
      .act (.commitCall true), .act (.commitCall true),
    .act (.beginCommit false), .act (.commitCall false), .act (.commitCall false),
      .act (.commitCall false)]

theorem onlyCommits_staleBases (intentType : IntentType) (payload payload' payload'' : Bytes) :
    ∀ m ∈ staleBases intentType payload payload' payload'', ∀ s, OnlyCommits (ascii "k") s m := by
  simp [staleBases, writeK, intentOnK, OnlyCommits, Move.Named, Move.Spares]

theorem delta_no_lost_update_staleBases :
    ∃ committed s, (openOver Bool (ascii "10")).follow
        (staleBases .delta (ascii "1") (ascii "5") (ascii "100")) = some (committed, s) ∧
          committed.length = 2 ∧
      (parseInt (s.world.store.get (ascii "k")).value).map Int64.toInt = some 16 := by
  have hsome : ((openOver Bool (ascii "10")).follow
      (staleBases .delta (ascii "1") (ascii "5") (ascii "100"))).isSome = true := by decide +kernel
  have hfollow := (Option.some_get hsome).symm
  have hruns := System.runsTo_follow .start (onlyCommits_staleBases _ _ _ _) hfollow
  refine ⟨_, _, hfollow, by decide +kernel, ?_⟩
  have hvalue := delta_no_lost_update (ascii "k") (initial_openOver Bool (ascii "10"))
    rfl hruns (by decide +kernel)
    (by decide +kernel) (by decide +kernel) (by decide +kernel)
  rw [hvalue]
  decide +kernel

/-- A transaction buffers two writes of `k`, and the second one names another object. -/
def misnamed (intentType : IntentType) (payload payload' : Bytes) : List (Move ℕ) :=
  [.act (.operate 0 (.createBranch (ascii "b"))), writeK 0 intentType payload,
    .act (.operate 0
      (.write (ascii "b") (ascii "k") .generic
        { intentOnK intentType payload' with objectId := ascii "j" })),
    .act (.beginCommit 0), .act (.commitCall 0), .act (.commitCall 0), .act (.commitCall 0)]

theorem committedSum_of_lives {committed : List (ℕ × AgentTxnContext)}
    {intent idle : WriteIntent} {n : ℕ} (hintent : deltaSum [intent] = 1)
    (hidle : deltaSum [idle] = 0)
    (hlives : (committed.map fun c => liveInWinner c.2 k) = [intent] ::
      (List.replicate n [idle] ++ [[intent]])) :
    committedSum k committed = 2 := by
  have hsum : committedSum k committed =
      ((committed.map fun c => liveInWinner c.2 k).map deltaSum).sum := by
    rw [List.map_map]
    rfl
  rw [hsum, hlives, List.map_cons, List.map_append, List.map_replicate, List.sum_cons,
    List.sum_append, hintent, hidle, List.sum_replicate, nsmul_zero, List.map_singleton, hintent]
  rfl

/-- Without the bound on the writes, or without intents that name their objects,
the deltas committed are not what the key has gained. -/
theorem delta_lost_update :
    (∃ committed s, RunsOnce (ascii "0")
        (aroundVersions (intentOnK .delta (ascii "1")) (intentOnK .delta (ascii "0")) (2 ^ 64 - 1))
          committed s ∧
      (∀ m ∈ aroundVersions (intentOnK .delta (ascii "1")) (intentOnK .delta (ascii "0"))
        (2 ^ 64 - 1), m.Named) ∧
      (∀ c ∈ committed, ∀ intent ∈ liveInWinner c.2 (ascii "k"), IsDelta intent) ∧
      committedSum (ascii "k") committed = 2 ∧ (s.world.store.get (ascii "k")).value = ascii "1") ∧
    (∃ committed s, RunsOnce (ascii "0") (misnamed .delta (ascii "1") (ascii "5")) committed s ∧
      (∀ c ∈ committed, ∀ intent ∈ liveInWinner c.2 (ascii "k"), IsDelta intent) ∧
      committedSum (ascii "k") committed = 1 ∧
        (s.world.store.get (ascii "k")).value = ascii "6") := by
  constructor
  · have hround : Rounds (intentOnK .delta (ascii "1")) (ascii "0") (ascii "1") :=
      fun _ => ⟨_, _, _, _, rfl, rfl, rfl, rfl⟩
    have hidle : Rounds (intentOnK .delta (ascii "0")) (ascii "1") (ascii "1") :=
      fun _ => ⟨_, _, _, _, rfl, rfl, rfl, rfl⟩
    obtain ⟨committed, s, hruns, hlives, hvalue⟩ :=
      runsOnce_aroundVersions hround hidle rfl rfl (2 ^ 64 - 1) (by decide)
    refine ⟨committed, s, hruns, named_aroundVersions rfl rfl _,
      fun c hc intent hintent => ?_, ?_, hvalue⟩
    · rcases mem_lives_aroundVersions hlives hc hintent with rfl | rfl <;> decide
    · exact committedSum_of_lives (by decide) (by decide) hlives
  · have hsome :
        ((openOver ℕ (ascii "0")).follow (misnamed .delta (ascii "1") (ascii "5"))).isSome =
        true := by
      decide +kernel
    exact ⟨_, _, ⟨by decide, by simp [misnamed, writeK, Move.Spares], (Option.some_get hsome).symm⟩,
      by decide +kernel, by decide +kernel, by decide +kernel⟩

/-! ### Appended text -/

/-- The texts of some commits, in commit order. -/
def committedText (k : Bytes) (committed : List (ι × AgentTxnContext)) : Bytes :=
  committed.flatMap fun c => payloads (liveInWinner c.2 k)

omit [DecidableEq ι] in
theorem replayed_of_append {value : Bytes} {committed : List (ι × AgentTxnContext)}
    (happend : ∀ c ∈ committed, ∀ intent ∈ liveInWinner c.2 k, IsAppend intent) :
    replayed k value committed = value ++ committedText k committed := by
  induction committed using List.reverseRecOn with
  | nil => exact (List.append_nil _).symm
  | append_singleton committed c ih =>
    rw [replayed_snoc, ih fun c' hc' => happend c' (List.mem_append_left _ hc'),
      bufferedFrom_append (happend c (by simp)), List.append_assoc]
    simp [committedText]

/-- At every moment the key holds its first value and then all texts committed so far. -/
theorem append_no_lost_text {s₀ s : System ι} {committed : List (ι × AgentTxnContext)}
    (k : Bytes) (h₀ : s₀.Initial) (hruns : System.RunsTo (OnlyCommits k) s₀ committed s)
    (happend : ∀ c ∈ committed, ∀ intent ∈ liveInWinner c.2 k, IsAppend intent)
    (hfew : MemoryKVStore.writesTo k (allWrites s.history) < 2 ^ 64) :
    (s.world.store.get k).value = (s₀.world.store.get k).value ++ committedText k committed := by
  obtain ⟨-, -, hvalue⟩ := value_eq_replayed replays_append h₀ trivial hruns happend hfew
  rw [hvalue, replayed_of_append happend]

theorem append_no_lost_text_staleBases :
    ∃ committed s, (openOver Bool (ascii "log:")).follow
        (staleBases .append (ascii "a") (ascii "b") (ascii "x")) = some (committed, s) ∧
          committed.length = 2 ∧
      (s.world.store.get (ascii "k")).value = ascii "log:ab" := by
  have hsome : ((openOver Bool (ascii "log:")).follow
      (staleBases .append (ascii "a") (ascii "b") (ascii "x"))).isSome = true := by decide +kernel
  have hfollow := (Option.some_get hsome).symm
  have hruns := System.runsTo_follow .start (onlyCommits_staleBases _ _ _ _) hfollow
  refine ⟨_, _, hfollow, by decide +kernel, ?_⟩
  rw [append_no_lost_text (ascii "k") (initial_openOver Bool (ascii "log:"))
    hruns (by decide +kernel)
    (by decide +kernel)]
  decide +kernel

theorem committedText_of_lives {committed : List (ℕ × AgentTxnContext)} {intent idle : WriteIntent}
    {text : Bytes} {n : ℕ} (hintent : payloads [intent] = text) (hidle : payloads [idle] = [])
    (hlives : (committed.map fun c => liveInWinner c.2 k) = [intent] ::
      (List.replicate n [idle] ++ [[intent]])) :
    committedText k committed = text ++ text := by
  have htext : committedText k committed = (committed.map fun c => liveInWinner c.2 k).flatMap
      payloads := by
    rw [List.flatMap_map]
    rfl
  have hnone : (List.replicate n [idle]).flatMap payloads = [] := by
    rw [List.flatMap_eq_nil_iff]
    intro intents hmem
    rw [List.eq_of_mem_replicate hmem, hidle]
  rw [htext, hlives, List.flatMap_cons, List.flatMap_append, hnone, List.nil_append,
    List.flatMap_singleton, hintent]

/-- Without the bound on the writes, or without intents that name their objects,
the texts committed are not what the key has gained. -/
theorem append_lost_text :
    (∃ committed s, RunsOnce (ascii "")
        (aroundVersions (intentOnK .append (ascii "x")) (intentOnK .append (ascii "")) (2 ^ 64 - 1))
          committed s ∧
      (∀ m ∈ aroundVersions (intentOnK .append (ascii "x")) (intentOnK .append (ascii ""))
        (2 ^ 64 - 1), m.Named) ∧
      (∀ c ∈ committed, ∀ intent ∈ liveInWinner c.2 (ascii "k"), IsAppend intent) ∧
      committedText (ascii "k") committed = ascii "xx" ∧
        (s.world.store.get (ascii "k")).value = ascii "x") ∧
    (∃ committed s, RunsOnce (ascii "") (misnamed .append (ascii "x") (ascii "y")) committed s ∧
      (∀ c ∈ committed, ∀ intent ∈ liveInWinner c.2 (ascii "k"), IsAppend intent) ∧
      committedText (ascii "k") committed = ascii "x" ∧
        (s.world.store.get (ascii "k")).value = ascii "xy") := by
  constructor
  · have hround : Rounds (intentOnK .append (ascii "x")) (ascii "") (ascii "x") :=
      fun _ => ⟨_, _, _, _, rfl, rfl, rfl, rfl⟩
    have hidle : Rounds (intentOnK .append (ascii "")) (ascii "x") (ascii "x") :=
      fun _ => ⟨_, _, _, _, rfl, rfl, rfl, rfl⟩
    obtain ⟨committed, s, hruns, hlives, hvalue⟩ :=
      runsOnce_aroundVersions hround hidle rfl rfl (2 ^ 64 - 1) (by decide)
    refine ⟨committed, s, hruns, named_aroundVersions rfl rfl _,
      fun c hc intent hintent => ?_, ?_, hvalue⟩
    · rcases mem_lives_aroundVersions hlives hc hintent with rfl | rfl <;> decide
    · have htext : payloads [intentOnK .append (ascii "x")] = ascii "x" := by decide
      exact committedText_of_lives htext (by decide) hlives
  · have hsome :
        ((openOver ℕ (ascii "")).follow (misnamed .append (ascii "x") (ascii "y"))).isSome =
        true := by
      decide +kernel
    exact ⟨_, _, ⟨by decide, by simp [misnamed, writeK, Move.Spares], (Option.some_get hsome).symm⟩,
      by decide +kernel, by decide +kernel, by decide +kernel⟩

end DataAgentSystem.Concurrency
