import DataAgentSystem.AgentTxn.CommitFootprint
import DataAgentSystem.AgentTxn.CountedCommit
import DataAgentSystem.AgentTxn.SummedDeltas
import DataAgentSystem.Concurrency.RebasedCommits
import Mathlib.Algebra.BigOperators.ModEq

/-! Transactions on a store without batches, each with an artifact of its own. Commits
and recoveries take one step for each of their calls, and any of them may crash between
two calls. Recovery tells by value and version alone whether a write was made for its
transaction. While that does not deceive it, a counter ends with the deltas of exactly
the transactions that are committed. -/

namespace DataAgentSystem.Concurrency

open Text Intent Cache Branch Storage Interaction Containers AuthoredLog AgentTxn
  AgentTxnManager

variable {ι : Type}

/-- How far a transaction has got. -/
inductive Life where
  | working (txn : AgentTxnContext)
  | committing (txn : AgentTxnContext) (rest : Prog (Except Bytes Bool × AgentTxnContext))
  | crashed (txn : AgentTxnContext)
  | recovering (txn : AgentTxnContext) (rest : Prog (Bool × FallbackRecoveryResult))

namespace Life

/-- The transaction as it was when its commit was called. -/
def txn : Life → AgentTxnContext
  | .working txn | .committing txn _ | .crashed txn | .recovering txn _ => txn

def path (life : Life) : Bytes := life.txn.fallbackCommit.artifactPath

def nextCall : Life → Option Call
  | .committing _ (.call op _) | .recovering _ (.call op _) => some op
  | _ => none

/-- Its commit has returned true. -/
def succeeded : Life → Bool
  | .committing _ (.ret (.ok committed, _)) => committed
  | _ => false

/-- Its last recovery has returned true. -/
def recovered : Life → Bool
  | .recovering _ (.ret (continue_, _)) => continue_
  | _ => false

/-- What its deltas on the key come to. -/
def owed (k : Bytes) (life : Life) : ℤ := deltaSum (liveInWinner life.txn k)

end Life

/-- Transactions on one store, with the record of who has put what. -/
structure Fleet (ι : Type) where
  ledger : Ledger ι
  lives : ι → Life

inductive FleetMove (ι : Type) where
  | operate (i : ι) (op : TxnOp)
  | commit (i : ι)
  | call (i : ι)
  | crash (i : ι)
  | recover (i : ι) (result : FallbackRecoveryResult)
  | foreign (op : Call)

/-- The artifact at a path, as recovery would read it. -/
def artifactOnDisk (path : Bytes) (w : World) : Option FallbackCommitArtifact :=
  (w.files.lookup path).map fun contents => (parseFallbackCommitArtifact (some contents) {}).2

theorem artifactOnDisk_of_onDisk {path : Bytes} {a : FallbackCommitArtifact} {w : World}
    (h : OnDisk path a w) : artifactOnDisk path w = some a.recounted := by
  rw [artifactOnDisk, show w.files.lookup path = some a.text from h, Option.map_some,
    parseFallbackCommitArtifact_recounted]

namespace Fleet

section Steps

variable [DecidableEq ι]

def setLife (s : Fleet ι) (i : ι) (life : Life) (ledger : Ledger ι) : Fleet ι :=
  { ledger, lives := Function.update s.lives i life }

@[simp] theorem lives_setLife_self (s : Fleet ι) (i : ι) (life : Life) (ledger : Ledger ι) :
    (s.setLife i life ledger).lives i = life := Function.update_self ..

@[simp] theorem lives_setLife_of_ne (s : Fleet ι) {i j : ι} (life : Life) (ledger : Ledger ι)
    (hj : j ≠ i) : (s.setLife i life ledger).lives j = s.lives j := Function.update_of_ne hj ..

/-- One step; none where the move is not possible. -/
def step (s : Fleet ι) : FleetMove ι → Option (Fleet ι)
  | .operate i op =>
    match s.lives i with
    | .working txn =>
      let ((txn', _), world) := (op.perform txn).run (handle .nonBatchMemory) s.ledger.world
      some (s.setLife i (.working txn') { s.ledger with world })
    | _ => none
  | .commit i =>
    match s.lives i with
    | .working txn =>
      some (s.setLife i (.committing txn (selectWinnerAndCommit txn)) s.ledger)
    | _ => none
  | .call i =>
    match s.lives i with
    | .committing txn (.call op next) =>
      let (r, ledger) := s.ledger.answer i op
      some (s.setLife i (.committing txn (next r)) ledger)
    | .recovering txn (.call op next) =>
      let (r, ledger) := s.ledger.answer i op
      some (s.setLife i (.recovering txn (next r)) ledger)
    | _ => none
  | .crash i =>
    match s.lives i with
    | .committing txn _ | .recovering txn _ => some (s.setLife i (.crashed txn) s.ledger)
    | _ => none
  | .recover i result =>
    match s.lives i with
    | .crashed txn =>
      some (s.setLife i (.recovering txn
        (recoverFallbackCommitArtifact txn.fallbackCommit.artifactPath result)) s.ledger)
    | _ => none
  | .foreign op =>
    some { s with ledger :=
      { s.ledger with world := (handle .nonBatchMemory op s.ledger.world).2 } }

/-- Some moves, each allowed where it is made. -/
inductive RunsTo (allowed : Fleet ι → FleetMove ι → Prop) (s₀ : Fleet ι) : Fleet ι → Prop
  | start : RunsTo allowed s₀ s₀
  | move {s s' : Fleet ι} (m : FleetMove ι) :
      RunsTo allowed s₀ s → allowed s m → s.step m = some s' → RunsTo allowed s₀ s'

/-- The fleet after some moves, if they are possible and allowed. -/
def follow (allowed : Fleet ι → FleetMove ι → Prop) [∀ s m, Decidable (allowed s m)]
    (s : Fleet ι) : List (FleetMove ι) → Option (Fleet ι)
  | [] => some s
  | m :: moves => if allowed s m then (s.step m).bind fun s' => s'.follow allowed moves else none

theorem runsTo_of_follow {allowed : Fleet ι → FleetMove ι → Prop}
    [∀ s m, Decidable (allowed s m)] {s₀ s s' : Fleet ι} {moves : List (FleetMove ι)}
    (h : RunsTo allowed s₀ s) (hfollow : s.follow allowed moves = some s') :
    RunsTo allowed s₀ s' := by
  induction moves generalizing s with
  | nil =>
    cases hfollow
    exact h
  | cons m moves ih =>
    rw [follow] at hfollow
    split at hfollow
    next hm =>
      obtain ⟨t, hstep, hrest⟩ := Option.bind_eq_some_iff.1 hfollow
      exact ih (h.move m hm hstep) hrest
    next => cases hfollow

/-- Where the moves lead, if they are possible and allowed. -/
def after (allowed : Fleet ι → FleetMove ι → Prop) [∀ s m, Decidable (allowed s m)]
    (s : Fleet ι) (moves : List (FleetMove ι)) : Fleet ι :=
  (s.follow allowed moves).getD s

theorem runsTo_after (allowed : Fleet ι → FleetMove ι → Prop) [∀ s m, Decidable (allowed s m)]
    (s : Fleet ι) (moves : List (FleetMove ι)) (h : (s.follow allowed moves).isSome = true) :
    RunsTo allowed s (s.after allowed moves) := by
  obtain ⟨s', hfollow⟩ := Option.isSome_iff_exists.1 h
  rw [after, hfollow]
  exact runsTo_of_follow .start hfollow

end Steps

/-- Fresh transactions, each with the path of an artifact that is not there yet. -/
structure Initial (s : Fleet ι) : Prop where
  fresh : ∀ i, ∃ txnId taskId fallbackCommit,
    s.lives i = .working { begin_ txnId taskId with fallbackCommit }
  paths : ∀ i, (s.lives i).path ≠ []
  apart : ∀ i j, i ≠ j → (s.lives i).path ≠ (s.lives j).path
  absent : ∀ i, s.ledger.world.files.lookup (s.lives i).path = none
  puts : s.ledger.puts = []

/-- The moves of a run in which every intent names its object, only deltas are committed on
the key, and nobody else touches the key or the artifacts. -/
def OnlyDeltas (k : Bytes) (s : Fleet ι) : FleetMove ι → Prop
  | .operate i op => (Move.act (.operate i op)).Named
  | .commit i => ∀ intent ∈ liveInWinner (s.lives i).txn k, IsDelta intent
  | .foreign op => Avoids k op ∧ ∀ i, (s.lives i).path ∉ op.touched
  | _ => True

/-- Where the key is as the artifact of the transaction is to leave it, it was put there for
the transaction. -/
def FindsOwn (k : Bytes) (s : Fleet ι) (i : ι) : Prop :=
  ∀ a ∈ artifactOnDisk (s.lives i).path s.ledger.world, ∀ e ∈ a.entries, e.key = k →
    e.matchesTarget (s.ledger.world.store.get k) = true →
    (s.ledger.on k).getLast?.map Prod.fst = some i

/-- Who gets the key is not deceived by what another one has put there. -/
def TellsApart (k : Bytes) (s : Fleet ι) : FleetMove ι → Prop
  | .call i => (s.lives i).nextCall = some (.get k) → s.FindsOwn k i
  | _ => True

/-- The moves of a run that the counter survives. -/
def Undeceived (k : Bytes) (s : Fleet ι) (m : FleetMove ι) : Prop :=
  s.OnlyDeltas k m ∧ s.TellsApart k m

/-- The commit of the transaction has returned true, or its artifact says committed. -/
def Committed (s : Fleet ι) (i : ι) : Prop :=
  (s.lives i).succeeded = true ∨
    (artifactOnDisk (s.lives i).path s.ledger.world).map (·.phase) = some .committed

/-- Nothing is left to be done about the transaction. -/
def Concluded (s : Fleet ι) (i : ι) : Prop :=
  (s.lives i).succeeded = true ∨ (s.lives i).recovered = true ∨
    ∀ a ∈ artifactOnDisk (s.lives i).path s.ledger.world,
      a.phase = .committed ∨ a.phase = .rolledBack

section Checks

variable (k : Bytes) (s : Fleet ι)

instance (i : ι) (op : TxnOp) : Decidable (Move.act (.operate i op)).Named :=
  match op with
  | .write _ objectId _ intent => inferInstanceAs (Decidable (intent.objectId = objectId))
  | .createBranch _ | .read _ _ | .savepoint _ _ | .rollbackToSavepoint _ _
  | .stageBranch _ _ _ | .abort => .isTrue trivial

instance [Fintype ι] : DecidablePred (OnlyDeltas k s)
  | .operate i op => inferInstanceAs (Decidable (Move.act (.operate i op)).Named)
  | .commit i =>
    inferInstanceAs (Decidable (∀ intent ∈ liveInWinner (s.lives i).txn k, IsDelta intent))
  | .foreign op =>
    inferInstanceAs (Decidable (Avoids k op ∧ ∀ i, (s.lives i).path ∉ op.touched))
  | .call _ | .crash _ | .recover _ _ => .isTrue trivial

variable [DecidableEq ι]

instance : DecidablePred (FindsOwn k s) := fun i =>
  inferInstanceAs (Decidable (∀ a ∈ artifactOnDisk (s.lives i).path s.ledger.world,
    ∀ e ∈ a.entries, e.key = k → e.matchesTarget (s.ledger.world.store.get k) = true →
      (s.ledger.on k).getLast?.map Prod.fst = some i))

instance : DecidablePred (TellsApart k s)
  | .call i =>
    inferInstanceAs (Decidable ((s.lives i).nextCall = some (.get k) → s.FindsOwn k i))
  | .operate _ _ | .commit _ | .crash _ | .recover _ _ | .foreign _ => .isTrue trivial

instance [Fintype ι] : DecidablePred (Undeceived k s) := fun m =>
  inferInstanceAs (Decidable (s.OnlyDeltas k m ∧ s.TellsApart k m))

instance : DecidablePred (Committed s) := fun i =>
  inferInstanceAs (Decidable ((s.lives i).succeeded = true ∨
    (artifactOnDisk (s.lives i).path s.ledger.world).map (·.phase) = some .committed))

instance : DecidablePred (Concluded s) := fun i =>
  inferInstanceAs (Decidable ((s.lives i).succeeded = true ∨ (s.lives i).recovered = true ∨
    ∀ a ∈ artifactOnDisk (s.lives i).path s.ledger.world,
      a.phase = .committed ∨ a.phase = .rolledBack))

/-- What the committed transactions owe on the key. -/
def committedSum [Fintype ι] : ℤ := ∑ i, if s.Committed i then (s.lives i).owed k else 0

end Checks

end Fleet

/-! ### What holds in every run -/

section Invariant

variable {k : Bytes} {start : VersionedValue} {hstart : IsInteger start.value}

/-- A transaction among the others, seen from the key. -/
def partyOf (hstart : IsInteger start.value) (k : Bytes) (i : ι) (life : Life) : Party ι where
  actor := i
  path := life.path
  key := k
  start := start
  added := life.owed k
  integer := hstart

variable {p : Party ι} {x y : Ledger ι} {life : Life}

/-- What is known of a transaction: whatever the others do, it keeps count. -/
def Life.Upholds (p : Party ι) (x : Ledger ι) : Life → Prop
  | .working txn => AllSynced (goodBase IsInteger p.key) txn ∧ p.Unprepared x
  | .committing _ rest =>
    rest.Only (OwnFile p.path) ∧ rest.Withstands p.among p.Inv x fun out y =>
      out.1 = .ok true → p.InPhase .committed y
  | .crashed _ => p.Inv x
  | .recovering _ rest =>
    rest.Only (OwnFile p.path) ∧ rest.Withstands p.among p.Inv x fun out y =>
      out.1 = true → p.Settled y

theorem Life.Upholds.inv (h : life.Upholds p x) : p.Inv x := by
  cases life with
  | working txn => exact .inl h.2
  | committing txn rest => exact h.2.now
  | crashed txn => exact h
  | recovering txn rest => exact h.2.now

theorem Life.Upholds.others_act (h : life.Upholds p x) (ho : p.Others x y) :
    life.Upholds p y := by
  cases life with
  | working txn => exact ⟨h.1, h.2.others_act ho⟩
  | committing txn rest =>
    exact ⟨h.1, Party.withstands_others_act
      (fun _ _ _ hout ho hok => (hout hok).others_act ho) h.2 ho⟩
  | crashed txn => exact Party.Inv.others_act h ho
  | recovering txn rest =>
    exact ⟨h.1, Party.withstands_others_act
      (fun _ _ _ hout ho hok => Party.Settled.others_act (hout hok) ho) h.2 ho⟩

/-- The record counts the puts on the key, and every transaction keeps count. -/
structure FleetInv (hstart : IsInteger start.value) (k : Bytes) (s : Fleet ι) : Prop where
  tells : Tells k start s.ledger
  upholds : ∀ i, (s.lives i).Upholds (partyOf hstart k i (s.lives i)) s.ledger
  paths : ∀ i, (s.lives i).path ≠ []
  apart : ∀ i j, i ≠ j → (s.lives i).path ≠ (s.lives j).path

theorem fleetInv_initial {s : Fleet ι} (h : s.Initial)
    (hinteger : IsInteger (s.ledger.world.store.get k).value) : FleetInv hinteger k s := by
  have hputs : s.ledger.on k = [] := by rw [Ledger.on, h.puts, List.filterMap_nil]
  have htells : Tells k (s.ledger.world.store.get k) s.ledger := by
    refine ⟨?_, by rw [hputs]; exact Nat.two_pow_pos 64, by simp [hputs]⟩
    have hexists : (s.ledger.world.store.get k).exists_ = true := by
      by_contra hmissing
      rw [Bool.not_eq_true] at hmissing
      rw [MemoryKVStore.version_of_not_exists hmissing] at hinteger
      exact absurd hinteger (by decide)
    rw [hputs, ← hexists]
    exact congrArg (VersionedValue.mk _ · _) (UInt64.add_zero _).symm
  refine ⟨htells, fun i => ?_, h.paths, h.apart⟩
  obtain ⟨txnId, taskId, fallbackCommit, hlife⟩ := h.fresh i
  have habsent := h.absent i
  rw [hlife] at habsent ⊢
  refine ⟨fun branch hbranch => absurd hbranch List.not_mem_nil, htells, habsent,
    fun put hput => ?_⟩
  rw [show s.ledger.on (partyOf hinteger k i _).key = [] from hputs] at hput
  exact absurd hput List.not_mem_nil

section Moves

variable [DecidableEq ι] {s s' : Fleet ι} {i : ι}

/-- It is enough to look at the transaction that a move takes on. -/
theorem FleetInv.setLife (h : FleetInv hstart k s) (hpath : life.path = (s.lives i).path)
    (htells : Tells k start y)
    (hothers : ∀ j, j ≠ i → (partyOf hstart k j (s.lives j)).Others s.ledger y)
    (hlife : life.Upholds (partyOf hstart k i life) y) :
    FleetInv hstart k (s.setLife i life y) := by
  have hlives : ∀ j, ((s.setLife i life y).lives j).path = (s.lives j).path := by
    intro j
    by_cases hj : j = i
    · subst hj
      rw [Fleet.lives_setLife_self, hpath]
    · rw [Fleet.lives_setLife_of_ne _ _ _ hj]
  refine ⟨htells, fun j => ?_, fun j => ?_, fun j j' hne => ?_⟩
  · by_cases hj : j = i
    · subst hj
      rw [Fleet.lives_setLife_self]
      exact hlife
    · rw [Fleet.lives_setLife_of_ne _ _ _ hj]
      exact (h.upholds j).others_act (hothers j hj)
  · rw [hlives]
    exact h.paths j
  · rw [hlives, hlives]
    exact h.apart j j' hne

/-- A move that takes one transaction on and leaves the rest as it is. -/
theorem FleetInv.setLife_alone (h : FleetInv hstart k s) (hpath : life.path = (s.lives i).path)
    (hlife : life.Upholds (partyOf hstart k i life) s.ledger) :
    FleetInv hstart k (s.setLife i life s.ledger) := by
  refine h.setLife hpath h.tells (fun j _ => ?_) hlife
  exact Party.Others.refl (p := partyOf hstart k j (s.lives j)) h.tells

theorem fallbackCommit_perform (op : TxnOp) (txn : AgentTxnContext) (w : World) :
    ((op.perform txn).run (handle .nonBatchMemory) w).1.1.fallbackCommit = txn.fallbackCommit := by
  cases op with
  | read branchId objectId =>
    simp only [TxnOp.perform, Program.run_bind, Program.pure_eq_ret, Program.run_ret]
    exact ((AgentTxnContext.returns_read txn branchId objectId).interfered
      (Program.interfered_run _ w)).fallbackCommit
  | write branchId objectId objectType intent =>
    simp only [TxnOp.perform, Program.run_bind, Program.pure_eq_ret, Program.run_ret]
    exact ((AgentTxnContext.returns_write txn branchId objectId objectType intent).interfered
      (Program.interfered_run _ w)).fallbackCommit
  | savepoint branchId savepointId =>
    exact (AgentTxnContext.sameBesideBranches_savepoint txn branchId savepointId).fallbackCommit
  | rollbackToSavepoint branchId savepointId =>
    exact (AgentTxnContext.sameBesideBranches_rollbackToSavepoint txn branchId
      savepointId).fallbackCommit
  | stageBranch branchId score summary =>
    exact (AgentTxnContext.sameBesideBranches_stageBranch txn branchId score
      summary).fallbackCommit
  | createBranch branchId | abort => rfl

theorem FleetInv.operate (h : FleetInv hstart k s) {op : TxnOp}
    (hnamed : (Move.act (.operate i op)).Named) (hstep : s.step (.operate i op) = some s') :
    FleetInv hstart k s' := by
  simp only [Fleet.step] at hstep
  split at hstep
  next txn hlife =>
    cases hstep
    have hi := h.upholds i
    rw [hlife] at hi
    obtain ⟨hsynced, hun⟩ := hi
    rw [run_perform_world]
    have hpath := congrArg FallbackCommitConfig.artifactPath
      (fallbackCommit_perform op txn s.ledger.world)
    refine h.setLife_alone (by rw [hlife]; exact hpath) ⟨?_, hun.tells, ?_, hun.others⟩
    · refine synced_perform hsynced hnamed fun j hj => ?_
      rw [hj]
      exact h.tells.isInteger hstart
    · exact (congrArg s.ledger.world.files.lookup hpath).trans hun.file
  next => cases hstep

theorem FleetInv.commit (h : FleetInv hstart k s) (hm : s.OnlyDeltas k (.commit i))
    (hstep : s.step (.commit i) = some s') : FleetInv hstart k s' := by
  simp only [Fleet.step] at hstep
  split at hstep
  next txn hlife =>
    cases hstep
    have hi := h.upholds i
    have hdeltas : ∀ intent ∈ liveInWinner (s.lives i).txn k, IsDelta intent := hm
    have hne := h.paths i
    rw [hlife] at hi hdeltas hne
    obtain ⟨hsynced, hun⟩ := hi
    let p := partyOf hstart k i (.committing txn (selectWinnerAndCommit txn))
    have hcommits : p.Commits (goodBase IsInteger k) txn := by
      refine ⟨rfl, fun winner hs => ?_⟩
      have hlive := liveInWinner_of_selects hs k
      exact ⟨hsynced winner (BranchManager.mem_of_findBranch hs.2), fun base hbase => hbase rfl,
        fun intent hintent => hdeltas intent (hlive ▸ hintent), congrArg deltaSum hlive⟩
    have hown : (selectWinnerAndCommit txn).Only (OwnFile p.path) :=
      (only_selectWinnerAndCommit txn).mono fun op hop path hpath => (hop path hpath).1
    exact h.setLife_alone (by rw [hlife]; rfl) ⟨hown, Party.withstands_selectWinnerAndCommit
      hcommits hne ⟨hun.tells, hun.file, hun.others⟩⟩
  next => cases hstep

theorem FleetInv.crash (h : FleetInv hstart k s) (hstep : s.step (.crash i) = some s') :
    FleetInv hstart k s' := by
  have hinv := (h.upholds i).inv
  simp only [Fleet.step] at hstep
  split at hstep
  next txn rest hlife =>
    cases hstep
    rw [hlife] at hinv
    exact h.setLife_alone (by rw [hlife]; rfl) hinv
  next txn rest hlife =>
    cases hstep
    rw [hlife] at hinv
    exact h.setLife_alone (by rw [hlife]; rfl) hinv
  next => cases hstep

theorem FleetInv.recover (h : FleetInv hstart k s) {result : FallbackRecoveryResult}
    (hstep : s.step (.recover i result) = some s') : FleetInv hstart k s' := by
  have hinv := (h.upholds i).inv
  simp only [Fleet.step] at hstep
  split at hstep
  next txn hlife =>
    cases hstep
    rw [hlife] at hinv
    exact h.setLife_alone (by rw [hlife]; rfl)
      ⟨only_recover_touched _ result, Party.withstands_recover hinv⟩
  next => cases hstep

omit [DecidableEq ι] in
/-- A call of one transaction is what the others are prepared for. -/
theorem FleetInv.answer (h : FleetInv hstart k s) (hp : p = partyOf hstart k i (s.lives i))
    {α : Type} {op : Call} {next : op.Resp → Prog α} {R : α → Ledger ι → Prop}
    (honly : (Program.call op next).Only (OwnFile p.path))
    (hrest : (Program.call op next).Withstands p.among p.Inv s.ledger R)
    (hown : op = .get k → s.FindsOwn k i)
    (hfew : ((s.ledger.answer i op).2.on k).length < 2 ^ 64) :
    (next (s.ledger.answer i op).1).Withstands p.among p.Inv (s.ledger.answer i op).2 R ∧
      Tells k start (s.ledger.answer i op).2 ∧
      ∀ j, j ≠ i → (partyOf hstart k j (s.lives j)).Others s.ledger (s.ledger.answer i op).2 := by
  subst hp
  have hnext := hrest.2 _ _ ⟨s.ledger, Party.Others.refl h.tells,
    fun hop a e hdisk => hown hop a.recounted (artifactOnDisk_of_onDisk hdisk) e, rfl, hfew⟩
  have htells := hnext.now.tells
  obtain ⟨new, hon, hactor⟩ := s.ledger.exists_on_answer i op k
  refine ⟨hnext, htells, fun j hj => ⟨?_, ⟨new, hon, fun put hput hput' => ?_⟩, htells⟩⟩
  · refine (sameFile_handle (fun htouched => ?_) s.ledger.world).1
    exact h.apart j i hj (honly.1 _ htouched)
  · exact hj (hput'.symm.trans (hactor put hput))

theorem FleetInv.call (h : FleetInv hstart k s) (hm : s.TellsApart k (.call i))
    (hstep : s.step (.call i) = some s') (hfew : (s'.ledger.on k).length < 2 ^ 64) :
    FleetInv hstart k s' := by
  have hi := h.upholds i
  have hown : (s.lives i).nextCall = some (.get k) → s.FindsOwn k i := hm
  simp only [Fleet.step] at hstep
  split at hstep
  next txn op next hlife =>
    cases hstep
    rw [hlife] at hi hown
    obtain ⟨hnext, htells, hothers⟩ := h.answer (by rw [hlife]) hi.1 hi.2
      (fun hop => hown (congrArg some hop)) hfew
    exact h.setLife (by rw [hlife]; rfl) htells hothers ⟨hi.1.2 _, hnext⟩
  next txn op next hlife =>
    cases hstep
    rw [hlife] at hi hown
    obtain ⟨hnext, htells, hothers⟩ := h.answer (by rw [hlife]) hi.1 hi.2
      (fun hop => hown (congrArg some hop)) hfew
    exact h.setLife (by rw [hlife]; rfl) htells hothers ⟨hi.1.2 _, hnext⟩
  next => cases hstep

theorem FleetInv.foreign (h : FleetInv hstart k s) {op : Call} (hm : s.OnlyDeltas k (.foreign op))
    (hstep : s.step (.foreign op) = some s') : FleetInv hstart k s' := by
  obtain ⟨havoids, htouched⟩ := hm
  cases hstep
  have htells : Tells k start
      { s.ledger with world := (handle .nonBatchMemory op s.ledger.world).2 } :=
    ⟨(get_handle_of_avoids havoids _).trans h.tells.holds, h.tells.few, h.tells.integers⟩
  refine ⟨htells, fun i => (h.upholds i).others_act ⟨?_, ⟨[], ?_, ?_⟩, htells⟩, h.paths, h.apart⟩
  · exact (sameFile_handle (htouched i) s.ledger.world).1
  · exact (List.append_nil _).symm
  · exact fun put hput => absurd hput List.not_mem_nil

theorem FleetInv.step {m : FleetMove ι} (h : FleetInv hstart k s) (hm : s.OnlyDeltas k m)
    (hown : s.TellsApart k m) (hstep : s.step m = some s')
    (hfew : (s'.ledger.on k).length < 2 ^ 64) : FleetInv hstart k s' := by
  cases m with
  | operate i op => exact h.operate hm hstep
  | commit i => exact h.commit hm hstep
  | call i => exact h.call hown hstep hfew
  | crash i => exact h.crash hstep
  | recover i result => exact h.recover hstep
  | foreign op => exact h.foreign hm hstep

/-- Nothing is taken out of the record. -/
theorem length_on_le_of_step {m : FleetMove ι} (hstep : s.step m = some s') :
    (s.ledger.on k).length ≤ (s'.ledger.on k).length := by
  have hcall : ∀ i op, (s.ledger.on k).length ≤ ((s.ledger.answer i op).2.on k).length := by
    intro i op
    obtain ⟨new, hon, -⟩ := s.ledger.exists_on_answer i op k
    rw [hon, List.length_append]
    exact Nat.le_add_right _ _
  cases m with
  | call i =>
    simp only [Fleet.step] at hstep
    split at hstep
    next txn op next hlife =>
      cases hstep
      exact hcall i op
    next txn op next hlife =>
      cases hstep
      exact hcall i op
    next => cases hstep
  | foreign op =>
    cases hstep
    exact le_rfl
  | operate i op | commit i | crash i | recover i result =>
    simp only [Fleet.step] at hstep
    split at hstep <;> cases hstep <;> exact le_rfl

theorem fleetInv_of_runsTo {s₀ : Fleet ι} (h₀ : s₀.Initial)
    (hinteger : IsInteger (s₀.ledger.world.store.get k).value)
    (hruns : Fleet.RunsTo (Fleet.Undeceived k) s₀ s) (hfew : (s.ledger.on k).length < 2 ^ 64) :
    FleetInv hinteger k s := by
  induction hruns with
  | start => exact fleetInv_initial h₀ hinteger
  | move m _ hm hstep ih =>
    have hbefore := Nat.lt_of_le_of_lt (length_on_le_of_step hstep) hfew
    exact (ih hbefore).step hm.1 hm.2 hstep hfew

end Moves

/-! ### How it ends -/

section Ends

theorem artifactOnDisk_of_inPhase {phase : FallbackCommitPhase} (h : p.InPhase phase x) :
    ∃ a, artifactOnDisk p.path x.world = some a ∧ a.phase = phase := by
  obtain ⟨entries, progress, -, hat, -⟩ := h
  obtain ⟨a, hdisk, -, hphase⟩ := hat.disk
  exact ⟨a.recounted, artifactOnDisk_of_onDisk hdisk, hphase⟩

theorem Life.Upholds.inPhase (h : life.Upholds p x) (hsucceeded : life.succeeded = true) :
    p.InPhase .committed x := by
  cases life with
  | committing txn rest =>
    cases rest with
    | ret out =>
      obtain ⟨result, txn'⟩ := out
      cases result with
      | error what => cases hsucceeded
      | ok committed => exact h.2.2 (congrArg Except.ok hsucceeded)
    | call op next => cases hsucceeded
  | working txn | crashed txn | recovering txn rest => cases hsucceeded

theorem Life.Upholds.settled (h : life.Upholds p x) (hrecovered : life.recovered = true) :
    p.Settled x := by
  cases life with
  | recovering txn rest =>
    cases rest with
    | ret out => exact h.2.2 hrecovered
    | call op next => cases hrecovered
  | working txn | crashed txn | committing txn rest => cases hrecovered

variable {s : Fleet ι} {i : ι}

/-- A transaction that is concluded is committed on disk, or it has come to nothing. -/
theorem FleetInv.concluded (h : FleetInv hstart k s) (hdone : s.Concluded i) :
    (s.Committed i ∧ (partyOf hstart k i (s.lives i)).InPhase .committed s.ledger) ∨
      (¬s.Committed i ∧ ((partyOf hstart k i (s.lives i)).Unprepared s.ledger ∨
        (partyOf hstart k i (s.lives i)).InPhase .rolledBack s.ledger)) := by
  have hi := h.upholds i
  by_cases hsucceeded : (s.lives i).succeeded = true
  · exact .inl ⟨.inl hsucceeded, hi.inPhase hsucceeded⟩
  · have hphase : ∀ {phase}, (partyOf hstart k i (s.lives i)).InPhase phase s.ledger →
        (s.Committed i ↔ phase = .committed) := by
      intro phase hphase
      obtain ⟨a, hdisk, rfl⟩ := artifactOnDisk_of_inPhase hphase
      rw [Fleet.Committed, or_iff_right hsucceeded,
        show (s.lives i).path = (partyOf hstart k i (s.lives i)).path from rfl, hdisk]
      exact ⟨fun hsome => Option.some.inj hsome, fun hcommitted => congrArg some hcommitted⟩
    have hsettled : (partyOf hstart k i (s.lives i)).Settled s.ledger →
        (s.Committed i ∧ (partyOf hstart k i (s.lives i)).InPhase .committed s.ledger) ∨
          (¬s.Committed i ∧ ((partyOf hstart k i (s.lives i)).Unprepared s.ledger ∨
            (partyOf hstart k i (s.lives i)).InPhase .rolledBack s.ledger)) := by
      rintro (hcommitted | hback)
      · exact .inl ⟨(hphase hcommitted).2 rfl, hcommitted⟩
      · exact .inr ⟨fun hcommitted => (by simpa using (hphase hback).1 hcommitted), .inr hback⟩
    rcases hdone with hsucceeded' | hrecovered | hfinal
    · exact absurd hsucceeded' hsucceeded
    · exact hsettled (hi.settled hrecovered)
    · rcases hi.inv with hun | ⟨phase, hin⟩
      · refine .inr ⟨?_, .inl hun⟩
        rintro (hsucceeded' | hcommitted)
        · exact hsucceeded hsucceeded'
        · rw [artifactOnDisk, show s.ledger.world.files.lookup (s.lives i).path = none from
            hun.file] at hcommitted
          cases hcommitted
      · obtain ⟨a, hdisk, rfl⟩ := artifactOnDisk_of_inPhase hin
        rcases hfinal a hdisk with hcommitted | hback
        · exact hsettled (.inl (hcommitted ▸ hin))
        · exact hsettled (.inr (hback ▸ hin))

variable [DecidableEq ι]

/-- A transaction that is concluded has added what it owes if it is committed, and else
nothing. -/
theorem FleetInv.contributed (h : FleetInv hstart k s) (hdone : s.Concluded i) :
    (partyOf hstart k i (s.lives i)).contributed s.ledger ≡
      if s.Committed i then (s.lives i).owed k else 0 [ZMOD 2 ^ 64] := by
  rcases h.concluded hdone with ⟨hcommitted, hin⟩ | ⟨hnot, hun | hback⟩
  · rw [if_pos hcommitted]
    exact hin.contributed_of_committed
  · rw [if_neg hnot, hun.contributed_eq]
  · rw [if_neg hnot, hback.contributed_of_rolledBack]

/-- Unless a commit or a recovery takes another one's write for its own, a counter that every
transaction is done with spells its first value plus the deltas of the committed ones. -/
theorem delta_exactlyOnce [Fintype ι] {s₀ s : Fleet ι} (k : Bytes) (h₀ : s₀.Initial)
    (hinteger : IsInteger (s₀.ledger.world.store.get k).value)
    (hruns : Fleet.RunsTo (Fleet.Undeceived k) s₀ s) (hdone : ∀ i, s.Concluded i)
    (hfew : (s.ledger.on k).length < 2 ^ 64)
    (hlow : -2 ^ 63 ≤ intValue (s₀.ledger.world.store.get k).value + s.committedSum k)
    (hhigh : intValue (s₀.ledger.world.store.get k).value + s.committedSum k < 2 ^ 63) :
    (parseInt (s.ledger.world.store.get k).value).map Int64.toInt =
      some (intValue (s₀.ledger.world.store.get k).value + s.committedSum k) := by
  have h := fleetInv_of_runsTo h₀ hinteger hruns hfew
  have hsum : intValue (s.ledger.world.store.get k).value ≡
      intValue (s₀.ledger.world.store.get k).value + s.committedSum k [ZMOD 2 ^ 64] := by
    rw [h.tells.holds, measure_standing intValue]
    exact (Int.ModEq.sum fun i _ => h.contributed (hdone i)).add_left _
  rw [parseInt_of_isInteger (h.tells.isInteger hinteger), Option.map_some,
    (toInt_ofInt_eq_iff ⟨hlow, hhigh⟩).2 hsum]

/-- A transaction for each name over a store that holds the counter, with artifacts of
these names. -/
def fleetOver (ι : Type) (names : ι → Bytes) (value : Bytes) : Fleet ι where
  ledger := { world := { store := MemoryKVStore.write {} (ascii "k") value }, puts := [] }
  lives i := .working { begin_ (ascii "txn:" ++ names i) (names i) with
    fallbackCommit := { artifactPath := names i } }

omit [DecidableEq ι] in
theorem initial_fleetOver {names : ι → Bytes} {value : Bytes} (hne : ∀ i, names i ≠ [])
    (hinj : ∀ i j, i ≠ j → names i ≠ names j) : (fleetOver ι names value).Initial :=
  ⟨fun _ => ⟨_, _, _, rfl⟩, hne, hinj, fun _ => rfl, rfl⟩

/-- A transaction adds a number to the counter and calls its commit. -/
def adds (i : ι) (payload : Bytes) : List (FleetMove ι) :=
  [.operate i (.createBranch (ascii "b")),
    .operate i (.write (ascii "b") (ascii "k") .generic (intentOnK .delta payload)), .commit i]

def calls (i : ι) (n : ℕ) : List (FleetMove ι) := List.replicate n (.call i)

def nameOf : Fin 3 → Bytes
  | 0 => ascii "t"
  | 1 => ascii "u"
  | 2 => ascii "v"

/-- One transaction crashes when it has made its write, another one finds that too late to
prepare anything, and a third one commits after the first one has been recovered. -/
def recoveredBetween : List (FleetMove (Fin 3)) :=
  adds 0 (ascii "1") ++ adds 1 (ascii "100") ++ calls 1 2 ++ calls 0 6 ++
    [.crash 0, .foreign (.put (ascii "j") (ascii "x"))] ++ calls 1 1 ++ [.recover 0 {}] ++
      calls 0 4 ++ adds 2 (ascii "5") ++ calls 2 8

theorem delta_exactlyOnce_recoveredBetween :
    ∃ s, Fleet.RunsTo (Fleet.Undeceived (ascii "k")) (fleetOver (Fin 3) nameOf (ascii "10")) s ∧
      (∀ i, s.Committed i ↔ i ≠ 1) ∧
      (parseInt (s.ledger.world.store.get (ascii "k")).value).map Int64.toInt = some 16 := by
  have hruns := Fleet.runsTo_after (Fleet.Undeceived (ascii "k"))
    (fleetOver (Fin 3) nameOf (ascii "10")) recoveredBetween (by decide +kernel)
  refine ⟨_, hruns, by decide +kernel, ?_⟩
  rw [delta_exactlyOnce (ascii "k") (initial_fleetOver (by decide) (by decide)) (by decide)
    hruns (by decide +kernel) (by decide +kernel) (by decide +kernel) (by decide +kernel)]
  decide +kernel

/-- One transaction crashes before its write, another one makes the same write and commits,
and the third one commits nothing. -/
def mistakenFor : List (FleetMove (Fin 3)) :=
  adds 0 (ascii "1") ++ calls 0 4 ++ [.crash 0] ++ adds 1 (ascii "1") ++ calls 1 8 ++
    [.recover 0 {}] ++ calls 0 4

/-- Recovery takes the write of the other transaction for that of its own: both are committed,
but the counter has gained one delta only. -/
theorem delta_not_exactlyOnce :
    ∃ s, (fleetOver (Fin 3) nameOf (ascii "10")).Initial ∧
      Fleet.RunsTo (Fleet.OnlyDeltas (ascii "k")) (fleetOver (Fin 3) nameOf (ascii "10")) s ∧
      (∀ i, s.Concluded i) ∧ (s.lives 0).recovered = true ∧ (s.lives 1).succeeded = true ∧
      (s.ledger.on (ascii "k")).length = 1 ∧ s.committedSum (ascii "k") = 2 ∧
      (s.ledger.world.store.get (ascii "k")).value = ascii "11" := by
  have hruns := Fleet.runsTo_after (Fleet.OnlyDeltas (ascii "k"))
    (fleetOver (Fin 3) nameOf (ascii "10")) mistakenFor (by decide +kernel)
  exact ⟨_, initial_fleetOver (by decide) (by decide), hruns, by decide +kernel,
    by decide +kernel, by decide +kernel, by decide +kernel, by decide +kernel,
    by decide +kernel⟩

end Ends

end Invariant

end DataAgentSystem.Concurrency
