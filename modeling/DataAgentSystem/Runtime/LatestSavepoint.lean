import DataAgentSystem.Runtime.ResumedTask
import DataAgentSystem.Runtime.WorkHistory

/-! Which savepoint a name means. Names may be used again: a rollback goes back to the first
savepoint of the name that is left, and recovery names the one that was set last. These
are the same moment of the branch exactly if nothing was written between them. -/

namespace DataAgentSystem.Runtime

open Text Intent Cache Branch Storage Interaction AgentTxn

variable {kind : StoreKind} {config : FallbackCommitRuntimeConfig}
  {session : TaskSession} {branch : BranchContext} {branchId savepointId : Bytes}
  {ops : List (SessionOp × World)} {history : List (BranchOp × World)}
  {place moment n : ℕ} {first latest : Savepoint}

/-- The last savepoint of this name that is left, and its place in the list. -/
structure LatestLive (branch : BranchContext) (savepointId : Bytes) (place : ℕ)
    (savepoint : Savepoint) : Prop where
  there : branch.savepoints[place]? = some savepoint
  named : savepoint.savepointId = savepointId
  last : ∀ n s, place < n → branch.savepoints[n]? = some s → s.savepointId ≠ savepointId

/-- The last savepoint that was set in a history, left or not. -/
structure LastSet (history : List (BranchOp × World)) (savepointId : Bytes)
    (moment : ℕ) : Prop where
  sets : ∃ w, history[moment]? = some (.savepoint savepointId, w)
  last : ∀ n id w, moment < n → history[n]? ≠ some (.savepoint id, w)

/-- The branches have the same buffer and the same intents. -/
structure HoldsSame (branch branch' : BranchContext) : Prop where
  writeBuffer : branch.writeBuffer = branch'.writeBuffer
  intentLog : branch.intentLog = branch'.intentLog

/-- From the log of the session recovery means to go back to this savepoint of the branch. -/
structure Designates (path : Bytes) (session : TaskSession) (metadata : List (Bytes × Bytes))
    (branchId savepointId : Bytes) :
    Prop where
  action : (recoverTaskSessionDecision path (writtenArtifact session metadata)).action =
    .resumeFromSavepoint
  branchId : (recoverTaskSessionDecision path (writtenArtifact session metadata)).resumeBranchId =
    branchId
  savepointId :
    (recoverTaskSessionDecision path (writtenArtifact session metadata)).resumeSavepointId =
    savepointId

/-- A rollback to the name restores the moment when the last savepoint of the name that is left
was set; if recovery means that savepoint, then it is the last that was set at all. -/
structure GoesToLatest (kind : StoreKind) (branchId : Bytes) (history : List (BranchOp × World))
    (branch : BranchContext) (savepointId : Bytes) (designated : Prop) : Prop where
  live : ∃ place savepoint moment, LatestLive branch savepointId place savepoint ∧
    SetAt kind branchId history place moment ∧
    HoldsSame (RollbackManager.rollbackToSavepoint branch savepointId).2
      (worked kind branchId (history.take (moment + 1)))
  recovery : designated → ∃ moment, LastSet history savepointId moment ∧
    HoldsSame (RollbackManager.rollbackToSavepoint branch savepointId).2
      (worked kind branchId (history.take (moment + 1)))

/-- The first savepoint of the name that is left has the write position of the last one that is
left and, if recovery means that name, of the last one that was set. -/
structure SetTogether (kind : StoreKind) (branchId : Bytes) (history : List (BranchOp × World))
    (branch : BranchContext) (savepointId : Bytes) (designated : Prop) : Prop where
  live : ∀ first place latest, branch.savepoints.find? (fun s => s.savepointId = savepointId) =
    some first →
    LatestLive branch savepointId place latest → first.writeLogPosition = latest.writeLogPosition
  recovery : designated → ∀ first moment,
    branch.savepoints.find? (fun s => s.savepointId = savepointId) = some first →
    LastSet history savepointId moment →
      first.writeLogPosition = (worked kind branchId (history.take moment)).writeBuffer.size

/-! ### The last savepoint -/

theorem exists_latestLive (h : ∃ s ∈ branch.savepoints, s.savepointId = savepointId) :
    ∃ place savepoint, LatestLive branch savepointId place savepoint := by
  obtain ⟨latest, hlatest⟩ : ∃ s,
      branch.savepoints.reverse.find? (fun s => s.savepointId = savepointId) = some s := by
    rw [← Option.isSome_iff_exists, List.find?_isSome]
    simpa using h
  obtain ⟨hid, front, rest, hsplit, hfront⟩ := List.find?_eq_some_iff_append.1 hlatest
  have hlist : branch.savepoints = rest.reverse ++ latest :: front.reverse := by
    rw [← List.reverse_reverse branch.savepoints, hsplit]
    simp
  refine ⟨rest.length, latest, ?_, by simpa using hid, fun n s hn hs => ?_⟩
  · rw [hlist]
    simp
  · obtain ⟨i, rfl⟩ := Nat.exists_eq_add_of_lt hn
    rw [hlist, List.getElem?_append_right (by simp; omega), List.length_reverse,
      show rest.length + i + 1 - rest.length = i + 1 by omega, List.getElem?_cons_succ] at hs
    simpa using hfront s (List.mem_reverse.1 (List.mem_of_getElem? hs))

theorem LatestLive.unique {place' : ℕ} {latest' : Savepoint}
    (h : LatestLive branch savepointId place latest)
    (h' : LatestLive branch savepointId place' latest') : place = place' ∧ latest = latest' := by
  obtain rfl : place = place' := by
    by_contra hne
    rcases Nat.lt_or_gt_of_ne hne with hlt | hlt
    · exact h.last place' latest' hlt h'.there h'.named
    · exact h'.last place latest hlt h.there h.named
  exact ⟨rfl, Option.some.inj (h.there.symm.trans h'.there)⟩

theorem LastSet.unique {moment' : ℕ} (h : LastSet history savepointId moment)
    (h' : LastSet history savepointId moment') :
    moment = moment' := by
  obtain ⟨w, hset⟩ := h.sets
  obtain ⟨w', hset'⟩ := h'.sets
  by_contra hne
  rcases Nat.lt_or_gt_of_ne hne with hlt | hlt
  · exact h.last moment' savepointId w' hlt hset'
  · exact h'.last moment savepointId w hlt hset

theorem lastSet_snoc (history : List (BranchOp × World)) (savepointId : Bytes) (w : World) :
    LastSet (history ++ [(.savepoint savepointId, w)]) savepointId history.length := by
  refine ⟨⟨w, by simp⟩, fun n id v hn hset => ?_⟩
  have hlt := (List.getElem?_eq_some_iff.1 hset).1
  rw [List.length_append, List.length_singleton] at hlt
  omega

theorem LastSet.snoc (h : LastSet history savepointId moment) {op : BranchOp × World}
    (hop : ∀ id, op.1 ≠ .savepoint id) :
    LastSet (history ++ [op]) savepointId moment := by
  obtain ⟨w, hset⟩ := h.sets
  have hlt := (List.getElem?_eq_some_iff.1 hset).1
  refine ⟨⟨w, by rw [List.getElem?_append_left hlt, hset]⟩, fun n id v hn hset' => ?_⟩
  rcases Nat.lt_or_ge n history.length with hold | hnew
  · rw [List.getElem?_append_left hold] at hset'
    exact h.last n id v hn hset'
  · rw [List.getElem?_append_right hnew] at hset'
    have hmem := List.mem_of_getElem? hset'
    rw [List.mem_singleton] at hmem
    exact hop id (congrArg Prod.fst hmem.symm)

/-! ### What recovery names -/

theorem lastSavepointId_append {events recorded : List TaskEvent}
    (h : ∀ event ∈ recorded, ¬(event.branchId = branchId ∧ event.type = .savepoint)) :
    lastSavepointId (events ++ recorded) branchId = lastSavepointId events branchId := by
  have hnone : recorded.reverse.find?
      (fun event => event.branchId = branchId ∧ event.type = .savepoint) = none := by
    rw [List.find?_eq_none]
    simpa using h
  rw [lastSavepointId, List.reverse_append, List.find?_append, hnone, Option.none_or]
  rfl

theorem lastSavepointId_snoc {events : List TaskEvent} {event : TaskEvent}
    (hbranch : event.branchId = branchId) (htype : event.type = .savepoint) :
    lastSavepointId (events ++ [event]) branchId = event.detail := by
  simp [lastSavepointId, hbranch, htype]

theorem eventType_eq_savepoint {op : SessionOp} (h : op.eventType = .savepoint) :
    ∃ savepointId, op = .savepoint op.branchId savepointId := by
  cases op with
  | savepoint branchId savepointId => exact ⟨savepointId, rfl⟩
  | _ => cases h

theorem eventType_of_toBranchOp {op : SessionOp}
    (h : op.toBranchOp = some (.savepoint savepointId)) :
    op.eventType = .savepoint := by
  cases op with
  | savepoint branchId savepointId => rfl
  | _ => cases h

/-- The last savepoint that the events of a session tell of was set by the last operation of
the history of the branch that sets one. -/
theorem WorkedWith.lastSet (h : WorkedWith kind config ops session)
    (hne : lastSavepointId session.events branchId ≠ []) :
    ∃ moment, LastSet (branchHistory branchId ops) (lastSavepointId session.events branchId)
      moment := by
  refine h.induct (P := fun ops session => lastSavepointId session.events branchId ≠ [] →
    ∃ moment, LastSet (branchHistory branchId ops) (lastSavepointId session.events branchId) moment)
      ?_ ?_ hne
  · intro task plan w session hsubmit hne
    have hnone := @lastSavepointId_append branchId [] session.events fun event hevent hsave => by
      rcases types_of_submitTask hsubmit event hevent with htype | htype <;>
        rw [htype] at hsave <;> cases hsave.2
    exact absurd hnone hne
  · rintro ops ⟨op, w⟩ session - hworks ih hne
    obtain ⟨recorded, hevents, hrecorded⟩ :=
      @exists_recorded_perform kind config op hworks session w
    by_cases hsave : op.branchId = branchId ∧ op.eventType = .savepoint
    · obtain ⟨rfl, htype⟩ := hsave
      obtain ⟨savepointId, hop⟩ := eventType_eq_savepoint htype
      have hlast : lastSavepointId ((op.perform config session).run (handle kind) w).1.events
          op.branchId = savepointId := by
        rw [hop]
        exact lastSavepointId_snoc rfl rfl
      have hhistory : branchHistory op.branchId (ops ++ [(op, w)]) =
          branchHistory op.branchId ops ++ [(.savepoint savepointId, w)] :=
        @branchHistory_snoc_of_eq op.branchId (op, w) ops rfl _ (congrArg SessionOp.toBranchOp hop)
      rw [hlast, hhistory]
      exact ⟨_, lastSet_snoc _ savepointId w⟩
    · have hkept :
        lastSavepointId ((op.perform config session).run (handle kind) w).1.events branchId =
          lastSavepointId session.events branchId := by
        rw [hevents]
        refine lastSavepointId_append fun event hevent hsame => hsave ?_
        rw [← (hrecorded event hevent).1, ← (hrecorded event hevent).2]
        exact hsame
      rw [hkept] at hne ⊢
      obtain ⟨moment, hlast⟩ := ih hne
      refine ⟨moment, ?_⟩
      by_cases hbranch : op.branchId = branchId
      · obtain ⟨branchOp, hop, -⟩ := @onBranch_eq_perform kind op hworks {branchId := branchId} w
        rw [branchHistory_snoc_of_eq ops hbranch hop]
        refine hlast.snoc fun id heq =>
          hsave ⟨hbranch, eventType_of_toBranchOp (hop.trans (congrArg some heq))⟩
      · rw [branchHistory_snoc_of_ne ops hbranch]
        exact hlast

/-! ### Rollbacks -/

/-- What a rollback leaves is the branch at a moment after the savepoint was set exactly if no
write has been added between. -/
theorem rollback_holdsSame_iff {ops : List (BranchOp × World)}
    (hset : SetAt kind branchId ops place moment)
    (hplace : selectedPlace (worked kind branchId ops) savepointId = some place)
    (hfirst : (worked kind branchId ops).savepoints[place]? = some first) (hn : moment < n) :
    HoldsSame (RollbackManager.rollbackToSavepoint (worked kind branchId ops) savepointId).2
        (worked kind branchId (ops.take n)) ↔
      first.writeLogPosition = (worked kind branchId (ops.take n)).writeBuffer.size := by
  have hrestores := hset.restores hplace
  have hsame := (hset.take hn).same_iff
  rw [List.take_take, Nat.min_eq_left (Nat.succ_le_of_lt hn),
    hset.size hfirst, ← hrestores.writeBuffer, ← hrestores.intentLog] at hsame
  constructor
  · rintro ⟨hbuffer, hlog⟩
    exact (hsame.1 ⟨hbuffer.symm, hlog.symm⟩).symm
  · intro hsize
    obtain ⟨hbuffer, hlog⟩ := hsame.2 hsize.symm
    exact ⟨hbuffer.symm, hlog.symm⟩

theorem goesToLatest_iff {ops : List (BranchOp × World)} {designated : Prop}
    (hlive : ∃ s ∈ (worked kind branchId ops).savepoints, s.savepointId = savepointId)
    (hdesignated : designated → ∃ moment, LastSet ops savepointId moment) :
    GoesToLatest kind branchId ops (worked kind branchId ops) savepointId designated ↔
      SetTogether kind branchId ops (worked kind branchId ops) savepointId designated := by
  obtain ⟨place', latest, hlatest⟩ := exists_latestLive hlive
  rcases exists_split (worked kind branchId ops).savepoints
    savepointId with hnone | ⟨front, first, rest, hsplit, rfl, hfront⟩
  · obtain ⟨s, hs, hid⟩ := hlive
    exact absurd hid (hnone s hs)
  have hplace := selectedPlace_of_split hsplit hfront
  have hthere : (worked kind branchId ops).savepoints[front.length]? = some first := by
    simp [hsplit]
  have hfind : (worked kind branchId ops).savepoints.find?
      (fun s => s.savepointId = first.savepointId) = some first := by
    rw [List.find?_eq_some_iff_append]
    exact ⟨by simp, front, rest, hsplit, by simpa using hfront⟩
  obtain ⟨moment, hset⟩ := exists_setAt ops (lt_of_selectedPlace hplace)
  obtain ⟨moment', hset'⟩ := exists_setAt ops (List.getElem?_eq_some_iff.1 hlatest.there).1
  -- both the latest that is left and the last that was set come after the first
  have hle : moment ≤ moment' := by
    refine hset.moment_le hset' (Nat.le_of_not_lt fun hlt => ?_)
    exact hlatest.last front.length first hlt hthere rfl
  have hlater : ∀ m, LastSet ops first.savepointId m → moment ≤ m := by
    intro m hlast
    obtain ⟨id, w, hop⟩ := hset.sets
    exact Nat.le_of_not_lt fun hlt => hlast.last moment id w hlt hop
  have hlive' := rollback_holdsSame_iff hset hplace hthere (Nat.lt_succ_of_le hle)
  rw [hset'.size hlatest.there] at hlive'
  have hrecovery : ∀ m, LastSet ops first.savepointId m →
      (HoldsSame (RollbackManager.rollbackToSavepoint (worked kind branchId ops)
        first.savepointId).2
          (worked kind branchId (ops.take (m + 1))) ↔
        first.writeLogPosition = (worked kind branchId (ops.take m)).writeBuffer.size) := by
    intro m hlast
    obtain ⟨w, hop⟩ := hlast.sets
    have hsize : (worked kind branchId (ops.take (m + 1))).writeBuffer =
        (worked kind branchId (ops.take m)).writeBuffer := by
      rw [List.take_add_one, hop, Option.toList_some, worked_snoc]
      rfl
    rw [← hsize]
    exact rollback_holdsSame_iff hset hplace hthere (Nat.lt_succ_of_le (hlater m hlast))
  constructor
  · rintro ⟨⟨place, savepoint, m, hlatest', hset'', hsame⟩, hmeant⟩
    obtain ⟨rfl, rfl⟩ := hlatest.unique hlatest'
    obtain rfl := hset'.unique hset''
    constructor
    · intro first' place'' latest' hfind' hlatest''
      obtain ⟨-, rfl⟩ := hlatest.unique hlatest''
      obtain rfl := Option.some.inj (hfind.symm.trans hfind')
      exact hlive'.1 hsame
    · intro hd first' m' hfind' hlast'
      obtain rfl := Option.some.inj (hfind.symm.trans hfind')
      obtain ⟨m, hlast, hsame⟩ := hmeant hd
      obtain rfl := hlast.unique hlast'
      exact (hrecovery m hlast).1 hsame
  · rintro ⟨hpositions, hmeant⟩
    refine ⟨⟨place', latest, moment', hlatest, hset',
      hlive'.2 (hpositions first place' latest hfind hlatest)⟩, fun hd => ?_⟩
    obtain ⟨m, hlast⟩ := hdesignated hd
    exact ⟨m, hlast, (hrecovery m hlast).2 (hmeant hd first m hfind hlast)⟩

/-- A rollback to a name goes to the latest savepoint of the name exactly if the first one that
is left was set at the same place. -/
theorem rollbackToSavepoint_latest_iff (h : WorkedWith kind config ops session)
    (hfound : session.txn.findBranch branchId = some branch)
    (hlive : ∃ s ∈ branch.savepoints, s.savepointId = savepointId) (path : Bytes)
    (metadata : List (Bytes × Bytes)) :
    GoesToLatest kind branchId (branchHistory branchId ops) branch savepointId
        (Designates path session metadata branchId savepointId) ↔
      SetTogether kind branchId (branchHistory branchId ops) branch savepointId
        (Designates path session metadata branchId savepointId) := by
  obtain rfl := h.branch_eq hfound
  refine goesToLatest_iff hlive fun hd => ?_
  -- recovery takes the name from the last event that tells of a savepoint
  have hdecided := h.workedOn.inWork.decided path metadata
  rcases hdecided.action with ⟨-, hsavepoint, hne⟩ | ⟨haction, -⟩
  · rw [← hdecided.branchId, hd.branchId] at hsavepoint hne
    obtain ⟨moment, hlast⟩ := h.lastSet hne
    rw [← hsavepoint, hd.savepointId] at hlast
    exact ⟨moment, hlast⟩
  · rw [hd.action] at haction
    cases haction

/-- A name is used again after a write. -/
def savesAgain : List (SessionOp × World) := [
  (.savepoint (ascii "b") (ascii "s"), {}),
  (.write (ascii "b") (ascii "k") .text (appendToK (ascii "x")), {}),
  (.savepoint (ascii "b") (ascii "s"), {})]

/-- The task after that. -/
def notedAgain : TaskSession := performedOn .memory {} noted savesAgain

theorem workedWith_notedAgain : WorkedWith .memory {} savesAgain notedAgain :=
  ⟨by simp [savesAgain, SessionOp.works], noteTask, notePlan, {}, noted, rfl, rfl⟩

theorem rollbackToSavepoint_latest_iff_notedAgain :
    GoesToLatest .memory (ascii "b") (branchHistory (ascii "b") savesAgain)
        (worked .memory (ascii "b") (branchHistory (ascii "b") savesAgain)) (ascii "s")
        (Designates (ascii "log") notedAgain [] (ascii "b") (ascii "s")) ↔
      SetTogether .memory (ascii "b") (branchHistory (ascii "b") savesAgain)
        (worked .memory (ascii "b") (branchHistory (ascii "b") savesAgain)) (ascii "s")
        (Designates (ascii "log") notedAgain [] (ascii "b") (ascii "s")) := by
  have hlive : ∃ s ∈ (worked .memory (ascii "b") (branchHistory (ascii "b") savesAgain)).savepoints,
    s.savepointId = ascii "s" := ⟨{ savepointId := ascii "s" }, List.mem_cons_self, rfl⟩
  exact rollbackToSavepoint_latest_iff workedWith_notedAgain rfl hlive (ascii "log") []

/-- The rollback undoes the write before the second savepoint, which recovery means. -/
theorem rollbackToSavepoint_not_latest : WorkedWith .memory {} savesAgain notedAgain ∧
    ∃ branch, notedAgain.txn.findBranch (ascii "b") = some branch ∧
      (∃ s ∈ branch.savepoints, s.savepointId = ascii "s") ∧
      Designates (ascii "log") notedAgain [] (ascii "b") (ascii "s") ∧
      ¬GoesToLatest .memory (ascii "b") (branchHistory (ascii "b") savesAgain) branch (ascii "s")
        (Designates (ascii "log") notedAgain [] (ascii "b") (ascii "s")) := by
  refine ⟨workedWith_notedAgain, _, rfl, ⟨_, List.mem_cons_self, rfl⟩,
    ⟨by decide, by decide, by decide⟩, ?_⟩
  rintro ⟨⟨place, savepoint, moment, hlatest, hset, hsame⟩, -⟩
  have hsize := congrArg WriteBuffer.size hsame.writeBuffer
  obtain ⟨savepointId, w, hop⟩ := hset.sets
  match moment, hset.lt with
  | 0, _ =>
    obtain rfl : 0 = place := hset.atEnd
    exact hlatest.last 1 _ (by decide) rfl rfl
  | 1, _ => cases hop
  | 2, _ => exact absurd hsize (by decide)

end DataAgentSystem.Runtime
