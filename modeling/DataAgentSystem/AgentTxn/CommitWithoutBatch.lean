import DataAgentSystem.AgentTxn.CommitOutcome
import DataAgentSystem.AgentTxn.RollbackRecovery

/-! The fallback paths of a commit when nobody else acts. The plain path checks and
writes key by key and takes its writes back, newest first, when a later key has
changed; taking back deletes a key the commit created and writes the old value over
any other. The crash-safe path checks every key first. -/

namespace DataAgentSystem.AgentTxn

open Text Intent Cache Branch Storage Interaction Containers

variable {kind : StoreKind}

/-- What taking a write back leaves: a key that existed keeps its value two versions up. -/
def takenBack (before : VersionedValue) : VersionedValue :=
  if before.exists_ then { before with version := before.version + 1 + 1 } else {}

/-- The writes of these keys have been taken back, everything else is as it was. -/
def TookBack (keys : List Bytes) (s s' : MemoryKVStore) : Prop :=
  ∀ k, s'.get k = if k ∈ keys then takenBack (s.get k) else s.get k

theorem version_add_two_ne (v : UInt64) : v + 1 + 1 ≠ v := by grind

/-- Values and existence are what they were. -/
theorem TookBack.restores {keys : List Bytes} {s s' : MemoryKVStore}
    (h : TookBack keys s s') (k : Bytes) :
    (s'.get k).value = (s.get k).value ∧ (s'.get k).exists_ = (s.get k).exists_ := by
  rw [h k]
  split
  next =>
    unfold takenBack
    cases hexists : (s.get k).exists_ with
    | true => exact ⟨rfl, rfl⟩
    | false => simp [MemoryKVStore.version_of_not_exists hexists]
  next => exact ⟨rfl, rfl⟩

/-- Only keys that did not exist come back as they were. -/
theorem TookBack.unchanged_iff {keys : List Bytes} {s s' : MemoryKVStore} (h : TookBack keys s s') :
    (∀ k, s'.get k = s.get k) ↔ ∀ k ∈ keys, (s.get k).exists_ = false := by
  constructor
  · intro hsame k hk
    have hback := h k
    rw [if_pos hk, hsame k] at hback
    by_contra hexists
    rw [Bool.not_eq_false] at hexists
    rw [takenBack, if_pos hexists] at hback
    exact version_add_two_ne _ (congrArg VersionedValue.version hback).symm
  · intro hmissing k
    rw [h k]
    split
    next hk =>
      rw [takenBack, if_neg (by simp [hmissing k hk])]
      exact (MemoryKVStore.version_of_not_exists (hmissing k hk)).symm
    next => rfl

/-- A list either satisfies a predicate throughout or has a first element that does not. -/
theorem exists_first_failure {α : Type} (p : α → Prop) (l : List α) :
    (∀ x ∈ l, p x) ∨ ∃ front x rest, l = front ++ x :: rest ∧ (∀ y ∈ front, p y) ∧ ¬p x := by
  induction l with
  | nil => exact .inl fun x hx => absurd hx List.not_mem_nil
  | cons a l ih =>
    by_cases ha : p a
    · rcases ih with hall | ⟨front, x, rest, rfl, hfront, hx⟩
      · exact .inl (List.forall_mem_cons.2 ⟨ha, hall⟩)
      · exact .inr ⟨a :: front, x, rest, rfl, List.forall_mem_cons.2 ⟨ha, hfront⟩, hx⟩
    · exact .inr ⟨[], a, l, rfl, fun y hy => absurd hy List.not_mem_nil, ha⟩

namespace CommitManager

/-! ### The plain path -/

/-- The record of a write that was applied to a store. -/
def appliedWrite (s : MemoryKVStore) (write : WriteOp) : AppliedWrite where
  key := write.key
  previousValue := (s.get write.key).value
  previousVersion := (s.get write.key).version
  previousExists := (s.get write.key).exists_

section Plain

variable (kind : StoreKind) {expected : UnorderedMap UInt64} {writes : List WriteOp} {w : World}

/-- Taking one write back, and what follows. -/
theorem run_takeBack {α : Type} (f : Bool → Prog α) {s : MemoryKVStore} {write : WriteOp}
    (h : w.store.get write.key =
      { value := write.value, version := (s.get write.key).version + 1, exists_ := true }) :
    ∃ store, (if (appliedWrite s write).previousExists then
        Store.putIfVersion write.key ((s.get write.key).version + 1) (s.get write.key).value >>= f
      else Store.deleteIfVersion write.key ((s.get write.key).version + 1) >>= f).run
        (handle kind) w =
        (f true).run (handle kind) (withStore w store) ∧
      ∀ k, store.get k = if k = write.key then takenBack (s.get k) else w.store.get k := by
  have hversion : w.store.getVersion write.key = (s.get write.key).version + 1 := by
    rw [MemoryKVStore.getVersion, h]
  cases hexists : (s.get write.key).exists_ with
  | true =>
    have hprevious : (appliedWrite s write).previousExists = true := hexists
    refine ⟨w.store.write write.key (s.get write.key).value, ?_, fun k => ?_⟩
    · rw [if_pos hprevious, Store.putIfVersion_bind, Program.run_call]
      simp only [handle, MemoryKVStore.putIfVersion_of_eq _ hversion]
      rfl
    · rw [MemoryKVStore.get_write]
      split
      next hk =>
        subst hk
        rw [takenBack, if_pos hexists, h, ← hexists]
      next => rfl
  | false =>
    have hprevious : ¬(appliedWrite s write).previousExists = true := by
      rw [appliedWrite, hexists]
      exact Bool.false_ne_true
    obtain ⟨htrue, hdelete⟩ := MemoryKVStore.deleteIfVersion_of_eq hversion
    refine ⟨(w.store.deleteIfVersion write.key ((s.get write.key).version + 1)).2, ?_, fun k => ?_⟩
    · rw [if_neg hprevious, Store.deleteIfVersion_bind, Program.run_call]
      simp only [handle, World.withStore, htrue]
      rfl
    · rw [hdelete]
      split
      next hk =>
        subst hk
        rw [takenBack, if_neg (by simp [hexists])]
      next => rfl

/-- The applied writes are taken back, newest first. -/
theorem run_rollbackAppliedWrites {s : MemoryKVStore} {applied : List WriteOp}
    (hnodup : (applied.map WriteOp.key).Nodup)
    (h : ∀ write ∈ applied, w.store.get write.key =
      { value := write.value, version := (s.get write.key).version + 1, exists_ := true }) :
    ∃ store, (rollbackAppliedWrites (applied.map (appliedWrite s))).run (handle kind) w =
      (none, withStore w store) ∧
      ∀ k, store.get k = if k ∈ applied.map WriteOp.key then takenBack (s.get k)
          else w.store.get k := by
  induction applied generalizing w with
  | nil => exact ⟨w.store, rfl, fun k => by rw [List.map_nil, if_neg List.not_mem_nil]⟩
  | cons write applied ih =>
    rw [List.map_cons, List.nodup_cons] at hnodup
    rw [List.forall_mem_cons] at h
    obtain ⟨store, hrun, hget⟩ := run_takeBack kind (fun rolledBack =>
      if rolledBack then rollbackAppliedWrites (applied.map (appliedWrite s))
      else return some (ascii "fallback rollback failed for " ++ write.key)) h.1
    have hrest : ∀ older ∈ applied, (withStore w store).store.get older.key =
        { value := older.value, version := (s.get older.key).version + 1, exists_ := true } := by
      intro older holder
      have hne : older.key ≠ write.key := fun heq => hnodup.1 (heq ▸ List.mem_map_of_mem holder)
      rw [withStore_store, hget, if_neg hne]
      exact h.2 older holder
    obtain ⟨store', hrun', hget'⟩ := ih hnodup.2 hrest
    refine ⟨store', ?_, fun k => ?_⟩
    · rw [List.map_cons, rollbackAppliedWrites]
      exact hrun.trans hrun'
    · rw [hget', withStore_store, hget, List.map_cons]
      by_cases hk : k = write.key
      · subst hk
        rw [if_neg hnodup.1, if_pos rfl, if_pos List.mem_cons_self]
      · rw [if_neg hk]
        simp only [List.mem_cons, hk, false_or]

/-- As long as every key is at its expected version, the writes are made in order. -/
theorem run_applyWithoutBatch_append (rest applied : List WriteOp) {s : MemoryKVStore}
    (hnodup : ((applied ++ (writes ++ rest)).map WriteOp.key).Nodup)
    (hw : w.store = s.applyWrites applied)
    (h : ∀ write ∈ writes, expected.lookup write.key = some (s.getVersion write.key)) :
    (applyWithoutBatch expected (writes ++ rest) (applied.map (appliedWrite s)).reverse).run
      (handle kind) w =
      (applyWithoutBatch expected rest ((applied ++ writes).map (appliedWrite s)).reverse).run
        (handle kind)
        (withStore w (s.applyWrites (applied ++ writes))) := by
  induction writes generalizing applied w with
  | nil =>
    rw [List.nil_append, List.append_nil, ← hw]
    rfl
  | cons write writes ih =>
    rw [List.forall_mem_cons] at h
    have hnew : write.key ∉ applied.map WriteOp.key := by
      rw [List.map_append, List.nodup_append] at hnodup
      exact fun hmem => hnodup.2.2 _ hmem _ (List.mem_map_of_mem List.mem_cons_self) rfl
    have hget : w.store.get write.key = s.get write.key := by
      rw [hw]
      exact MemoryKVStore.get_applyWrites_of_notMem hnew
    have hversion : w.store.getVersion write.key = s.getVersion write.key := by
      rw [MemoryKVStore.getVersion, hget]
      rfl
    have hnodup' : (((applied ++ [write]) ++ (writes ++ rest)).map WriteOp.key).Nodup := by
      rw [List.append_assoc]
      exact hnodup
    have hw' : (withStore w (w.store.write write.key write.value)).store =
        s.applyWrites (applied ++ [write]) := by
      rw [withStore_store, hw, MemoryKVStore.applyWrites_append]
      rfl
    have hstep := ih (applied ++ [write]) hnodup' hw' h.2
    rw [List.cons_append, applyWithoutBatch, h.1]
    simp only
    rw [Store.get_bind, Program.run_call, handle_get, if_neg (by rw [hget]; exact not_not.2 rfl),
      Store.putIfVersion_bind, Program.run_call]
    have hput : handle kind (.putIfVersion write.key (s.getVersion write.key) write.value) w =
        (true, withStore w (w.store.write write.key write.value)) := by
      simp only [handle, MemoryKVStore.putIfVersion_of_eq _ hversion]
      rfl
    rw [hput]
    simp only [Bool.not_true, Bool.false_eq_true, ↓reduceIte, hget]
    rw [List.map_append, List.reverse_append, List.append_assoc] at hstep
    exact hstep

theorem run_applyWithoutBatch (hnodup : (writes.map WriteOp.key).Nodup)
    (h : ∀ write ∈ writes, expected.lookup write.key = some (w.store.getVersion write.key)) :
    (applyWithoutBatch expected writes []).run (handle kind) w =
      (.ok (), withStore w (w.store.applyWrites writes)) := by
  have hrun := run_applyWithoutBatch_append kind [] [] (by simpa using hnodup) rfl h
  rw [List.append_nil, List.nil_append] at hrun
  exact hrun

/-- At the first key that is not at its expected version, everything before it is taken back. -/
theorem run_applyWithoutBatch_stale {front rest : List WriteOp} {write : WriteOp} {version : UInt64}
    (hnodup : ((front ++ write :: rest).map WriteOp.key).Nodup)
    (hfront : ∀ write ∈ front, expected.lookup write.key = some (w.store.getVersion write.key))
    (hversion : expected.lookup write.key = some version)
    (hstale : w.store.getVersion write.key ≠ version) :
    ∃ reason store, (applyWithoutBatch expected (front ++ write :: rest) []).run (handle kind) w =
        (.error reason, withStore w store) ∧ TookBack (front.map WriteOp.key) w.store store := by
  have hrun := run_applyWithoutBatch_append kind (write :: rest) [] hnodup rfl hfront
  rw [List.nil_append] at hrun
  have hkeys := hnodup
  rw [List.map_append, List.map_cons, List.nodup_append] at hkeys
  have hfresh : write.key ∉ front.map WriteOp.key := fun hmem =>
    hkeys.2.2 _ hmem _ List.mem_cons_self rfl
  have hget : (w.store.applyWrites front).get write.key = w.store.get write.key :=
    MemoryKVStore.get_applyWrites_of_notMem hfresh
  have happlied : ∀ older ∈ front.reverse,
    (withStore w (w.store.applyWrites front)).store.get older.key =
      { value := older.value, version := (w.store.get older.key).version + 1, exists_ := true } :=
    fun older holder => MemoryKVStore.get_applyWrites_of_mem hkeys.1 (List.mem_reverse.1 holder)
  have hnodupFront : (front.reverse.map WriteOp.key).Nodup := by
    rw [List.map_reverse, List.nodup_reverse]
    exact hkeys.1
  obtain ⟨store, hback, hstore⟩ := run_rollbackAppliedWrites kind hnodupFront happlied
  refine ⟨ascii "fallback write version changed for " ++ write.key, store, ?_, fun k => ?_⟩
  · rw [List.map_nil, List.reverse_nil] at hrun
    rw [hrun, applyWithoutBatch, hversion]
    simp only
    have hchanged : ((withStore w (w.store.applyWrites front)).store.get write.key).version ≠
        version := by
      rw [withStore_store, hget]
      exact hstale
    rw [Store.get_bind, Program.run_call, handle_get, if_pos hchanged,
      Program.run_bind, ← List.map_reverse, hback]
    rfl
  · rw [hstore, List.map_reverse]
    simp only [List.mem_reverse, withStore_store]
    split
    next => rfl
    next hk => exact MemoryKVStore.get_applyWrites_of_notMem hk

end Plain

/-! ### The crash-safe path -/

section CrashSafe

variable (kind : StoreKind) {expected : UnorderedMap UInt64} {writes : List WriteOp} {w : World}
  {entries : List FallbackCommitEntry} {path : Bytes}

theorem run_prepareEntries (entries : List FallbackCommitEntry)
    (h : ∀ write ∈ writes, expected.lookup write.key = some (w.store.getVersion write.key)) :
    ((prepareEntries expected writes entries).run (handle kind) w).1 =
      .ok (entries ++ writes.map (preparedEntry w.store)) := by
  induction writes generalizing entries with
  | nil =>
    rw [List.map_nil, List.append_nil]
    rfl
  | cons write writes ih =>
    rw [List.forall_mem_cons] at h
    have hcurrent : ¬(w.store.get write.key).version ≠ w.store.getVersion write.key := not_not.2 rfl
    rw [prepareEntries, h.1]
    simp only
    rw [Store.get_bind, Program.run_call, handle_get, if_neg hcurrent, ih _ h.2, List.append_assoc]
    rfl

/-- Preparation ends at the first key that is not at its expected version. -/
theorem run_prepareEntries_stale {front rest : List WriteOp} {write : WriteOp} {version : UInt64}
    (entries : List FallbackCommitEntry)
    (hfront : ∀ write ∈ front, expected.lookup write.key = some (w.store.getVersion write.key))
    (hversion : expected.lookup write.key = some version)
    (hstale : w.store.getVersion write.key ≠ version) :
    ((prepareEntries expected (front ++ write :: rest) entries).run (handle kind) w).1 =
      .error (ascii "fallback write version changed for " ++ write.key) := by
  induction front generalizing entries with
  | nil =>
    rw [List.nil_append, prepareEntries, hversion]
    simp only
    rw [Store.get_bind, Program.run_call, handle_get,
      if_pos (show (w.store.get write.key).version ≠ version from hstale)]
    rfl
  | cons older front ih =>
    rw [List.forall_mem_cons] at hfront
    have hcurrent : ¬(w.store.get older.key).version ≠ w.store.getVersion older.key := not_not.2 rfl
    rw [List.cons_append, prepareEntries, hfront.1]
    simp only
    rw [Store.get_bind, Program.run_call, handle_get, if_neg hcurrent]
    exact ih _ hfront.2

theorem looks_prepareEntries (expected : UnorderedMap UInt64) (writes : List WriteOp)
    (entries : List FallbackCommitEntry) (w : World) :
    (prepareEntries expected writes entries).Looks (handle kind) w :=
  (only_prepareEntries expected writes entries).looks fun _ hop w =>
    handle_of_reads (reads_of_get hop) w

/-- Undoing applied entries, newest first. -/
theorem safely_undoAll {todo : List FallbackCommitEntry} (hb : Built entries)
    (hsub : ∀ e ∈ todo, e ∈ entries) (hnodup : (todo.map (·.key)).Nodup) :
    ∀ {artifact : FallbackCommitArtifact} {result : FallbackRecoveryResult} {w : World},
      AllAt FallbackCommitEntry.target todo w.store →
      (undoBackward path todo artifact result).Safely (handle kind) (fun _ => True) w fun out w' =>
        out.1 = true ∧ AllAt FallbackCommitEntry.undone todo w'.store ∧
          ∀ k, k ∉ todo.map (·.key) → w'.store.get k = w.store.get k := by
  induction todo with
  | nil =>
    exact fun _ =>
      Program.safely_ret.2 ⟨trivial, rfl, fun e he => absurd he List.not_mem_nil, fun k _ => rfl⟩
  | cons e todo ih =>
    intro artifact result w htarget
    rw [AllAt, List.forall_mem_cons] at htarget
    rw [List.map_cons, List.nodup_cons] at hnodup
    rw [List.forall_mem_cons] at hsub
    have hnotPrevious : ¬e.matchesPrevious (w.store.get e.key) = true := by
      rw [FallbackCommitEntry.matchesPrevious_iff, htarget.1]
      exact hb.target_ne_previous hsub.1
    have hmatch : e.matchesTarget (w.store.get e.key) = true :=
      FallbackCommitEntry.matchesTarget_iff.2 htarget.1
    rw [undoBackward, Store.get_bind, Program.safely_call, handle_get, if_neg hnotPrevious,
      if_neg (by simp [hmatch]), Program.safely_bind]
    refine ⟨trivial, (safely_undoEntry hb hsub.1 htarget.1 trivial fun _ _ _ => trivial).mono ?_⟩
    rintro ok w' - ⟨rfl, s, rfl, hundone, hframe⟩
    simp only [Bool.not_true, Bool.false_eq_true, ↓reduceIte]
    rw [safely_write]
    refine ⟨trivial, ?_⟩
    simp only [Bool.not_true, Bool.false_eq_true, ↓reduceIte]
    have htodo : AllAt FallbackCommitEntry.target todo w.store := htarget.2
    have hrest : AllAt FallbackCommitEntry.target todo s := htodo.frame hnodup.1 hframe
    refine (ih hsub.2 hnodup.2 hrest).mono ?_
    rintro out w'' - ⟨hok, hall, hframe'⟩
    refine ⟨hok, ?_, fun k hk => ?_⟩
    · rw [AllAt, List.forall_mem_cons]
      exact ⟨(hframe' _ hnodup.1).trans hundone, hall⟩
    · rw [List.map_cons, List.mem_cons, not_or] at hk
      exact (hframe' k hk.2).trans (hframe k hk.1)

/-- A rollback from a prefix undoes it and nothing else. -/
theorem safely_resumeRollback_prefixState (path : Bytes) (result : FallbackRecoveryResult)
    {artifact : FallbackCommitArtifact} {live rest : List FallbackCommitEntry}
    (hb : Built artifact.entries) (hsplit : artifact.entries = live ++ rest)
    (hlive : AllAt FallbackCommitEntry.target live w.store)
    (hrest : AllAt FallbackCommitEntry.previous rest w.store) :
    (resumeRollbackFallbackCommit artifact path result).Safely (handle kind)
      (fun _ => True) w fun out w' =>
      out.1 = true ∧ AllAt FallbackCommitEntry.undone live w'.store ∧
        ∀ k, k ∉ live.map (·.key) → w'.store.get k = w.store.get k := by
  have hlen : live.length ≤ artifact.entries.length := by
    rw [hsplit, List.length_append]
    omega
  have htake : artifact.entries.take live.length = live := by rw [hsplit, List.take_left]
  have hkeys := hb.nodup
  rw [hsplit, List.map_append, List.nodup_append] at hkeys
  have hnodup : (live.reverse.map (·.key)).Nodup := by
    rw [List.map_reverse, List.nodup_reverse]
    exact hkeys.1
  rw [resumeRollbackFallbackCommit, Program.safely_bind]
  refine (looks_detectCommittedPrefix artifact result w).safely trivial ?_
  rw [run_detectCommittedPrefix_of_prefixState hb hsplit hlive hrest]
  simp only [gt_iff_lt, Nat.not_lt.2 hlen, ↓reduceIte]
  rw [safely_write]
  refine ⟨trivial, ?_⟩
  simp only [Bool.not_true, Bool.false_eq_true, ↓reduceIte]
  rw [htake, Program.safely_bind]
  refine (safely_undoAll kind hb ?_ hnodup ?_).mono ?_
  · exact fun e he => hsplit ▸ List.mem_append_left _ (List.mem_reverse.1 he)
  · exact fun e he => hlive e (List.mem_reverse.1 he)
  · rintro ⟨ok, undone, result'⟩ w' - ⟨hok, hall, hframe⟩
    simp only at hok
    subst hok
    simp only [Bool.not_true, Bool.false_eq_true, ↓reduceIte]
    rw [safely_write]
    refine ⟨trivial, ?_⟩
    simp only [Bool.not_true, Bool.false_eq_true, ↓reduceIte]
    refine Program.safely_ret.2
      ⟨trivial, rfl, fun e he => hall e (List.mem_reverse.2 he), fun k hk => ?_⟩
    exact hframe k (by simpa using hk)

/-- Entries at their expected versions whose keys exist are applied in order. -/
theorem run_applyEntries_append {config : FallbackCommitConfig}
    (hsimulate : config.simulateCrashAfterApplyCount = 0) (rest : List FallbackCommitEntry)
    {front : List FallbackCommitEntry} (hnodup : (front.map (·.key)).Nodup) :
    ∀ (artifact : FallbackCommitArtifact) (w : World),
      (∀ e ∈ front, (w.store.get e.key).version = e.expectedVersion ∧
        (w.store.get e.key).exists_ = true) →
      ∃ artifact' w', artifact'.entries = artifact.entries ∧
        w'.store = w.store.applyWrites
          (front.map fun e => { key := e.key, value := e.targetValue }) ∧
        (applyEntries config (front ++ rest) artifact).run (handle kind) w =
          (applyEntries config rest artifact').run (handle kind) w' := by
  induction front with
  | nil => exact fun artifact w _ => ⟨artifact, w, rfl, rfl, rfl⟩
  | cons e front ih =>
    intro artifact w h
    rw [List.forall_mem_cons] at h
    rw [List.map_cons, List.nodup_cons] at hnodup
    have hcurrent : ¬((w.store.get e.key).version ≠ e.expectedVersion ∨
        (!(w.store.get e.key).exists_) = true) := by
      simp [h.1]
    have hput : handle kind (.putIfVersion e.key e.expectedVersion e.targetValue) w =
        (true, withStore w (w.store.write e.key e.targetValue)) := by
      simp only [handle, MemoryKVStore.putIfVersion_of_eq e.targetValue
        (show w.store.getVersion e.key = _ from h.1.1)]
      rfl
    have hfront : ∀ e' ∈ front, ((w.store.write e.key e.targetValue).get e'.key).version =
      e'.expectedVersion ∧
        ((w.store.write e.key e.targetValue).get e'.key).exists_ = true := by
      intro e' he'
      have hne : e'.key ≠ e.key := fun heq => hnodup.1 (heq ▸ List.mem_map_of_mem he')
      rw [MemoryKVStore.get_write_of_ne _ _ hne]
      exact h.2 e' he'
    obtain ⟨artifact', w', hentries, hstore, hrun⟩ := ih hnodup.2
      { artifact with appliedCount := artifact.appliedCount + 1, phase := .applying }
      (withArtifact config.artifactPath
        { artifact with appliedCount := artifact.appliedCount + 1, phase := .applying }
        (withStore w (w.store.write e.key e.targetValue))) hfront
    refine ⟨artifact', w', hentries, hstore, ?_⟩
    rw [← hrun, List.cons_append, applyEntries, Store.get_bind, Program.run_call,
      handle_get, if_neg hcurrent, Store.putIfVersion_bind, Program.run_call, hput]
    simp only [Bool.not_true, Bool.false_eq_true, ↓reduceIte, writeFallbackCommitArtifact,
      Files.replace_bind, Program.run_call, handle_replaceFile, hsimulate, gt_iff_lt,
      Nat.lt_irrefl, false_and]
    rfl

/-- The commit gives up at the first key that does not exist. -/
theorem run_applyEntries_missing (config : FallbackCommitConfig) {e : FallbackCommitEntry}
    (rest : List FallbackCommitEntry) {artifact : FallbackCommitArtifact}
    {live : List FallbackCommitEntry} (hb : Built artifact.entries)
    (hsplit : artifact.entries = live ++ e :: rest)
    (hlive : AllAt FallbackCommitEntry.target live w.store)
    (hrest : AllAt FallbackCommitEntry.previous (e :: rest) w.store)
    (hmissing : (w.store.get e.key).exists_ = false) :
    ∃ reason w', (applyEntries config (e :: rest) artifact).run (handle kind) w =
      (.error reason, w') ∧
      AllAt FallbackCommitEntry.undone live w'.store ∧
      ∀ k, k ∉ live.map (·.key) → w'.store.get k = w.store.get k := by
  have hchanged : (w.store.get e.key).version ≠ e.expectedVersion ∨
      (!(w.store.get e.key).exists_) = true := by
    simp [hmissing]
  obtain ⟨-, hundone, hframe⟩ :=
    (safely_resumeRollback_prefixState kind config.artifactPath {} hb hsplit hlive hrest).ends
  refine ⟨((rollbackCrashSafeArtifact artifact config.artifactPath
    (ascii "fallback write version changed for " ++ e.key)).run (handle kind) w).1, _, ?_,
      hundone, hframe⟩
  rw [applyEntries, Store.get_bind, Program.run_call, handle_get, if_pos hchanged, Program.run_bind,
    rollbackCrashSafeArtifact, Program.run_bind]
  simp only
  split <;> rfl

/-- The writes that entries were prepared for. -/
theorem map_preparedEntry (s : MemoryKVStore) (writes : List WriteOp) :
    ((writes.map (preparedEntry s)).map fun e =>
      ({ key := e.key, value := e.targetValue } : WriteOp)) = writes := by
  rw [List.map_map]
  exact List.map_id' _

/-- The artifact file says that the commit is complete. -/
def MarkedCommitted (path : Bytes) (w : World) : Prop :=
  ∃ artifact, OnDisk path artifact w ∧ artifact.phase = .committed

variable {txn : AgentTxnContext} {checks : List VersionCheck}

/-- With every key at its expected version and existing, all writes are made. -/
theorem run_crashSafe_existing (hnodup : (writes.map WriteOp.key).Nodup)
    (hsimulate : txn.fallbackCommit.simulateCrashAfterApplyCount = 0)
    (hcurrent : ∀ write ∈ writes, (expectedVersions checks).lookup write.key =
      some (w.store.getVersion write.key))
    (hexists : ∀ write ∈ writes, (w.store.get write.key).exists_ = true) :
    ∃ w', (commitWinnerWithoutBatchCrashSafe txn checks writes).run (handle kind) w = (.ok (), w') ∧
      w'.store = w.store.applyWrites writes ∧
        MarkedCommitted txn.fallbackCommit.artifactPath w' := by
  have hkeys : ((writes.map (preparedEntry w.store)).map (·.key)).Nodup :=
    (built_preparedEntries w.store hnodup).nodup
  have hready : ∀ e ∈ writes.map (preparedEntry w.store),
      (w.store.get e.key).version = e.expectedVersion ∧ (w.store.get e.key).exists_ = true := by
    intro e he
    obtain ⟨write, hwrite, rfl⟩ := List.mem_map.1 he
    exact ⟨rfl, hexists write hwrite⟩
  obtain ⟨applied, w', -, hstore, hrun⟩ := run_applyEntries_append kind hsimulate [] hkeys
    { txnId := txn.txnId, taskId := txn.taskId, phase := .prepared,
      entries := writes.map (preparedEntry w.store) }
    (withArtifact txn.fallbackCommit.artifactPath
      { txnId := txn.txnId, taskId := txn.taskId, phase := .prepared,
        entries := writes.map (preparedEntry w.store) } w)
    hready
  rw [List.append_nil] at hrun
  refine ⟨withArtifact txn.fallbackCommit.artifactPath { applied with phase := .committed } w', ?_,
    ?_, { applied with phase := .committed }, onDisk_withArtifact _ _ _, rfl⟩
  · rw [commitWinnerWithoutBatchCrashSafe, Program.run_bind, run_prepareEntries kind [] hcurrent,
      (looks_prepareEntries kind _ _ _ w).run_eq, List.nil_append]
    simp only
    rw [commitPrepared, writeFallbackCommitArtifact, Files.replace_bind,
      Program.run_call, handle_replaceFile]
    simp only [Bool.not_true, Bool.false_eq_true, ↓reduceIte]
    rw [Program.run_bind]
    simp only [withArtifact] at hrun
    rw [hrun]
    rfl
  · rw [withArtifact_store, hstore, map_preparedEntry]
    rfl

/-- With every key at its expected version, the first key that does not exist stops the
commit, and the keys before it are taken back. -/
theorem run_crashSafe_missing {front rest : List WriteOp} {write : WriteOp}
    (hnodup : ((front ++ write :: rest).map WriteOp.key).Nodup)
    (hsimulate : txn.fallbackCommit.simulateCrashAfterApplyCount = 0)
    (hcurrent : ∀ write' ∈ front ++ write :: rest,
      (expectedVersions checks).lookup write'.key = some (w.store.getVersion write'.key))
    (hexists : ∀ write' ∈ front, (w.store.get write'.key).exists_ = true)
    (hmissing : (w.store.get write.key).exists_ = false) :
    ∃ reason w', (commitWinnerWithoutBatchCrashSafe txn checks (front ++ write :: rest)).run
      (handle kind) w =
      (.error reason, w') ∧ TookBack (front.map WriteOp.key) w.store w'.store := by
  have hb := built_preparedEntries w.store hnodup
  have hsplit : (front ++ write :: rest).map (preparedEntry w.store) =
      front.map (preparedEntry w.store) ++ preparedEntry w.store write ::
          rest.map (preparedEntry w.store) := by
    rw [List.map_append, List.map_cons]
  have hkeys : ((front.map (preparedEntry w.store)).map (·.key)).Nodup := by
    have hall := hb.nodup
    rw [hsplit, List.map_append, List.nodup_append] at hall
    exact hall.1
  have hready : ∀ e ∈ front.map (preparedEntry w.store),
      (w.store.get e.key).version = e.expectedVersion ∧ (w.store.get e.key).exists_ = true := by
    intro e he
    obtain ⟨older, holder, rfl⟩ := List.mem_map.1 he
    exact ⟨rfl, hexists older holder⟩
  obtain ⟨applied, w₁, hentries, hstore, hrun⟩ := run_applyEntries_append kind hsimulate
    (preparedEntry w.store write :: rest.map (preparedEntry w.store)) hkeys
    { txnId := txn.txnId, taskId := txn.taskId, phase := .prepared,
      entries := (front ++ write :: rest).map (preparedEntry w.store) }
    (withArtifact txn.fallbackCommit.artifactPath
      { txnId := txn.txnId, taskId := txn.taskId, phase := .prepared,
        entries := (front ++ write :: rest).map (preparedEntry w.store) } w) hready
  rw [map_preparedEntry, withArtifact_store] at hstore
  have hfrontKeys : (front.map WriteOp.key).Nodup ∧ ∀ write' ∈ write :: rest,
      write'.key ∉ front.map WriteOp.key := by
    rw [List.map_append, List.nodup_append] at hnodup
    exact ⟨hnodup.1, fun write' hm hmem => hnodup.2.2 _ hmem _ (List.mem_map_of_mem hm) rfl⟩
  have hlive : AllAt FallbackCommitEntry.target (front.map (preparedEntry w.store)) w₁.store := by
    intro e he
    obtain ⟨older, holder, rfl⟩ := List.mem_map.1 he
    rw [hstore]
    exact MemoryKVStore.get_applyWrites_of_mem hfrontKeys.1 holder
  have hrest : AllAt FallbackCommitEntry.previous ((write :: rest).map (preparedEntry w.store))
      w₁.store := by
    intro e he
    obtain ⟨older, holder, rfl⟩ := List.mem_map.1 he
    rw [hstore, previous_preparedEntry]
    exact MemoryKVStore.get_applyWrites_of_notMem (hfrontKeys.2 older holder)
  have hmissing' : (w₁.store.get (preparedEntry w.store write).key).exists_ = false := by
    rw [hrest _ List.mem_cons_self, previous_preparedEntry]
    exact hmissing
  obtain ⟨reason, w₂, hlost, hundone, hframe⟩ := run_applyEntries_missing kind txn.fallbackCommit
    (rest.map (preparedEntry w.store)) (hentries ▸ hb) (hentries.trans hsplit) hlive hrest hmissing'
  refine ⟨reason, w₂, ?_, fun k => ?_⟩
  · rw [commitWinnerWithoutBatchCrashSafe, Program.run_bind, run_prepareEntries kind [] hcurrent,
      (looks_prepareEntries kind _ _ _ w).run_eq, List.nil_append]
    simp only
    rw [commitPrepared, writeFallbackCommitArtifact, Files.replace_bind,
      Program.run_call, handle_replaceFile]
    simp only [Bool.not_true, Bool.false_eq_true, ↓reduceIte]
    rw [Program.run_bind]
    simp only [withArtifact] at hrun
    rw [hsplit] at hrun ⊢
    rw [hrun, hlost]
    rfl
  · have hmap : (front.map (preparedEntry w.store)).map (·.key) = front.map WriteOp.key := by
      rw [List.map_map]
      rfl
    rw [hmap, hstore] at hframe
    split
    next hk =>
      obtain ⟨older, holder, rfl⟩ := List.mem_map.1 hk
      rw [show w₂.store.get older.key = _ from hundone _ (List.mem_map_of_mem holder)]
      unfold FallbackCommitEntry.undone takenBack preparedEntry
      cases hexists' : (w.store.get older.key).exists_ <;> simp
    next hk =>
      rw [hframe k hk]
      exact MemoryKVStore.get_applyWrites_of_notMem hk

end CrashSafe

/-! ### Both paths -/

section Outcome

variable {txn : AgentTxnContext} {winner : BranchContext} {w : World}
  {seenChecks : UnorderedMap UInt64}

theorem lookup_expectedVersions_checksOf (seenChecks : UnorderedMap UInt64) (k : Bytes) :
    (expectedVersions (checksOf seenChecks)).lookup k = seenChecks.lookup k := by
  have hmem : ∀ check ∈ checksOf seenChecks, seenChecks.lookup check.key =
      some check.expectedVersion := by
    intro check hcheck
    obtain ⟨⟨key, v⟩, hentry, rfl⟩ := List.mem_map.1 hcheck
    exact UnorderedMap.mem_entries_iff.1 hentry
  rw [expectedVersions, UnorderedMap.lookup_assignAll, AList.lookup_empty, Option.or_none]
  cases hfind : (checksOf seenChecks).reverse.find? (fun check => check.key = k) with
  | some check =>
    have hkey : check.key = k := by simpa using List.find?_some hfind
    have hcheck := hmem check (List.mem_reverse.1 (List.mem_of_find?_eq_some hfind))
    rw [Option.map_some, ← hcheck, hkey]
  | none =>
    cases hl : seenChecks.lookup k with
    | none => rfl
    | some v =>
      have hnone := List.find?_eq_none.1 hfind _ (List.mem_reverse.2 (mem_checksOf hl))
      simp at hnone

/-- The version a planned write expects. -/
theorem Checks.expected (h : Checks winner w.store seenChecks) {entry : ObjectCacheEntry}
    (hentry : entry ∈ writtenEntries winner) :
    (expectedVersions (checksOf seenChecks)).lookup entry.objectId =
      some (plannedVersion (latestIntents winner.intentLog) w.store entry) := by
  rw [lookup_expectedVersions_checksOf]
  exact h.lookup hentry

theorem Checks.expects (h : Checks winner w.store seenChecks) {entries : List ObjectCacheEntry}
    (hsub : ∀ entry ∈ entries, entry ∈ writtenEntries winner)
    (hcurrent : ∀ entry ∈ entries, Current winner w.store entry) :
    ∀ write ∈ entries.map (plannedWrite (latestIntents winner.intentLog) w.store),
      (expectedVersions (checksOf seenChecks)).lookup write.key =
        some (w.store.getVersion write.key) := by
  intro write hwrite
  obtain ⟨entry, hentry, rfl⟩ := List.mem_map.1 hwrite
  change _ = some (w.store.getVersion entry.objectId)
  rw [(plannedVersion_eq_iff (hsub entry hentry)).2 (hcurrent entry hentry)]
  exact h.expected (hsub entry hentry)

theorem run_publish_withoutBatch (txn : AgentTxnContext) (seenChecks : UnorderedMap UInt64)
    (writes : List WriteOp) (w : World) :
    (publish txn seenChecks writes).run (handle .nonBatchMemory) w =
      let applied := (commitWinnerWithoutBatch txn (checksOf seenChecks) writes).run
        (handle .nonBatchMemory) w
      (applied.1.map fun _ => commitLogOf seenChecks writes, applied.2) := by
  have hno : decide (StoreKind.nonBatchMemory = .memory) = false := rfl
  simp only [publish, Store.supportsAtomicBatchConditionalWrite_bind, Program.run_call, handle, hno,
    Bool.false_eq_true, ↓reduceIte, Program.run_bind]
  generalize (commitWinnerWithoutBatch txn (checksOf seenChecks) writes).run _ w = applied
  obtain ⟨_ | _, w'⟩ := applied <;> rfl

/-- The plain path with every write current. -/
theorem run_publish_plain (hpath : txn.fallbackCommit.artifactPath = [])
    (h : Checks winner w.store seenChecks)
    (hcurrent : ∀ entry ∈ writtenEntries winner, Current winner w.store entry) :
    (publish txn seenChecks (plannedWrites winner w.store)).run (handle .nonBatchMemory) w =
      (.ok (commitLogOf seenChecks (plannedWrites winner w.store)),
        withStore w (w.store.applyWrites (plannedWrites winner w.store))) := by
  rw [run_publish_withoutBatch, commitWinnerWithoutBatch, if_neg (by simp [hpath]),
    run_applyWithoutBatch .nonBatchMemory (nodup_plannedWrites winner w.store)
    (h.expects (fun _ he => he) hcurrent)]
  rfl

/-- The plain path up to the first write that is not current. -/
theorem run_publish_plain_stale (hpath : txn.fallbackCommit.artifactPath = [])
    (h : Checks winner w.store seenChecks) {front rest : List ObjectCacheEntry}
    {entry : ObjectCacheEntry} (hsplit : writtenEntries winner = front ++ entry :: rest)
    (hfront : ∀ e ∈ front, Current winner w.store e) (hstale : ¬Current winner w.store entry) :
    ∃ reason store, (publish txn seenChecks (plannedWrites winner w.store)).run
      (handle .nonBatchMemory) w =
      (.error reason, withStore w store) ∧ TookBack (front.map (·.objectId)) w.store store := by
  have hentry : entry ∈ writtenEntries winner := by simp [hsplit]
  have hsub : ∀ e ∈ front, e ∈ writtenEntries winner := fun e he => by simp [hsplit, he]
  have hwrites : plannedWrites winner w.store =
    front.map (plannedWrite (latestIntents winner.intentLog) w.store) ++
      plannedWrite (latestIntents winner.intentLog) w.store entry ::
        rest.map (plannedWrite (latestIntents winner.intentLog) w.store) := by
    rw [plannedWrites, hsplit, List.map_append, List.map_cons]
  have hnodup := nodup_plannedWrites winner w.store
  rw [hwrites] at hnodup
  have hversion : w.store.getVersion entry.objectId ≠
      plannedVersion (latestIntents winner.intentLog) w.store entry :=
    fun heq => hstale ((plannedVersion_eq_iff hentry).1 heq)
  obtain ⟨reason, store, hrun, hback⟩ :=
    run_applyWithoutBatch_stale .nonBatchMemory hnodup (h.expects hsub hfront)
    (h.expected hentry) hversion
  refine ⟨reason, store, ?_, ?_⟩
  · rw [run_publish_withoutBatch, commitWinnerWithoutBatch, if_neg (by simp [hpath]), hwrites, hrun]
    rfl
  · rw [List.map_map] at hback
    exact hback

/-- A write that is not current stops the crash-safe path while it prepares its artifact. -/
theorem run_prepareEntries_refused (kind : StoreKind) (h : Checks winner w.store seenChecks)
    (hstale : ¬∀ entry ∈ writtenEntries winner, Current winner w.store entry) :
    ∃ reason, ((prepareEntries (expectedVersions (checksOf seenChecks))
      (plannedWrites winner w.store) []).run
      (handle kind) w).1 = .error reason := by
  rcases exists_first_failure (Current winner w.store) (writtenEntries winner) with hall |
    ⟨front, entry, rest, hsplit, hfront, hentryStale⟩
  · exact absurd hall hstale
  · have hentry : entry ∈ writtenEntries winner := by simp [hsplit]
    have hsub : ∀ e ∈ front, e ∈ writtenEntries winner := fun e he => by simp [hsplit, he]
    have hwrites : plannedWrites winner w.store =
      front.map (plannedWrite (latestIntents winner.intentLog) w.store) ++
        plannedWrite (latestIntents winner.intentLog) w.store entry ::
          rest.map (plannedWrite (latestIntents winner.intentLog) w.store) := by
      rw [plannedWrites, hsplit, List.map_append, List.map_cons]
    have hversion : w.store.getVersion entry.objectId ≠
        plannedVersion (latestIntents winner.intentLog) w.store entry :=
      fun heq => hentryStale ((plannedVersion_eq_iff hentry).1 heq)
    rw [hwrites]
    exact ⟨_, run_prepareEntries_stale kind [] (h.expects hsub hfront) (h.expected hentry) hversion⟩

/-- The crash-safe path with a write that is not current. -/
theorem run_publish_crashSafe_stale (hpath : txn.fallbackCommit.artifactPath ≠ [])
    (h : Checks winner w.store seenChecks)
    (hstale : ¬∀ entry ∈ writtenEntries winner, Current winner w.store entry) :
    ∃ reason, (publish txn seenChecks (plannedWrites winner w.store)).run
      (handle .nonBatchMemory) w =
      (.error reason, w) := by
  obtain ⟨reason, hrun⟩ := run_prepareEntries_refused .nonBatchMemory h hstale
  refine ⟨reason, ?_⟩
  rw [run_publish_withoutBatch, commitWinnerWithoutBatch, if_pos hpath,
    commitWinnerWithoutBatchCrashSafe, Program.run_bind, hrun,
    (looks_prepareEntries .nonBatchMemory _ _ _ w).run_eq]
  rfl

/-- The crash-safe path where every key exists. -/
theorem run_publish_crashSafe (hpath : txn.fallbackCommit.artifactPath ≠ [])
    (hsimulate : txn.fallbackCommit.simulateCrashAfterApplyCount = 0)
    (h : Checks winner w.store seenChecks)
    (hcurrent : ∀ entry ∈ writtenEntries winner, Current winner w.store entry)
    (hexists : ∀ entry ∈ writtenEntries winner, (w.store.get entry.objectId).exists_ = true) :
    ∃ w', (publish txn seenChecks (plannedWrites winner w.store)).run (handle .nonBatchMemory) w =
        (.ok (commitLogOf seenChecks (plannedWrites winner w.store)), w') ∧
      w'.store = w.store.applyWrites (plannedWrites winner w.store) ∧
      MarkedCommitted txn.fallbackCommit.artifactPath w' := by
  have hexists' : ∀ write ∈ plannedWrites winner w.store,
      (w.store.get write.key).exists_ = true := by
    intro write hwrite
    obtain ⟨entry, hentry, rfl⟩ := List.mem_map.1 hwrite
    exact hexists entry hentry
  obtain ⟨w', hrun, hstore, hmarked⟩ :=
    run_crashSafe_existing .nonBatchMemory (nodup_plannedWrites winner w.store)
    hsimulate (h.expects (fun _ he => he) hcurrent) hexists'
  refine ⟨w', ?_, hstore, hmarked⟩
  rw [run_publish_withoutBatch, commitWinnerWithoutBatch, if_pos hpath, hrun]
  rfl

/-- The crash-safe path up to the first key that does not exist. -/
theorem run_publish_crashSafe_missing (hpath : txn.fallbackCommit.artifactPath ≠ [])
    (hsimulate : txn.fallbackCommit.simulateCrashAfterApplyCount = 0)
    (h : Checks winner w.store seenChecks)
    (hcurrent : ∀ entry ∈ writtenEntries winner, Current winner w.store entry)
    {front rest : List ObjectCacheEntry} {entry : ObjectCacheEntry}
    (hsplit : writtenEntries winner = front ++ entry :: rest)
    (hexists : ∀ e ∈ front, (w.store.get e.objectId).exists_ = true)
    (hmissing : (w.store.get entry.objectId).exists_ = false) :
    ∃ reason w', (publish txn seenChecks (plannedWrites winner w.store)).run
      (handle .nonBatchMemory) w =
      (.error reason, w') ∧ TookBack (front.map (·.objectId)) w.store w'.store := by
  have hwrites : plannedWrites winner w.store =
    front.map (plannedWrite (latestIntents winner.intentLog) w.store) ++
      plannedWrite (latestIntents winner.intentLog) w.store entry ::
        rest.map (plannedWrite (latestIntents winner.intentLog) w.store) := by
    rw [plannedWrites, hsplit, List.map_append, List.map_cons]
  have hnodup := nodup_plannedWrites winner w.store
  have hexpects := h.expects (fun _ he => he) hcurrent
  rw [← plannedWrites, hwrites] at hexpects
  rw [hwrites] at hnodup
  have hfront : ∀ write ∈ front.map (plannedWrite (latestIntents winner.intentLog) w.store),
      (w.store.get write.key).exists_ = true := by
    intro write hwrite
    obtain ⟨e, he, rfl⟩ := List.mem_map.1 hwrite
    exact hexists e he
  obtain ⟨reason, w', hrun, hback⟩ :=
    run_crashSafe_missing .nonBatchMemory hnodup hsimulate hexpects hfront hmissing
  refine ⟨reason, w', ?_, ?_⟩
  · rw [run_publish_withoutBatch, commitWinnerWithoutBatch, if_pos hpath, hwrites, hrun]
    rfl
  · rw [List.map_map] at hback
    exact hback

end Outcome

end CommitManager

end DataAgentSystem.AgentTxn
