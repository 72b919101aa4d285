import DataAgentSystem.Interaction.Environment
import DataAgentSystem.Storage.ConditionalOperations

/-! Mutators of the file-backed store on a disk that fails. Each of them changes the map
in memory and only then writes it out, and what the map holds does not depend on whether
that works. So a call that answers false goes unseen exactly if it had nothing to change. -/

namespace DataAgentSystem.Storage

open Text Containers Interaction

/-- The answer of a disk call that fails; a stream does not tell of a byte that it loses. -/
def DiskCall.Fails : (op : DiskCall) → op.Resp → Prop
  | .append _ _, _ => True
  | .contents _, answer => answer = none
  | .openTruncated _, answer => answer = false
  | .flush _, answer => answer = false
  | .rename _ _, answer => answer = false
  | .remove _, answer => answer = false
  | .isGood _, answer => answer = false

/-- Each call may fail at any time, and then it may leave any disk behind. -/
def unreliableDisk : Environment DiskCall DiskCall.Resp Disk := fun op d r d' =>
  (r, d') = handleDisk op d ∨ op.Fails r

namespace MemoryKVStore

open FileKVStore (Mutation)

variable {s : MemoryKVStore} {writes : List WriteOp} {k : Bytes}

/-- The last write of a key. -/
def lastWrite (k : Bytes) (writes : List WriteOp) : Option WriteOp :=
  (writes.filter fun write => write.key = k).getLast?

/-- Writes that bring each of their keys back to where it was: as often as versions take
to come around, and at last with the value that was there. -/
def GoesAround (s : MemoryKVStore) (writes : List WriteOp) : Prop :=
  ∀ write ∈ writes, (s.get write.key).exists_ = true ∧ 2 ^ 64 ∣ writesTo write.key writes ∧
    ∀ last ∈ lastWrite write.key writes, last.value = (s.get write.key).value

/-- The call has nothing to change in the map. -/
def Idle (s : MemoryKVStore) : Mutation → Prop
  | .put _ _ => False
  | .putIfVersion key expectedVersion _ =>
    s.getVersion key ≠ expectedVersion ∧ (s.get key).exists_ = true
  | .deleteIfVersion key expectedVersion =>
    s.getVersion key ≠ expectedVersion ∨ (s.get key).exists_ = false
  | .batchPutIfVersion checks writes =>
    (∃ check ∈ checks, s.getVersion check.key ≠ check.expectedVersion) ∨ s.GoesAround writes

/-! ### Writes that cannot be seen -/

theorem lastWrite_cons (write : WriteOp) (writes : List WriteOp) :
    lastWrite k (write :: writes) =
      (lastWrite k writes).or (if write.key = k then some write else none) := by
  rw [lastWrite, lastWrite]
  by_cases hk : write.key = k
  · rw [List.filter_cons_of_pos (by simpa using hk), List.getLast?_cons, if_pos hk]
    cases (writes.filter fun write => write.key = k).getLast? <;> rfl
  · rw [List.filter_cons_of_neg (by simpa using hk), if_neg hk, Option.or_none]

/-- The last write of a key decides its value. -/
theorem value_applyWrites (s : MemoryKVStore) (writes : List WriteOp) (k : Bytes) :
    ((s.applyWrites writes).get k).value =
      ((lastWrite k writes).map WriteOp.value).getD (s.get k).value := by
  induction writes generalizing s with
  | nil => rfl
  | cons write writes ih =>
    rw [applyWrites_cons, ih, lastWrite_cons, get_write]
    cases lastWrite k writes with
    | some last => rfl
    | none =>
      by_cases hk : k = write.key
      · rw [if_pos hk, if_pos hk.symm]
        rfl
      · rw [if_neg hk, if_neg (Ne.symm hk)]
        rfl

theorem ofNat_eq_zero_iff {n : ℕ} : UInt64.ofNat n = 0 ↔ 2 ^ 64 ∣ n := by
  rw [← UInt64.toNat_inj, UInt64.toNat_ofNat', Nat.dvd_iff_mod_eq_zero]
  rfl

theorem add_eq_self_iff {v d : UInt64} : v + d = v ↔ d = 0 := by
  constructor
  · intro h
    have hsub : v + d - v = v - v := congrArg (· - v) h
    rwa [UInt64.sub_self, UInt64.add_comm, UInt64.add_sub_cancel] at hsub
  · rintro rfl
    exact UInt64.add_zero v

theorem ext_value {v v' : VersionedValue} (hvalue : v.value = v'.value)
    (hversion : v.version = v'.version) (hexists : v.exists_ = v'.exists_) : v = v' := by
  obtain ⟨value, version, exists_⟩ := v
  simp only at hvalue hversion hexists
  rw [hvalue, hversion, hexists]

theorem applyWrites_unseen_iff : (∀ k, (s.applyWrites writes).get k = s.get k) ↔
    s.GoesAround writes := by
  constructor
  · intro hsame write hwrite
    have hkey := hsame write.key
    refine ⟨?_, ?_, ?_⟩
    · rw [← hkey, exists_applyWrites]
      exact .inr (List.mem_map_of_mem hwrite)
    · have hversion : (s.applyWrites writes).getVersion write.key = s.getVersion write.key :=
        congrArg VersionedValue.version hkey
      rw [getVersion_applyWrites, add_eq_self_iff] at hversion
      exact ofNat_eq_zero_iff.1 hversion
    · intro last hlast
      rw [← hkey, value_applyWrites, hlast]
      rfl
  · intro hall k
    by_cases hk : k ∈ writes.map WriteOp.key
    · obtain ⟨write, hwrite, rfl⟩ := List.mem_map.1 hk
      obtain ⟨hexists, hcount, hlast⟩ := hall write hwrite
      have hversion : (s.applyWrites writes).getVersion write.key = s.getVersion write.key := by
        rw [getVersion_applyWrites, add_eq_self_iff]
        exact ofNat_eq_zero_iff.2 hcount
      have hexists' : ((s.applyWrites writes).get write.key).exists_ = true :=
        (exists_applyWrites s writes _).2 (.inl hexists)
      have hvalue : ((s.applyWrites writes).get write.key).value = (s.get write.key).value := by
        rw [value_applyWrites]
        cases hfound : lastWrite write.key writes with
        | none => rfl
        | some last => exact hlast last hfound
      exact ext_value hvalue hversion (hexists'.trans hexists.symm)
    · exact get_applyWrites_of_notMem hk

/-- Any call leaves the map as it was exactly if it is idle. -/
theorem mutate_unseen_iff (s : MemoryKVStore) (call : Mutation) :
    (∀ k, (s.mutate call).2.get k = s.get k) ↔ s.Idle call := by
  cases call with
  | put key value =>
    refine iff_of_false (fun hsame => ?_) id
    have hversion := congrArg VersionedValue.version (hsame key)
    rw [mutate, put, get_write_self] at hversion
    exact absurd (add_eq_self_iff.1 hversion) (by decide)
  | putIfVersion key expectedVersion value =>
    by_cases hv : s.getVersion key = expectedVersion
    · refine iff_of_false (fun hsame => ?_) fun hidle => hidle.1 hv
      have hversion := congrArg VersionedValue.version (hsame key)
      rw [mutate, putIfVersion_of_eq value hv, get_write_self] at hversion
      exact absurd (add_eq_self_iff.1 hversion) (by decide)
    · have hget := get_putIfVersion_refused value hv
      rw [Idle, and_iff_right hv]
      constructor
      · intro hsame
        have hkey := hsame key
        rw [mutate, hget, if_pos rfl] at hkey
        exact (congrArg VersionedValue.exists_ hkey).symm
      · intro hexists k
        rw [mutate, hget]
        split
        next hk => rw [hk, ← hexists]
        next => rfl
  | deleteIfVersion key expectedVersion =>
    by_cases hv : s.getVersion key = expectedVersion
    · have hget := (deleteIfVersion_of_eq hv).2
      rw [Idle, or_iff_right (not_not.2 hv)]
      constructor
      · intro hsame
        have hkey := hsame key
        rw [mutate, hget, if_pos rfl] at hkey
        rw [← hkey]
      · intro hmissing k
        rw [mutate, hget]
        split
        next hk => rw [hk, version_of_not_exists hmissing]
        next => rfl
    · refine iff_of_true (fun k => ?_) (.inl hv)
      rw [mutate, deleteIfVersion_of_ne hv]
  | batchPutIfVersion checks writes =>
    rw [Idle, mutate, batchPutIfVersion_writtenBy, writtenBy]
    by_cases hc : ∀ check ∈ checks, s.getVersion check.key = check.expectedVersion
    · have hnot : ¬∃ check ∈ checks, s.getVersion check.key ≠ check.expectedVersion := by
        rintro ⟨check, hcheck, hne⟩
        exact hne (hc check hcheck)
      rw [if_pos hc, or_iff_right hnot]
      exact applyWrites_unseen_iff
    · rw [if_neg hc]
      refine iff_of_true (fun k => rfl) (.inl ?_)
      simpa only [not_forall, exists_prop] using hc

end MemoryKVStore

namespace FileKVStore

variable {order : IterationOrder} {path : Bytes}

/-- Whatever the disk does, the map in memory is the changed one. -/
theorem returns_mutate (s : MemoryKVStore) (call : Mutation) :
    (mutate order path s call).Returns fun out => out.2 = (s.mutate call).2 := by
  have hpersist : ∀ changed : Bool × MemoryKVStore,
      (persistChanged order path changed).Returns fun out => out.2 = changed.2 := by
    rintro ⟨made, s'⟩
    cases made with
    | false => exact rfl
    | true => exact Program.Returns.bind (Program.returns_true _) fun persisted _ => rfl
  cases call <;> exact hpersist _

/-- After a mutator that answers false, on whatever disk, every key reads as before exactly
if the call had nothing to change. -/
theorem mutate_failed_unseen_iff (order : IterationOrder) (path : Bytes)
    (s s' : MemoryKVStore) (call : Mutation) (d d' : Disk)
    (answers : List (Answer DiskCall DiskCall.Resp))
    (hfalse : (mutate order path s call).Reaches unreliableDisk d answers (.ret (false, s')) d') :
    (∀ k, s'.get k = s.get k) ↔ s.Idle call := by
  have hmap : s' = (s.mutate call).2 := (returns_mutate s call).reaches hfalse
  rw [hmap]
  exact s.mutate_unseen_iff call

/-- A write on a disk on which not even the journal can be opened. -/
theorem reaches_put_failed (s : MemoryKVStore) (key value : Bytes) (d : Disk) :
    (mutate order path s (.put key value)).Reaches unreliableDisk d
      [⟨.openTruncated (journalPath path), false⟩]
      (.ret (false, s.write key value)) d :=
  .call (.inr rfl) (.here _ _)

theorem mutate_failed_put :
    (∀ k, (MemoryKVStore.write {} (ascii "k") (ascii "v")).get k = MemoryKVStore.get {} k) ↔
    MemoryKVStore.Idle {} (.put (ascii "k") (ascii "v")) :=
  mutate_failed_unseen_iff IterationOrder.stored (ascii "kv") {} _ _ ∅ ∅
    _ (reaches_put_failed {} _ _ ∅)

/-- The write answers false, and the key reads as written. -/
theorem mutate_failed_seen :
    ¬∀ (order : IterationOrder) (path : Bytes) (s s' : MemoryKVStore)
      (call : Mutation) (d d' : Disk)
      (answers : List (Answer DiskCall DiskCall.Resp)),
      (mutate order path s call).Reaches unreliableDisk d answers (.ret (false, s')) d' →
        ∀ k, s'.get k = s.get k := by
  intro h
  have hk := h IterationOrder.stored (ascii "kv") {} _ _ ∅ ∅
    _ (reaches_put_failed {} (ascii "k") (ascii "v") ∅) (ascii "k")
  exact absurd hk (by decide)

end FileKVStore

end DataAgentSystem.Storage
