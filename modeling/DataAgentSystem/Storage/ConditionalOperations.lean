import DataAgentSystem.Storage.PersistenceRoundTrip
import DataAgentSystem.Storage.Versions

/-! Calls on the in-memory store and what a refused one leaves behind. A conditional
write looks its key up by a subscript, which creates the key, and only then compares
the version. So a missing key that another version was expected of exists from then
on, at version zero; and at version zero a key also arrives that has been written
until its version wraps around. Nothing else parts existence from the version. -/

namespace DataAgentSystem.Storage.MemoryKVStore

open Text Containers
open FileKVStore (Mutation)

/-- The answer to a call, and the store it leaves. -/
def mutate (s : MemoryKVStore) : Mutation → Bool × MemoryKVStore
  | .put key value => s.put key value
  | .putIfVersion key expectedVersion value => s.putIfVersion key expectedVersion value
  | .deleteIfVersion key expectedVersion => s.deleteIfVersion key expectedVersion
  | .batchPutIfVersion checks writes => s.batchPutIfVersion checks writes

/-- A sequence of calls, whatever each of them answers. -/
def mutateAll : MemoryKVStore → List Mutation → MemoryKVStore
  | s, [] => s
  | s, call :: calls => (s.mutate call).2.mutateAll calls

/-- Each call has the property at the store that it meets. -/
def Throughout (P : MemoryKVStore → Mutation → Prop) : MemoryKVStore → List Mutation → Prop
  | _, [] => True
  | s, call :: calls => P s call ∧ Throughout P (s.mutate call).2 calls

/-- The writes that a call makes. -/
def writtenBy (s : MemoryKVStore) : Mutation → List WriteOp
  | .put key value => [{ key, value }]
  | .putIfVersion key expectedVersion value =>
    if s.getVersion key = expectedVersion then [{ key, value }] else []
  | .deleteIfVersion _ _ => []
  | .batchPutIfVersion checks writes =>
    if ∀ check ∈ checks, s.getVersion check.key = check.expectedVersion then writes else []

/-- A delete that finds its key there, at the version expected. -/
def Removes (k : Bytes) (s : MemoryKVStore) : Mutation → Prop
  | .deleteIfVersion key expectedVersion =>
    key = k ∧ s.getVersion k = expectedVersion ∧ (s.get k).exists_ = true
  | _ => False

/-- A conditional write that misses its key and expects another version than zero. -/
def Leaves (k : Bytes) (s : MemoryKVStore) : Mutation → Prop
  | .putIfVersion key expectedVersion _ => key = k ∧ expectedVersion ≠ 0 ∧ (s.get k).exists_ = false
  | _ => False

variable {s : MemoryKVStore} {k : Bytes} {call : Mutation} {calls : List Mutation}

/-! ### One call -/

/-- A key is there after some writes if it was there before or is one of those written. -/
theorem exists_applyWrites (s : MemoryKVStore) (writes : List WriteOp) (k : Bytes) :
    ((s.applyWrites writes).get k).exists_ = true ↔ (s.get k).exists_ = true ∨
      k ∈ writes.map WriteOp.key := by
  induction writes generalizing s with
  | nil => simp
  | cons write writes ih =>
    rw [applyWrites_cons, ih, get_write, List.map_cons, List.mem_cons]
    by_cases hk : k = write.key <;> simp [hk]

/-- A conditional write makes its write or none, and in the second case may leave its key behind. -/
theorem get_mutate_putIfVersion (s : MemoryKVStore) (key : Bytes) (v : UInt64) (value k : Bytes) :
    (Leaves k s (.putIfVersion key v value) ∧ (s.putIfVersion key v value).2.get k =
      { exists_ := true } ∧ s.get k = {} ∧
      s.writtenBy (.putIfVersion key v value) = []) ∨
    (¬Leaves k s (.putIfVersion key v value) ∧
      (s.putIfVersion key v value).2.get k =
          (s.applyWrites (s.writtenBy (.putIfVersion key v value))).get k) := by
  by_cases hv : s.getVersion key = v
  · refine .inr ⟨?_, ?_⟩
    · rintro ⟨rfl, hne, hmissing⟩
      apply hne
      rw [← hv, getVersion, version_of_not_exists hmissing]
    · rw [putIfVersion_of_eq value hv, writtenBy, if_pos hv]
      rfl
  · have hget := get_putIfVersion_refused value hv k
    have hnone : s.writtenBy (.putIfVersion key v value) = [] := if_neg hv
    by_cases hk : k = key
    · subst hk
      rw [if_pos rfl] at hget
      cases hexists : (s.get k).exists_ with
      | false =>
        have hempty := version_of_not_exists hexists
        refine .inl ⟨⟨rfl, ?_, hexists⟩, ?_, hempty, hnone⟩
        · rintro rfl
          exact hv (by rw [getVersion, hempty])
        · rw [hget, hempty]
      | true =>
        refine .inr ⟨fun h => ?_, ?_⟩
        · exact absurd (hexists.symm.trans h.2.2) (by decide)
        · rw [hget, hnone, ← hexists]
          rfl
    · rw [if_neg hk] at hget
      refine .inr ⟨fun h => hk h.1.symm, ?_⟩
      rw [hget, hnone]
      rfl

/-- A conditional delete removes its key if that is there, and nothing else. -/
theorem get_mutate_deleteIfVersion (s : MemoryKVStore) (key : Bytes) (v : UInt64) (k : Bytes) :
    (Removes k s (.deleteIfVersion key v) ∧ (s.deleteIfVersion key v).2.get k = {}) ∨
    (¬Removes k s (.deleteIfVersion key v) ∧ (s.deleteIfVersion key v).2.get k = s.get k) := by
  by_cases hv : s.getVersion key = v
  · have hget := (deleteIfVersion_of_eq hv).2 k
    by_cases hk : k = key
    · subst hk
      rw [if_pos rfl] at hget
      cases hexists : (s.get k).exists_ with
      | true => exact .inl ⟨⟨rfl, hv, hexists⟩, hget⟩
      | false =>
        refine .inr ⟨fun h => ?_, ?_⟩
        · exact absurd (hexists.symm.trans h.2.2) (by decide)
        · exact hget.trans (version_of_not_exists hexists).symm
    · rw [if_neg hk] at hget
      exact .inr ⟨fun h => hk h.1.symm, hget⟩
  · refine .inr ⟨fun h => hv (h.1 ▸ h.2.1), ?_⟩
    rw [deleteIfVersion_of_ne hv]

/-- A batch makes its writes or changes nothing. -/
theorem batchPutIfVersion_writtenBy (s : MemoryKVStore) (checks : List VersionCheck)
    (writes : List WriteOp) :
    (s.batchPutIfVersion checks writes).2 =
      s.applyWrites (s.writtenBy (.batchPutIfVersion checks writes)) := by
  by_cases hc : ∀ check ∈ checks, s.getVersion check.key = check.expectedVersion
  · rw [batchPutIfVersion_of_all writes hc, writtenBy, if_pos hc]
  · have hfalse : (s.batchPutIfVersion checks writes).1 = false :=
      Bool.eq_false_iff.2 fun htrue => hc (batchPutIfVersion_true htrue).1
    rw [batchPutIfVersion_false hfalse, writtenBy, if_neg hc]
    rfl

/-- A call makes its writes, or removes its key, or may leave its key behind. -/
theorem get_mutate (s : MemoryKVStore) (call : Mutation) (k : Bytes) :
    (Removes k s call ∧ (s.mutate call).2.get k = {}) ∨
    (Leaves k s call ∧ (s.mutate call).2.get k = { exists_ := true } ∧
      s.get k = {} ∧ s.writtenBy call = []) ∨
    (¬Removes k s call ∧ ¬Leaves k s call ∧ (s.mutate call).2.get k =
        (s.applyWrites (s.writtenBy call)).get k) := by
  cases call with
  | put key value => exact .inr (.inr ⟨id, id, rfl⟩)
  | putIfVersion key expectedVersion value =>
    rcases s.get_mutate_putIfVersion key expectedVersion value k with hleaves | ⟨hnot, hget⟩
    · exact .inr (.inl hleaves)
    · exact .inr (.inr ⟨id, hnot, hget⟩)
  | deleteIfVersion key expectedVersion =>
    rcases s.get_mutate_deleteIfVersion key expectedVersion k with hremoves | ⟨hnot, hget⟩
    · exact .inl hremoves
    · exact .inr (.inr ⟨hnot, id, hget⟩)
  | batchPutIfVersion checks writes =>
    refine .inr (.inr ⟨id, id, ?_⟩)
    rw [mutate, batchPutIfVersion_writtenBy]

/-- What a refused call would have written, it has not. -/
theorem writtenBy_of_refused (h : (s.mutate call).1 = false) : s.writtenBy call = [] := by
  cases call with
  | put key value => cases h
  | putIfVersion key expectedVersion value =>
    refine if_neg fun hv => ?_
    rw [mutate, putIfVersion_of_eq value hv] at h
    cases h
  | deleteIfVersion key expectedVersion => rfl
  | batchPutIfVersion checks writes =>
    refine if_neg fun hc => ?_
    rw [mutate, batchPutIfVersion_of_all writes hc] at h
    cases h

theorem refused_of_leaves (h : Leaves k s call) : (s.mutate call).1 = false := by
  cases call with
  | putIfVersion key expectedVersion value =>
    obtain ⟨rfl, hne, hmissing⟩ := h
    have hversion : s.getVersion key = 0 := by rw [getVersion, version_of_not_exists hmissing]
    exact putIfVersion_of_ne value fun hv => hne (hv.symm.trans hversion)
  | _ => cases h

theorem not_removes_of_refused (h : (s.mutate call).1 = false) : ¬Removes k s call := by
  cases call with
  | deleteIfVersion key expectedVersion =>
    rintro ⟨rfl, hv, -⟩
    rw [mutate, (deleteIfVersion_of_eq hv).1] at h
    cases h
  | _ => exact id

/-! ### Existence and versions -/

/-- A key exists exactly if its version is at least one. -/
def Numbered (s : MemoryKVStore) : Prop := ∀ k, (s.get k).exists_ = true ↔ 1 ≤ s.getVersion k

/-- If the call is refused it changes nothing. -/
def UnchangedIfRefused (s : MemoryKVStore) (call : Mutation) : Prop :=
  (s.mutate call).1 = false → ∀ k, (s.mutate call).2.get k = s.get k

/-- All stores from this one on are numbered, and no refused call changes anything. -/
def Sound : MemoryKVStore → List Mutation → Prop
  | s, [] => s.Numbered
  | s, call :: calls => s.Numbered ∧ s.UnchangedIfRefused call ∧ Sound (s.mutate call).2 calls

/-- The call leaves no missing key behind, and takes the version of no key around to zero. -/
structure Harmless (s : MemoryKVStore) (call : Mutation) : Prop where
  creates : ∀ k, ¬Leaves k s call
  wraps : ∀ write ∈ s.writtenBy call,
    s.getVersion write.key + UInt64.ofNat (writesTo write.key (s.writtenBy call)) ≠ 0

theorem one_le_iff {v : UInt64} : 1 ≤ v ↔ v ≠ 0 := by
  rw [UInt64.le_iff_toNat_le, Ne, ← UInt64.toNat_inj]
  show 1 ≤ v.toNat ↔ ¬v.toNat = 0
  omega

/-- From a numbered store a call is sound exactly if it is harmless. -/
theorem harmless_iff (h : s.Numbered) :
    s.UnchangedIfRefused call ∧ (s.mutate call).2.Numbered ↔ s.Harmless call := by
  constructor
  · rintro ⟨hrefused, hnumbered⟩
    have hcreates : ∀ k, ¬Leaves k s call := by
      intro k hleaves
      rcases s.get_mutate call k with ⟨hremoves, -⟩ | ⟨-, hget, hempty, -⟩ | ⟨-, hnot, -⟩
      · exact not_removes_of_refused (refused_of_leaves hleaves) hremoves
      · have hsame := hrefused (refused_of_leaves hleaves) k
        rw [hget, hempty] at hsame
        cases hsame
      · exact hnot hleaves
    refine ⟨hcreates, fun write hwrite => ?_⟩
    rcases s.get_mutate call write.key with ⟨hremoves, -⟩ | ⟨hleaves, -⟩ | ⟨-, -, hget⟩
    · cases call with
      | deleteIfVersion key expectedVersion => cases hwrite
      | _ => cases hremoves
    · exact absurd hleaves (hcreates _)
    · have hexists : ((s.mutate call).2.get write.key).exists_ = true := by
        rw [hget, exists_applyWrites]
        exact .inr (List.mem_map_of_mem hwrite)
      have hversion := one_le_iff.1 ((hnumbered write.key).1 hexists)
      rwa [getVersion, hget, ← getVersion, getVersion_applyWrites] at hversion
  · intro hharmless
    constructor
    · intro hrefused k
      rcases s.get_mutate call k with ⟨hremoves, -⟩ | ⟨hleaves, -⟩ | ⟨-, -, hget⟩
      · exact absurd hremoves (not_removes_of_refused hrefused)
      · exact absurd hleaves (hharmless.creates k)
      · rw [hget, writtenBy_of_refused hrefused]
        rfl
    · intro k
      rcases s.get_mutate call k with ⟨-, hget⟩ | ⟨hleaves, -⟩ | ⟨-, -, hget⟩
      · rw [getVersion, hget]
        decide
      · exact absurd hleaves (hharmless.creates k)
      · rw [getVersion, hget, ← getVersion, getVersion_applyWrites, exists_applyWrites, one_le_iff]
        by_cases hk : k ∈ (s.writtenBy call).map WriteOp.key
        · obtain ⟨write, hwrite, rfl⟩ := List.mem_map.1 hk
          exact iff_of_true (.inr hk) (hharmless.wraps write hwrite)
        · rw [writesTo_eq_zero_iff.2 hk, or_iff_left hk, h k, one_le_iff]
          exact Iff.of_eq (congrArg (· ≠ 0) (UInt64.add_zero _).symm)

theorem Sound.numbered (h : s.Sound calls) : s.Numbered := by
  cases calls with
  | nil => exact h
  | cons call calls => exact h.1

theorem sound_iff_of_numbered (h : s.Numbered) : s.Sound calls ↔ s.Throughout Harmless calls := by
  induction calls generalizing s with
  | nil => exact iff_of_true h trivial
  | cons call calls ih =>
    constructor
    · rintro ⟨-, hrefused, hrest⟩
      have hnumbered := hrest.numbered
      exact ⟨(harmless_iff h).1 ⟨hrefused, hnumbered⟩, (ih hnumbered).1 hrest⟩
    · rintro ⟨hharmless, hrest⟩
      obtain ⟨hrefused, hnumbered⟩ := (harmless_iff h).2 hharmless
      exact ⟨h, hrefused, (ih hnumbered).2 hrest⟩

/-- From the empty store on, refused calls change nothing and existing keys are those of
a version from one on, exactly in the runs of harmless calls. -/
theorem sound_iff (calls : List Mutation) : Sound {} calls ↔ Throughout Harmless {} calls :=
  sound_iff_of_numbered fun _ => iff_of_false nofun nofun

/-- A conditional write of a missing key that expects the version one. -/
theorem not_sound_putIfVersion : ¬Sound {} [.putIfVersion (ascii "k") 1 (ascii "v")] := by
  rintro ⟨-, hrefused, -⟩
  have hsame := hrefused (by decide) (ascii "k")
  exact absurd (congrArg VersionedValue.exists_ hsame) (by decide)

end DataAgentSystem.Storage.MemoryKVStore
