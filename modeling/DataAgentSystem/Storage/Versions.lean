import DataAgentSystem.Storage.MemoryKVStore

/-! Versions as evidence. While no version wraps around, a key whose version has
not grown has not been written, so a key and a version fix a value. -/

namespace DataAgentSystem.Storage

open Text Containers

namespace MemoryKVStore

/-- No write of the list meets a version that it would wrap around. -/
def NoWrap : MemoryKVStore → List WriteOp → Prop
  | _, [] => True
  | s, w :: writes => s.getVersion w.key + 1 ≠ 0 ∧ NoWrap (s.write w.key w.value) writes

instance decidableNoWrap : (s : MemoryKVStore) → (writes : List WriteOp) →
    Decidable (s.NoWrap writes)
  | _, [] => isTrue trivial
  | s, w :: writes =>
    have := decidableNoWrap (s.write w.key w.value) writes
    inferInstanceAs (Decidable (_ ∧ _))

theorem noWrap_append {s : MemoryKVStore} {writes writes' : List WriteOp} :
    s.NoWrap (writes ++ writes') ↔ s.NoWrap writes ∧ (s.applyWrites writes).NoWrap writes' := by
  induction writes generalizing s with
  | nil => simp [NoWrap]
  | cons w writes ih => simp only [List.cons_append, NoWrap, applyWrites_cons, ih, and_assoc]

theorem version_lt_add_one {v : UInt64} (hv : v + 1 ≠ 0) : v < v + 1 := by
  rw [UInt64.lt_iff_toNat_lt]
  have hne : (v + 1).toNat ≠ 0 := fun h => hv (UInt64.toNat_inj.1 h)
  rw [UInt64.toNat_add] at hne ⊢
  have hone : (1 : UInt64).toNat = 1 := rfl
  have hlt := v.toNat_lt
  rw [hone] at hne ⊢
  omega

/-- Writes that wrap no version raise a key's version or leave the key alone. -/
theorem get_applyWrites_of_noWrap {s : MemoryKVStore} {writes : List WriteOp}
    (h : s.NoWrap writes) (k : Bytes) :
    s.getVersion k < (s.applyWrites writes).getVersion k ∨
      (s.applyWrites writes).get k = s.get k := by
  induction writes generalizing s with
  | nil => exact .inr rfl
  | cons w writes ih =>
    obtain ⟨hw, hrest⟩ := h
    rw [applyWrites_cons]
    by_cases hk : k = w.key
    · subst hk
      have hup : s.getVersion w.key < (s.write w.key w.value).getVersion w.key := by
        have hget : (s.write w.key w.value).getVersion w.key = s.getVersion w.key + 1 := by
          simp only [getVersion, get_write_self]
        rw [hget]
        exact version_lt_add_one hw
      rcases ih hrest with hlt | heq
      · exact .inl (UInt64.lt_trans hup hlt)
      · refine .inl ?_
        rw [getVersion, getVersion, heq]
        exact hup
    · have hsame : (s.write w.key w.value).get k = s.get k := get_write_of_ne _ _ hk
      rcases ih hrest with hlt | heq
      · refine .inl ?_
        rw [getVersion, hsame] at hlt
        exact hlt
      · exact .inr (heq.trans hsame)

/-! ### Counting the writes of a key -/

/-- How many of the writes are of the key. -/
def writesTo (k : Bytes) (writes : List WriteOp) : ℕ := writes.countP fun write => write.key = k

@[simp] theorem writesTo_nil (k : Bytes) : writesTo k [] = 0 := rfl

theorem writesTo_append (k : Bytes) (writes writes' : List WriteOp) :
    writesTo k (writes ++ writes') = writesTo k writes + writesTo k writes' := List.countP_append

theorem writesTo_eq_zero_iff {k : Bytes} {writes : List WriteOp} :
    writesTo k writes = 0 ↔ k ∉ writes.map WriteOp.key := by
  rw [writesTo, List.countP_eq_zero, List.mem_map]
  constructor
  · rintro h ⟨write, hwrite, hkey⟩
    exact h write hwrite (by simpa using hkey)
  · intro h write hwrite hkey
    exact h ⟨write, hwrite, by simpa using hkey⟩

/-- The version of a key counts its writes, modulo the word size. -/
theorem getVersion_applyWrites (s : MemoryKVStore) (writes : List WriteOp) (k : Bytes) :
    (s.applyWrites writes).getVersion k = s.getVersion k + UInt64.ofNat (writesTo k writes) := by
  induction writes generalizing s with
  | nil => exact (UInt64.add_zero _).symm
  | cons write writes ih =>
    rw [applyWrites_cons, ih]
    by_cases hk : k = write.key
    · subst hk
      have hcount : writesTo write.key (write :: writes) = writesTo write.key writes + 1 := by
        rw [writesTo, List.countP_cons_of_pos (by simp), writesTo]
      have hone : (s.write write.key write.value).getVersion write.key =
          s.getVersion write.key + 1 := by
        rw [getVersion, get_write_self, getVersion]
      rw [hcount, hone, UInt64.ofNat_add, UInt64.add_assoc, UInt64.add_comm 1]
      rfl
    · have hcount : writesTo k (write :: writes) = writesTo k writes := by
        rw [writesTo, List.countP_cons_of_neg (by simp [Ne.symm hk]), writesTo]
      rw [hcount, getVersion, get_write_of_ne _ _ hk]
      rfl

/-- A refused conditional write leaves values and versions alone, but its key exists. -/
theorem get_putIfVersion_refused {s : MemoryKVStore} {key : Bytes} {v : UInt64} (value : Bytes)
    (hv : s.getVersion key ≠ v) (k : Bytes) :
    (s.putIfVersion key v value).2.get k = if k = key then { s.get k with exists_ := true }
      else s.get k := by
  have hentry : ((s.values.subscript key).1).version = s.getVersion key := by
    cases h : s.values.lookup key <;> simp [UnorderedMap.subscript, getVersion, get, h]
  have hrefused : (s.putIfVersion key v value).2 = { values := (s.values.subscript key).2 } := by
    simp only [putIfVersion, hentry, hv, ne_eq, not_false_eq_true, ↓reduceIte]
  rw [hrefused]
  by_cases hk : k = key
  · subst hk
    cases h : s.values.lookup k <;> simp [UnorderedMap.subscript, h, get]
  · cases h : s.values.lookup key <;> simp [UnorderedMap.subscript, h, get, hk]

/-- That a refused conditional write may create its key cannot be told by value and version. -/
theorem get_putIfVersion_of_ne {s : MemoryKVStore} {key : Bytes} {v : UInt64} (value : Bytes)
    (hv : s.getVersion key ≠ v) (k : Bytes) :
    ((s.putIfVersion key v value).2.get k).value = (s.get k).value ∧
      (s.putIfVersion key v value).2.getVersion k = s.getVersion k := by
  rw [getVersion, getVersion, get_putIfVersion_refused value hv k]
  by_cases hk : k = key
  · rw [if_pos hk]
    exact ⟨rfl, rfl⟩
  · rw [if_neg hk]
    exact ⟨rfl, rfl⟩

end MemoryKVStore

end DataAgentSystem.Storage
