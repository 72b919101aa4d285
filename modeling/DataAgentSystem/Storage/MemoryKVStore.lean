import DataAgentSystem.Containers.UnorderedMap

/-! The versioned key-value interface and its in-memory implementation. A version is
a 64-bit counter that every write of its key raises by one, wrapping around. -/

namespace DataAgentSystem.Storage

open Text Containers

structure VersionedValue where
  value : Bytes := []
  version : UInt64 := 0
  exists_ : Bool := false
  deriving DecidableEq

structure VersionCheck where
  key : Bytes
  expectedVersion : UInt64 := 0
  deriving DecidableEq

structure WriteOp where
  key : Bytes
  value : Bytes
  deriving DecidableEq

structure Entry where
  value : Bytes := []
  version : UInt64 := 0
  deriving DecidableEq

instance : Inhabited Entry := ⟨{}⟩

@[simp] theorem default_entry : (default : Entry) = {} := rfl

structure MemoryKVStore where
  values : UnorderedMap Entry := ∅

namespace MemoryKVStore

def get (s : MemoryKVStore) (key : Bytes) : VersionedValue :=
  match s.values.lookup key with
  | none => {}
  | some entry => { value := entry.value, version := entry.version, exists_ := true }

def getVersion (s : MemoryKVStore) (key : Bytes) : UInt64 := (s.get key).version

/-- Overwrite an entry, creating it if necessary, and raise its version. -/
def write (s : MemoryKVStore) (key value : Bytes) : MemoryKVStore :=
  let (entry, values) := s.values.subscript key
  { values := values.insert key { value, version := entry.version + 1 } }

def put (s : MemoryKVStore) (key value : Bytes) : Bool × MemoryKVStore := (true, s.write key value)

/-- The source subscripts the map before it compares, so a refused write of a
missing key leaves an empty entry of version zero behind. -/
def putIfVersion (s : MemoryKVStore) (key : Bytes) (expectedVersion : UInt64) (value : Bytes) :
    Bool × MemoryKVStore :=
  let (entry, values) := s.values.subscript key
  if entry.version ≠ expectedVersion then (false, { values })
  else (true, { values := values.insert key { value, version := entry.version + 1 } })

def deleteIfVersion (s : MemoryKVStore) (key : Bytes) (expectedVersion : UInt64) :
    Bool × MemoryKVStore :=
  let current := s.values.lookup key
  let currentVersion := match current with | none => 0 | some entry => entry.version
  if currentVersion ≠ expectedVersion then (false, s)
  else if current.isSome then (true, { values := s.values.erase key }) else (true, s)

/-- The writes of a batch, in order. -/
def applyWrites (s : MemoryKVStore) (writes : List WriteOp) : MemoryKVStore :=
  writes.foldl (fun s w => s.write w.key w.value) s

def batchPutIfVersion (s : MemoryKVStore) (checks : List VersionCheck) (writes : List WriteOp) :
    Bool × MemoryKVStore :=
  if checks.all fun check => s.getVersion check.key = check.expectedVersion
  then (true, s.applyWrites writes) else (false, s)

/-! ### What each operation does to every key -/

theorem get_write (s : MemoryKVStore) (key value k : Bytes) :
    (s.write key value).get k =
      if k = key then { value, version := (s.get key).version + 1, exists_ := true }
        else s.get k := by
  by_cases hk : k = key
  · subst hk
    cases h : s.values.lookup k <;> simp [write, get, UnorderedMap.subscript, h]
  · cases h : s.values.lookup key <;> simp [write, get, UnorderedMap.subscript, h, hk]

@[simp] theorem get_write_self (s : MemoryKVStore) (key value : Bytes) :
    (s.write key value).get key =
      { value, version := (s.get key).version + 1, exists_ := true } := by
  simp [get_write]

theorem get_write_of_ne (s : MemoryKVStore) {key k : Bytes} (value : Bytes) (hk : k ≠ key) :
    (s.write key value).get k = s.get k := by simp [get_write, hk]

theorem version_of_not_exists {s : MemoryKVStore} {k : Bytes} (hk : (s.get k).exists_ = false) :
    s.get k = {} := by
  unfold get at hk ⊢
  cases h : s.values.lookup k <;> simp_all

theorem putIfVersion_of_eq {s : MemoryKVStore} {key : Bytes} {v : UInt64} (value : Bytes)
    (hv : s.getVersion key = v) : s.putIfVersion key v value = (true, s.write key value) := by
  subst hv
  cases h : s.values.lookup key <;>
    simp [putIfVersion, write, getVersion, get, UnorderedMap.subscript, h]

theorem putIfVersion_of_ne {s : MemoryKVStore} {key : Bytes} {v : UInt64} (value : Bytes)
    (hv : s.getVersion key ≠ v) : (s.putIfVersion key v value).1 = false := by
  cases h : s.values.lookup key <;>
    simp_all [putIfVersion, getVersion, get, UnorderedMap.subscript]

@[simp] theorem putIfVersion_fst (s : MemoryKVStore) (key : Bytes) (v : UInt64) (value : Bytes) :
    (s.putIfVersion key v value).1 = decide (s.getVersion key = v) := by
  by_cases hv : s.getVersion key = v
  · simp [putIfVersion_of_eq value hv, hv]
  · simp [putIfVersion_of_ne value hv, hv]

theorem deleteIfVersion_of_eq {s : MemoryKVStore} {key : Bytes} {v : UInt64}
    (hv : s.getVersion key = v) :
    (s.deleteIfVersion key v).1 = true ∧
      ∀ k, (s.deleteIfVersion key v).2.get k = if k = key then {} else s.get k := by
  have hkey : ∀ k, k ≠ key → (AList.erase key s.values).lookup k = s.values.lookup k :=
    fun k hk => AList.lookup_erase_ne hk
  subst hv
  cases h : s.values.lookup key with
  | none =>
    have hdel : s.deleteIfVersion key (s.getVersion key) = (true, s) := by
      simp [deleteIfVersion, getVersion, get, h]
    rw [hdel]
    refine ⟨rfl, fun k => ?_⟩
    by_cases hk : k = key
    · subst hk
      simp [get, h]
    · simp [hk]
  | some entry =>
    have hdel : s.deleteIfVersion key (s.getVersion key) =
        (true, { values := s.values.erase key }) := by
      simp [deleteIfVersion, getVersion, get, h]
    rw [hdel]
    refine ⟨rfl, fun k => ?_⟩
    by_cases hk : k = key
    · subst hk
      simp [get]
    · simp [hk, get, hkey k hk]

theorem deleteIfVersion_of_ne {s : MemoryKVStore} {key : Bytes} {v : UInt64}
    (hv : s.getVersion key ≠ v) :
    s.deleteIfVersion key v = (false, s) := by
  cases h : s.values.lookup key <;> simp_all [deleteIfVersion, getVersion, get]

@[simp] theorem applyWrites_nil (s : MemoryKVStore) : s.applyWrites [] = s := rfl

@[simp] theorem applyWrites_cons (s : MemoryKVStore) (w : WriteOp) (writes : List WriteOp) :
    s.applyWrites (w :: writes) = (s.write w.key w.value).applyWrites writes := rfl

theorem applyWrites_append (s : MemoryKVStore) (ws ws' : List WriteOp) :
    s.applyWrites (ws ++ ws') = (s.applyWrites ws).applyWrites ws' := List.foldl_append

/-- A key the batch does not write keeps its value and version. -/
theorem get_applyWrites_of_notMem {s : MemoryKVStore} {writes : List WriteOp} {k : Bytes}
    (hk : k ∉ writes.map WriteOp.key) : (s.applyWrites writes).get k = s.get k := by
  induction writes generalizing s with
  | nil => rfl
  | cons w writes ih =>
    simp only [List.map_cons, List.mem_cons, not_or] at hk
    rw [applyWrites_cons, ih hk.2, get_write_of_ne _ _ hk.1]

/-- A key the batch writes once gets its value, one version up. -/
theorem get_applyWrites_of_mem {s : MemoryKVStore} {writes : List WriteOp}
    (hnodup : (writes.map WriteOp.key).Nodup) {w : WriteOp} (hw : w ∈ writes) :
    (s.applyWrites writes).get w.key =
      { value := w.value, version := (s.get w.key).version + 1, exists_ := true } := by
  induction writes generalizing s with
  | nil => simp at hw
  | cons w' writes ih =>
    simp only [List.map_cons, List.nodup_cons] at hnodup
    rw [applyWrites_cons]
    rcases List.mem_cons.1 hw with rfl | hw
    · rw [get_applyWrites_of_notMem hnodup.1, get_write_self]
    · have hne : w.key ≠ w'.key := fun h => hnodup.1 (h ▸ List.mem_map_of_mem hw)
      rw [ih hnodup.2 hw, get_write_of_ne _ _ hne]

theorem batchPutIfVersion_of_all {s : MemoryKVStore} {checks : List VersionCheck}
    (writes : List WriteOp)
    (hc : ∀ check ∈ checks, s.getVersion check.key = check.expectedVersion) :
    s.batchPutIfVersion checks writes = (true, s.applyWrites writes) := by
  simp [batchPutIfVersion, List.all_eq_true.2 fun c h => decide_eq_true (hc c h)]

/-- A batch that answers true has met every check and made every write. -/
theorem batchPutIfVersion_true {s : MemoryKVStore} {checks : List VersionCheck}
    {writes : List WriteOp} (h : (s.batchPutIfVersion checks writes).1 = true) :
    (∀ check ∈ checks, s.getVersion check.key = check.expectedVersion) ∧
      (s.batchPutIfVersion checks writes).2 = s.applyWrites writes := by
  unfold batchPutIfVersion at h ⊢
  split at h
  next hc =>
    exact ⟨fun check hm => by simpa using List.all_eq_true.1 hc check hm, by rw [if_pos hc]⟩
  next => simp at h

/-- A batch that answers false has changed nothing. -/
theorem batchPutIfVersion_false {s : MemoryKVStore} {checks : List VersionCheck}
    {writes : List WriteOp} (h : (s.batchPutIfVersion checks writes).1 = false) :
    (s.batchPutIfVersion checks writes).2 = s := by
  unfold batchPutIfVersion at h ⊢
  split at h
  next => simp at h
  next hc => rw [if_neg hc]

/-! ### Stores to order -/

/-- A store that holds these entries of these keys. -/
def holding (held : Bytes → Entry) (keys : List Bytes) : MemoryKVStore :=
  { values := keys.foldr (fun k values => values.insert k (held k)) ∅ }

theorem get_holding (held : Bytes → Entry) {keys : List Bytes} {k : Bytes} (hk : k ∈ keys) :
    (holding held keys).get k =
      { value := (held k).value, version := (held k).version, exists_ := true } := by
  have hlookup :
    (keys.foldr (fun k values => values.insert k (held k)) (∅ : UnorderedMap Entry)).lookup k =
      some (held k) := by
    induction keys with
    | nil => exact absurd hk List.not_mem_nil
    | cons k' keys ih =>
      rw [List.foldr_cons, UnorderedMap.lookup_insert_eq_ite]
      by_cases heq : k = k'
      · rw [if_pos heq, heq]
      · rw [if_neg heq]
        exact ih ((List.mem_cons.1 hk).resolve_left heq)
  simp only [get, holding, hlookup]

end MemoryKVStore

end DataAgentSystem.Storage
