import DataAgentSystem.Storage.ConditionalOperations

/-! The adapter under the name of Redis. It keeps its objects in an in-memory store, each
under its key with the database and the namespace before it. Distinct keys stay distinct, so
what the adapter shows under the keys of its callers is an in-memory store as well. -/

namespace DataAgentSystem.Storage

open Text Containers
open FileKVStore (Mutation)

/-- The same call under other keys. -/
def FileKVStore.Mutation.rename (f : Bytes → Bytes) : Mutation → Mutation
  | .put key value => .put (f key) value
  | .putIfVersion key expectedVersion value => .putIfVersion (f key) expectedVersion value
  | .deleteIfVersion key expectedVersion => .deleteIfVersion (f key) expectedVersion
  | .batchPutIfVersion checks writes =>
    .batchPutIfVersion (checks.map fun check => { check with key := f check.key })
      (writes.map fun write => { write with key := f write.key })

structure RedisAdapter where
  host : Bytes := ascii "127.0.0.1"
  port : UInt16 := 6379
  databaseIndex : Int32 := 0
  namespacePrefix : Bytes := []
  fallbackStore : MemoryKVStore := {}

namespace RedisAdapter

def namespacedKey (adapter : RedisAdapter) (key : Bytes) : Bytes :=
  let start := ascii "db" ++ signedDecimal adapter.databaseIndex.toInt
  (if adapter.namespacePrefix = [] then start
    else start ++ (ascii ":" ++ adapter.namespacePrefix)) ++ ascii ":" ++ key

def get (adapter : RedisAdapter) (key : Bytes) : VersionedValue :=
  adapter.fallbackStore.get (adapter.namespacedKey key)

def getVersion (adapter : RedisAdapter) (key : Bytes) : UInt64 :=
  adapter.fallbackStore.getVersion (adapter.namespacedKey key)

def withFallback (adapter : RedisAdapter) (r : Bool × MemoryKVStore) : Bool × RedisAdapter :=
  (r.1, { adapter with fallbackStore := r.2 })

def put (adapter : RedisAdapter) (key value : Bytes) : Bool × RedisAdapter :=
  adapter.withFallback (adapter.fallbackStore.put (adapter.namespacedKey key) value)

def putIfVersion (adapter : RedisAdapter) (key : Bytes) (expectedVersion : UInt64) (value : Bytes) :
    Bool × RedisAdapter :=
  adapter.withFallback
    (adapter.fallbackStore.putIfVersion (adapter.namespacedKey key) expectedVersion value)

def deleteIfVersion (adapter : RedisAdapter) (key : Bytes) (expectedVersion : UInt64) :
    Bool × RedisAdapter :=
  adapter.withFallback
    (adapter.fallbackStore.deleteIfVersion (adapter.namespacedKey key) expectedVersion)

def batchPutIfVersion (adapter : RedisAdapter) (checks : List VersionCheck)
    (writes : List WriteOp) : Bool × RedisAdapter :=
  let namespacedChecks := checks.map fun check =>
      { check with key := adapter.namespacedKey check.key }
  let namespacedWrites := writes.map fun write =>
      { write with key := adapter.namespacedKey write.key }
  adapter.withFallback (adapter.fallbackStore.batchPutIfVersion namespacedChecks namespacedWrites)

def mutate (adapter : RedisAdapter) : Mutation → Bool × RedisAdapter
  | .put key value => adapter.put key value
  | .putIfVersion key expectedVersion value => adapter.putIfVersion key expectedVersion value
  | .deleteIfVersion key expectedVersion => adapter.deleteIfVersion key expectedVersion
  | .batchPutIfVersion checks writes => adapter.batchPutIfVersion checks writes

theorem namespacedKey_injective (adapter : RedisAdapter) :
    Function.Injective adapter.namespacedKey :=
  fun _ _ h => List.append_cancel_left h

theorem mutate_eq (adapter : RedisAdapter) (call : Mutation) :
    adapter.mutate call =
      adapter.withFallback (adapter.fallbackStore.mutate (call.rename adapter.namespacedKey)) := by
  cases call <;> rfl

end RedisAdapter

/-! ### Stores under other keys -/

namespace MemoryKVStore

/-- Under the renamed keys the first store shows what the second one shows. -/
def Renames (f : Bytes → Bytes) (s m : MemoryKVStore) : Prop := ∀ k, s.get (f k) = m.get k

variable {f : Bytes → Bytes} {s m : MemoryKVStore}

theorem Renames.getVersion (h : Renames f s m) (k : Bytes) : s.getVersion (f k) = m.getVersion k :=
  congrArg VersionedValue.version (h k)

theorem Renames.write (hf : Function.Injective f) (h : Renames f s m) (key value : Bytes) :
    Renames f (s.write (f key) value) (m.write key value) := by
  intro k
  rw [get_write, get_write, h k, h key]
  by_cases hk : k = key
  · rw [if_pos hk, if_pos (congrArg f hk)]
  · rw [if_neg hk, if_neg fun heq => hk (hf heq)]

theorem Renames.applyWrites (hf : Function.Injective f) (h : Renames f s m)
    (writes : List WriteOp) :
    Renames f (s.applyWrites (writes.map fun write => { write with key := f write.key }))
      (m.applyWrites writes) := by
  induction writes generalizing s m with
  | nil => exact h
  | cons write writes ih => exact ih (h.write hf write.key write.value)

/-- A call under the renamed keys answers as the call itself does, and leaves stores that show
the same. -/
theorem Renames.mutate (hf : Function.Injective f) (h : Renames f s m) (call : Mutation) :
    (s.mutate (call.rename f)).1 = (m.mutate call).1 ∧
      Renames f (s.mutate (call.rename f)).2 (m.mutate call).2 := by
  cases call with
  | put key value => exact ⟨rfl, h.write hf key value⟩
  | putIfVersion key v value =>
    show (s.putIfVersion (f key) v value).1 = (m.putIfVersion key v value).1 ∧
      Renames f (s.putIfVersion (f key) v value).2 (m.putIfVersion key v value).2
    by_cases hv : m.getVersion key = v
    · rw [putIfVersion_of_eq value hv, putIfVersion_of_eq value ((h.getVersion key).trans hv)]
      exact ⟨rfl, h.write hf key value⟩
    · have hv' : s.getVersion (f key) ≠ v := fun heq => hv ((h.getVersion key).symm.trans heq)
      rw [putIfVersion_of_ne value hv, putIfVersion_of_ne value hv']
      refine ⟨rfl, fun k => ?_⟩
      rw [get_putIfVersion_refused value hv', get_putIfVersion_refused value hv, h k]
      by_cases hk : k = key
      · rw [if_pos hk, if_pos (congrArg f hk)]
      · rw [if_neg hk, if_neg fun heq => hk (hf heq)]
  | deleteIfVersion key v =>
    show (s.deleteIfVersion (f key) v).1 = (m.deleteIfVersion key v).1 ∧
      Renames f (s.deleteIfVersion (f key) v).2 (m.deleteIfVersion key v).2
    by_cases hv : m.getVersion key = v
    · obtain ⟨hdone, hget⟩ := deleteIfVersion_of_eq hv
      obtain ⟨hdone', hget'⟩ := deleteIfVersion_of_eq ((h.getVersion key).trans hv)
      refine ⟨hdone'.trans hdone.symm, fun k => ?_⟩
      rw [hget, hget', h k]
      by_cases hk : k = key
      · rw [if_pos hk, if_pos (congrArg f hk)]
      · rw [if_neg hk, if_neg fun heq => hk (hf heq)]
    · have hv' : s.getVersion (f key) ≠ v := fun heq => hv ((h.getVersion key).symm.trans heq)
      rw [deleteIfVersion_of_ne hv, deleteIfVersion_of_ne hv']
      exact ⟨rfl, h⟩
  | batchPutIfVersion checks writes =>
    have hchecks :
        ((checks.map fun check => ({ check with key := f check.key } : VersionCheck)).all
          fun check =>
          s.getVersion check.key = check.expectedVersion) =
          checks.all fun check => m.getVersion check.key = check.expectedVersion := by
      rw [List.all_map]
      refine congrArg checks.all (funext fun check => ?_)
      simp only [Function.comp_apply, h.getVersion]
    show (s.batchPutIfVersion _ _).1 = (m.batchPutIfVersion checks writes).1 ∧
      Renames f (s.batchPutIfVersion _ _).2 (m.batchPutIfVersion checks writes).2
    unfold MemoryKVStore.batchPutIfVersion
    rw [hchecks]
    split
    · exact ⟨rfl, h.applyWrites hf writes⟩
    · exact ⟨rfl, h⟩

theorem rename_id (call : Mutation) : call.rename id = call := by
  cases call <;> simp [FileKVStore.Mutation.rename]

/-- Stores that show the same answer alike. -/
theorem mutate_of_same (h : ∀ k, s.get k = m.get k) (call : Mutation) :
    (s.mutate call).1 = (m.mutate call).1 ∧ ∀ k, (s.mutate call).2.get k =
      (m.mutate call).2.get k := by
  have hrenames := Renames.mutate Function.injective_id h call
  rwa [rename_id] at hrenames

end MemoryKVStore

end DataAgentSystem.Storage
