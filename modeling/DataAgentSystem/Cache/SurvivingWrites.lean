import DataAgentSystem.Cache.WriteBuffer

/-! Any calls on a write buffer, with any arguments. A truncation undoes the last of the
upserts that still stand, each of them exactly, so the buffer is at all times a fresh
one that was given the surviving upserts and no others. -/

namespace DataAgentSystem.Cache

open Text Intent

inductive BufferCall where
  | upsert (entry : ObjectCacheEntry)
  | truncate (size : ℕ)

namespace BufferCall

def perform (b : WriteBufferData) : BufferCall → WriteBufferData
  | .upsert entry => b.upsert entry
  | .truncate size => b.truncate size

/-- The upserts that survive the call. -/
def survivors (upserts : List ObjectCacheEntry) : BufferCall → List ObjectCacheEntry
  | .upsert entry => upserts ++ [entry]
  | .truncate size => upserts.take size

end BufferCall

/-- A buffer on which the calls have been made, one after the other. -/
def performAll (calls : List BufferCall) : WriteBufferData := calls.foldl BufferCall.perform {}

def survivingUpserts (calls : List BufferCall) : List ObjectCacheEntry :=
  calls.foldl BufferCall.survivors []

namespace WriteBufferData

/-- `Entries()` with its lookups, any of which may throw. -/
def entriesInOrder (b : WriteBufferData) : Option (List ObjectCacheEntry) := b.order.mapM b.entries

/-- The last of some upserts of an object. -/
def lastUpsert (upserts : List ObjectCacheEntry) (objectId : Bytes) : Option ObjectCacheEntry :=
  upserts.reverse.find? fun entry => entry.objectId = objectId

/-- The buffer shows these upserts: its objects in the order of their first upserts, each
of them once and with its last entry. -/
structure Shows (b : WriteBufferData) (upserts : List ObjectCacheEntry) : Prop where
  size : b.changes.length = upserts.length
  order : b.order = (upserts.map (·.objectId)).eraseDups
  nodup : b.order.Nodup
  keys : ∀ objectId, objectId ∈ b.order ↔ (b.entries objectId).isSome
  find : ∀ objectId, b.entries objectId = lastUpsert upserts objectId
  entriesInOrder : b.entriesInOrder = some (b.order.filterMap (lastUpsert upserts))

variable {b : WriteBufferData} (upserts : List ObjectCacheEntry)

/-- One more upsert of an object that was there keeps the order, any other one goes last. -/
theorem order_replay : (replay upserts).order = (upserts.map (·.objectId)).eraseDups := by
  induction upserts using List.reverseRecOn with
  | nil => rfl
  | append_singleton upserts entry ih =>
    have hlast : [entry.objectId].removeAll (upserts.map (·.objectId)) =
        if entry.objectId ∈ upserts.map (·.objectId) then [] else [entry.objectId] := by
      simp [List.removeAll, List.filter_singleton]
    rw [order_replay_snoc, ih, List.map_append, List.map_singleton, List.eraseDups_append, hlast]
    split
    · simp
    · rfl

/-- Lookups of what is there all succeed. -/
theorem entriesInOrder_eq (hkeys : ∀ objectId ∈ b.order, (b.entries objectId).isSome) :
    b.entriesInOrder = some (b.order.filterMap b.entries) := by
  rw [entriesInOrder]
  generalize b.order = order at hkeys
  induction order with
  | nil => rfl
  | cons objectId order ih =>
    rw [List.forall_mem_cons] at hkeys
    obtain ⟨entry, hentry⟩ := Option.isSome_iff_exists.1 hkeys.1
    simp [List.mapM_cons, hentry, ih hkeys.2]

theorem shows_replay : (replay upserts).Shows upserts := by
  have hconsistent := consistent_replay upserts
  have hfind : (replay upserts).entries = lastUpsert upserts := funext (entries_replay upserts)
  refine ⟨length_changes_replay upserts, order_replay upserts,
    hconsistent.nodup, hconsistent.mem_order, entries_replay upserts, ?_⟩
  rw [entriesInOrder_eq fun objectId hmem => (hconsistent.mem_order objectId).1 hmem, hfind]

end WriteBufferData

/-- One call on a fresh buffer with some upserts leaves a fresh one with the survivors. -/
theorem perform_replay (upserts : List ObjectCacheEntry) (call : BufferCall) :
    call.perform (.replay upserts) = .replay (call.survivors upserts) := by
  cases call with
  | upsert entry => exact (WriteBufferData.replay_snoc upserts entry).symm
  | truncate size => exact WriteBufferData.truncate_replay upserts size

/-- Whatever the calls, the buffer is a fresh one given the surviving upserts, and shows them. -/
theorem performAll_exact (calls : List BufferCall) :
    performAll calls = .replay (survivingUpserts calls) ∧
      (performAll calls).Shows (survivingUpserts calls) := by
  have hreplay : performAll calls = .replay (survivingUpserts calls) := by
    induction calls using List.reverseRecOn with
    | nil => rfl
    | append_singleton calls call ih =>
      simp only [performAll, survivingUpserts, List.foldl_concat] at ih ⊢
      rw [ih, perform_replay]
  refine ⟨hreplay, ?_⟩
  rw [hreplay]
  exact WriteBufferData.shows_replay _

/-- An object keeps its place when only its second upsert is undone. -/
example : (performAll [.upsert { objectId := [1] }, .upsert { objectId := [2] },
    .upsert { objectId := [1], dirty := true }, .truncate 2]).entriesInOrder =
    some [{ objectId := [1] }, { objectId := [2] }] := by decide

end DataAgentSystem.Cache
