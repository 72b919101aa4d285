import DataAgentSystem.Intent.Intent
import Mathlib.Data.List.Induction
import Mathlib.Data.List.Nodup
import Mathlib.Logic.Function.Iterate

/-! The branch-local cache: read records, savepoints, and the write buffer with its
change records. A buffer is the data together with the proof that some list of
upserts builds it from nothing, so truncation is forced to undo exactly. -/

namespace DataAgentSystem.Cache

open Text Intent

inductive ObjectType where
  | generic | row | text | candidateResult
  deriving DecidableEq

structure UndoRecord where
  previousValue : Bytes := []
  existed : Bool := false
  deriving DecidableEq

structure ObjectCacheEntry where
  objectId : Bytes
  objectType : ObjectType := .generic
  baseValue : Bytes := []
  baseVersion : UInt64 := 0
  currentValue : Bytes := []
  dirty : Bool := false
  intentType : IntentType := .read
  undoRecord : UndoRecord := {}
  deriving DecidableEq

structure ReadRecord where
  objectId : Bytes
  observedVersion : UInt64 := 0
  deriving DecidableEq

structure ReadSet where
  entries : List ReadRecord := []
  deriving DecidableEq

def ReadSet.record (reads : ReadSet) (objectId : Bytes) (observedVersion : UInt64) : ReadSet :=
  { entries := reads.entries ++ [{ objectId, observedVersion }] }

structure Savepoint where
  savepointId : Bytes
  writeLogPosition : ℕ := 0
  intentLogPosition : ℕ := 0
  deriving DecidableEq

structure ChangeRecord where
  objectId : Bytes
  hadPrevious : Bool := false
  previousEntry : ObjectCacheEntry
  deriving DecidableEq

/-- The data of a write buffer; the newest change record comes first. -/
structure WriteBufferData where
  order : List Bytes := []
  entries : Bytes → Option ObjectCacheEntry := fun _ => none
  changes : List ChangeRecord := []

namespace WriteBufferData

def upsert (b : WriteBufferData) (entry : ObjectCacheEntry) : WriteBufferData :=
  match b.entries entry.objectId with
  | some previous =>
    { order := b.order
      entries := Function.update b.entries entry.objectId (some entry)
      changes := { objectId := entry.objectId, hadPrevious := true, previousEntry := previous } ::
        b.changes }
  | none =>
    { order := b.order ++ [entry.objectId]
      entries := Function.update b.entries entry.objectId (some entry)
      changes := { objectId := entry.objectId, hadPrevious := false,
                   previousEntry := { objectId := [] } } :: b.changes }

/-- Undo the newest change. -/
def undo (b : WriteBufferData) : WriteBufferData :=
  match b.changes with
  | [] => b
  | change :: changes =>
    if change.hadPrevious then
      { b with
        entries := Function.update b.entries change.objectId (some change.previousEntry)
        changes }
    else
      { order := b.order.erase change.objectId
        entries := Function.update b.entries change.objectId none
        changes }

def truncate (b : WriteBufferData) (size : ℕ) : WriteBufferData := undo^[b.changes.length - size] b

theorem entries_upsert (b : WriteBufferData) (e : ObjectCacheEntry) (k : Bytes) :
    (b.upsert e).entries k = if k = e.objectId then some e else b.entries k := by
  have h : (b.upsert e).entries = Function.update b.entries e.objectId (some e) := by
    unfold upsert
    split <;> rfl
  rw [h, Function.update_apply]

/-- A fresh buffer given some upserts, in order. -/
def replay (upserts : List ObjectCacheEntry) : WriteBufferData := upserts.foldl upsert {}

theorem replay_snoc (es : List ObjectCacheEntry) (e : ObjectCacheEntry) :
    replay (es ++ [e]) = (replay es).upsert e := by simp [replay]

/-- What upserts alone keep true of the data. -/
structure Consistent (b : WriteBufferData) : Prop where
  nodup : b.order.Nodup
  mem_order : ∀ k, k ∈ b.order ↔ (b.entries k).isSome
  objectId_eq : ∀ {k e}, b.entries k = some e → e.objectId = k

theorem consistent_upsert {b : WriteBufferData} (hb : b.Consistent) (e : ObjectCacheEntry) :
    (b.upsert e).Consistent := by
  have hid : ∀ {k e'}, Function.update b.entries e.objectId (some e) k = some e' →
      e'.objectId = k := by
    intro k e' h
    by_cases hk : k = e.objectId
    · subst hk
      simp at h
      rw [h]
    · rw [Function.update_of_ne hk] at h
      exact hb.objectId_eq h
  unfold upsert
  split
  next previous h =>
    refine ⟨hb.nodup, fun k => ?_, hid⟩
    by_cases hk : k = e.objectId
    · subst hk
      simp [hb.mem_order, h]
    · simp [hk, hb.mem_order]
  next h =>
    have hnew : e.objectId ∉ b.order := by simp [hb.mem_order, h]
    refine ⟨by simpa using hb.nodup.concat hnew, fun k => ?_, hid⟩
    by_cases hk : k = e.objectId
    · simp [hk]
    · simp [hk, hb.mem_order]

theorem consistent_replay (es : List ObjectCacheEntry) : (replay es).Consistent := by
  induction es using List.reverseRecOn with
  | nil => exact ⟨by simp [replay], by simp [replay], by simp [replay]⟩
  | append_singleton es e ih =>
    rw [replay_snoc]
    exact consistent_upsert ih e

/-- The newest change record restores exactly what the upsert changed. -/
theorem undo_upsert {b : WriteBufferData} (hb : b.Consistent) (e : ObjectCacheEntry) :
    (b.upsert e).undo = b := by
  unfold upsert
  split
  next previous h =>
    simp [undo, ← h]
  next h =>
    have hnew : e.objectId ∉ b.order := by simp [hb.mem_order, h]
    simp [undo, List.erase_append_right _ hnew, ← h]

theorem length_changes_replay (es : List ObjectCacheEntry) :
    (replay es).changes.length = es.length := by
  induction es using List.reverseRecOn with
  | nil => rfl
  | append_singleton es e ih =>
    rw [replay_snoc, List.length_append, ← ih, upsert]
    split <;> rfl

theorem iterate_undo_replay (es es' : List ObjectCacheEntry) :
    undo^[es'.length] (replay (es ++ es')) = replay es := by
  induction es' using List.reverseRecOn with
  | nil => simp
  | append_singleton es' e ih =>
    rw [List.length_append, List.length_singleton, Function.iterate_succ_apply, ← List.append_assoc,
      replay_snoc, undo_upsert (consistent_replay _), ih]

/-- Truncation keeps the first upserts and undoes the others. -/
theorem truncate_replay (es : List ObjectCacheEntry) (size : ℕ) :
    (replay es).truncate size = replay (es.take size) := by
  have h := iterate_undo_replay (es.take size) (es.drop size)
  rw [List.take_append_drop, List.length_drop] at h
  rw [truncate, length_changes_replay, h]

/-- The last upsert of an object is what the buffer holds of it. -/
theorem entries_replay (es : List ObjectCacheEntry) (k : Bytes) :
    (replay es).entries k = es.reverse.find? fun e => e.objectId = k := by
  induction es using List.reverseRecOn with
  | nil => rfl
  | append_singleton es e ih =>
    rw [replay_snoc, entries_upsert, ih, List.reverse_append,
      List.reverse_singleton, List.singleton_append, List.find?_cons]
    by_cases hk : k = e.objectId
    · simp [hk]
    · simp [hk, Ne.symm hk]

theorem isSome_entries_replay (es : List ObjectCacheEntry) (k : Bytes) :
    ((replay es).entries k).isSome ↔ k ∈ es.map (·.objectId) := by
  rw [entries_replay, List.find?_isSome, List.mem_map]
  simp

/-- The order of a buffer is that of the first writes of its objects. -/
theorem order_replay_snoc (es : List ObjectCacheEntry) (e : ObjectCacheEntry) :
    (replay (es ++ [e])).order =
      if e.objectId ∈ es.map (·.objectId) then (replay es).order
        else (replay es).order ++ [e.objectId] := by
  rw [replay_snoc, upsert]
  have hsome := isSome_entries_replay es e.objectId
  cases hentry : (replay es).entries e.objectId with
  | some previous =>
    rw [hentry] at hsome
    rw [if_pos (hsome.1 rfl)]
  | none =>
    rw [hentry] at hsome
    rw [if_neg fun hmem => Bool.noConfusion (hsome.2 hmem)]

theorem order_replay_congr {es es' : List ObjectCacheEntry}
    {R : ObjectCacheEntry → ObjectCacheEntry → Prop} (h : List.Forall₂ R es es')
    (hid : ∀ e e', R e e' → e.objectId = e'.objectId) :
    (replay es).order = (replay es').order := by
  have hids : ∀ n, (es.take n).map (·.objectId) = (es'.take n).map (·.objectId) := by
    intro n
    have htake := List.forall₂_take n h
    exact List.forall₂_eq_eq_eq ▸ List.forall₂_map_left_iff.2
      (List.forall₂_map_right_iff.2 (htake.imp hid))
  have horder : ∀ n ≤ es.length, (replay (es.take n)).order = (replay (es'.take n)).order := by
    intro n hn
    induction n with
    | zero => rfl
    | succ n ih =>
      have hlen := h.length_eq
      have hlt : n < es.length := by omega
      have hlt' : n < es'.length := by omega
      have hlast : (es[n]).objectId = (es'[n]).objectId := hid _ _ (h.get hlt hlt')
      rw [List.take_add_one, List.take_add_one, List.getElem?_eq_getElem hlt,
        List.getElem?_eq_getElem hlt', Option.toList_some, Option.toList_some, order_replay_snoc,
        order_replay_snoc, hids, hlast, ih (by omega)]
  have hall := horder es.length (Nat.le_refl _)
  rwa [List.take_length, h.length_eq, List.take_length] at hall

end WriteBufferData

/-- A write buffer: data that some list of upserts builds from nothing. -/
structure WriteBuffer extends WriteBufferData where
  built : ∃ upserts, toWriteBufferData = WriteBufferData.replay upserts

namespace WriteBuffer

@[ext] theorem ext {b b' : WriteBuffer} (h : b.toWriteBufferData = b'.toWriteBufferData) :
    b = b' := by
  cases b
  cases b'
  cases h
  rfl

def empty : WriteBuffer := ⟨{}, [], rfl⟩

instance : Inhabited WriteBuffer := ⟨empty⟩

def upsert (b : WriteBuffer) (entry : ObjectCacheEntry) : WriteBuffer :=
  ⟨b.toWriteBufferData.upsert entry, by
    obtain ⟨es, h⟩ := b.built
    exact ⟨es ++ [entry], by rw [h, WriteBufferData.replay_snoc]⟩⟩

def truncate (b : WriteBuffer) (size : ℕ) : WriteBuffer :=
  ⟨b.toWriteBufferData.truncate size, by
    obtain ⟨es, h⟩ := b.built
    exact ⟨es.take size, by rw [h, WriteBufferData.truncate_replay]⟩⟩

def find (b : WriteBuffer) (objectId : Bytes) : Option ObjectCacheEntry := b.entries objectId

/-- `Entries()`: the cached entries in the order their objects were first written. -/
def orderedEntries (b : WriteBuffer) : List ObjectCacheEntry := b.order.filterMap b.entries

def size (b : WriteBuffer) : ℕ := b.changes.length

theorem consistent (b : WriteBuffer) : b.toWriteBufferData.Consistent := by
  obtain ⟨es, h⟩ := b.built
  rw [h]
  exact WriteBufferData.consistent_replay es

/-- Dropping every change leaves the empty buffer. -/
@[simp] theorem truncate_zero (b : WriteBuffer) : b.truncate 0 = empty := by
  obtain ⟨es, h⟩ := b.built
  apply ext
  change b.toWriteBufferData.truncate 0 = {}
  rw [h, WriteBufferData.truncate_replay]
  rfl

@[simp] theorem orderedEntries_empty : empty.orderedEntries = [] := rfl

@[simp] theorem size_empty : empty.size = 0 := rfl

theorem mem_orderedEntries {b : WriteBuffer} {e : ObjectCacheEntry} :
    e ∈ b.orderedEntries ↔ b.find e.objectId = some e := by
  constructor
  · intro h
    obtain ⟨k, _, hk⟩ := List.mem_filterMap.1 h
    rwa [← b.consistent.objectId_eq hk] at hk
  · intro h
    exact List.mem_filterMap.2
      ⟨e.objectId, (b.consistent.mem_order _).2 (by simp [find] at h; simp [h]), h⟩

/-- The lookup of `Entries()` never fails. -/
theorem map_objectId_orderedEntries (b : WriteBuffer) :
    b.orderedEntries.map (·.objectId) = b.order := by
  have hstep : ∀ l : List Bytes, (∀ k ∈ l, (b.entries k).isSome) →
      (l.filterMap b.entries).map (·.objectId) = l := by
    intro l hl
    induction l with
    | nil => rfl
    | cons k l ih =>
      simp only [List.forall_mem_cons] at hl
      obtain ⟨e, he⟩ := Option.isSome_iff_exists.1 hl.1
      simp [he, b.consistent.objectId_eq he, ih hl.2]
  exact hstep _ fun k hk => (b.consistent.mem_order k).1 hk

theorem nodup_objectId_orderedEntries (b : WriteBuffer) :
    (b.orderedEntries.map (·.objectId)).Nodup := by
  rw [map_objectId_orderedEntries]
  exact b.consistent.nodup

@[simp] theorem find_upsert (b : WriteBuffer) (e : ObjectCacheEntry) (k : Bytes) :
    (b.upsert e).find k = if k = e.objectId then some e else b.find k := by
  rw [find, upsert, WriteBufferData.entries_upsert]
  rfl

end WriteBuffer

end DataAgentSystem.Cache
