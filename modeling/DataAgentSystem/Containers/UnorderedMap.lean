import Mathlib.Data.List.AList
import DataAgentSystem.Text.Bytes

/-! Maps from byte strings. The order of the entries is one of the orders in which
such a map can be iterated; the laws below speak of lookups only. -/

namespace DataAgentSystem.Containers

open Text

abbrev UnorderedMap (β : Type) := AList fun _ : Bytes => β

namespace UnorderedMap

variable {α β : Type}

/-- Insert unless the key is there; say whether it was inserted. -/
def emplace (k : Bytes) (v : β) (m : UnorderedMap β) : Bool × UnorderedMap β :=
  if (m.lookup k).isSome then (false, m) else (true, m.insert k v)

/-- The value at `k`, and the map in which a missing value has been created. -/
def subscript [Inhabited β] (m : UnorderedMap β) (k : Bytes) : β × UnorderedMap β :=
  match m.lookup k with
  | some v => (v, m)
  | none => (default, m.insert k default)

/-- Assign `val a` to `key a` for each element of a list, in order. -/
def assignAll (key : α → Bytes) (val : α → β) (l : List α) (m : UnorderedMap β) : UnorderedMap β :=
  l.foldl (fun m a => m.insert (key a) (val a)) m

theorem lookup_insert_eq_ite (m : UnorderedMap β) (k k' : Bytes) (v : β) :
    (m.insert k v).lookup k' = if k' = k then some v else m.lookup k' := by
  split
  next h =>
    subst h
    exact AList.lookup_insert m
  next h => exact AList.lookup_insert_ne h

/-- The last assignment to a key decides its value. -/
theorem lookup_assignAll (key : α → Bytes) (val : α → β) (l : List α)
    (m : UnorderedMap β) (k : Bytes) :
    (assignAll key val l m).lookup k =
      ((l.reverse.find? fun a => key a = k).map val).or (m.lookup k) := by
  induction l generalizing m with
  | nil => simp [assignAll]
  | cons a l ih =>
    have hstep : assignAll key val (a :: l) m =
        assignAll key val l (m.insert (key a) (val a)) := rfl
    rw [hstep, ih, List.reverse_cons, List.find?_append, lookup_insert_eq_ite]
    by_cases hk : k = key a
    · subst hk
      cases h : List.find? (fun b => decide (key b = key a)) l.reverse <;> simp
    · have hk' : ¬key a = k := fun h => hk h.symm
      cases h : List.find? (fun b => decide (key b = k)) l.reverse <;> simp [hk, hk']

/-- With no key twice, every assignment decides the value of its key. -/
theorem lookup_assignAll_of_mem {key : α → Bytes} (val : α → β) {l : List α} (m : UnorderedMap β)
    (hnodup : (l.map key).Nodup) {a : α} (ha : a ∈ l) :
    (assignAll key val l m).lookup (key a) = some (val a) := by
  rw [lookup_assignAll]
  cases hfind : l.reverse.find? fun b => key b = key a with
  | none =>
    have hno := List.find?_eq_none.1 hfind a (List.mem_reverse.2 ha)
    simp at hno
  | some b =>
    have hkey : key b = key a := by simpa using List.find?_some hfind
    obtain rfl :=
      List.inj_on_of_nodup_map hnodup (List.mem_reverse.1 (List.mem_of_find?_eq_some hfind)) ha hkey
    rfl

/-- The pairs are the entries of the map, in one of the orders in which it can be iterated. -/
def Iterates (m : UnorderedMap β) (pairs : List (Bytes × β)) : Prop :=
  pairs.Perm (m.entries.map fun entry => (entry.1, entry.2))

/-- A map that is filled with the entries of another one, in any order, holds the same. -/
theorem Iterates.lookup_assignAll {m : UnorderedMap β} {pairs : List (Bytes × β)}
    (h : Iterates m pairs) (k : Bytes) :
    (assignAll Prod.fst Prod.snd pairs ∅).lookup k = m.lookup k := by
  have hkeys : (pairs.map Prod.fst).Nodup := by
    rw [(List.Perm.map Prod.fst h).nodup_iff, List.map_map]
    exact m.nodupKeys
  cases hlookup : m.lookup k with
  | some v =>
    have hmem : (k, v) ∈ pairs :=
      h.symm.subset (List.mem_map.2 ⟨⟨k, v⟩, AList.mem_lookup_iff.1 hlookup, rfl⟩)
    exact lookup_assignAll_of_mem Prod.snd ∅ hkeys hmem
  | none =>
    have hnone : pairs.reverse.find? (fun pair => pair.1 = k) = none := by
      rw [List.find?_eq_none]
      intro pair hpair heq
      obtain ⟨entry, hentry, rfl⟩ := List.mem_map.1 (h.subset (List.mem_reverse.1 hpair))
      have hfound := AList.mem_lookup_iff.2 hentry
      obtain rfl : entry.1 = k := of_decide_eq_true heq
      rw [hlookup] at hfound
      cases hfound
    rw [UnorderedMap.lookup_assignAll, hnone]
    rfl

theorem emplace_of_none {m : UnorderedMap β} {k : Bytes} (v : β) (h : m.lookup k = none) :
    m.emplace k v = (true, m.insert k v) := by simp [emplace, h]

theorem emplace_of_some {m : UnorderedMap β} {k : Bytes} {v' : β} (v : β)
    (h : m.lookup k = some v') :
    m.emplace k v = (false, m) := by simp [emplace, h]

theorem mem_entries_iff {m : UnorderedMap β} {k : Bytes} {v : β} :
    (⟨k, v⟩ : Sigma fun _ : Bytes => β) ∈ m.entries ↔ m.lookup k = some v :=
  (AList.mem_lookup_iff (s := m)).symm

end UnorderedMap

end DataAgentSystem.Containers
