import DataAgentSystem.Storage.World
import Mathlib.Logic.Relation

/-! What may become of a store. Calls are made on it by anyone, one after the other; and
as versions wrap around, enough of them give any object any value and any version. -/

namespace DataAgentSystem.Storage

open Text Interaction

variable {kind : StoreKind} {s s' : MemoryKVStore}

/-- The second store is what some calls have made of the first one. -/
def Evolves (kind : StoreKind) : MemoryKVStore → MemoryKVStore → Prop :=
  Relation.ReflTransGen fun s s' => ∃ (op : Call) (w : World), w.store = s ∧
    (handle kind op w).2.store = s'

theorem Evolves.refl (kind : StoreKind) (s : MemoryKVStore) :
    Evolves kind s s := Relation.ReflTransGen.refl

theorem Evolves.write (h : Evolves kind s s') (key value : Bytes) :
    Evolves kind s (s'.write key value) :=
  h.tail ⟨.put key value, { store := s' }, rfl, rfl⟩

/-- Writing an object once more than some number of times. -/
def rewrite (s : MemoryKVStore) (key value : Bytes) : ℕ → MemoryKVStore
  | 0 => s.write key value
  | n + 1 => (rewrite s key value n).write key value

theorem get_rewrite (s : MemoryKVStore) (key value k : Bytes) (n : ℕ) :
    (rewrite s key value n).get k =
      if k = key then
        { value, version := (s.get key).version + UInt64.ofNat (n + 1), exists_ := true }
      else s.get k := by
  induction n with
  | zero => exact s.get_write key value k
  | succ n ih =>
    rw [rewrite, MemoryKVStore.get_write]
    by_cases hk : k = key
    · subst hk
      rw [if_pos rfl, ih, if_pos rfl, if_pos rfl]
      congr 1
      rw [UInt64.add_assoc, ← UInt64.ofNat_one, ← UInt64.ofNat_add]
    · rw [if_neg hk, ih, if_neg hk, if_neg hk]

theorem Evolves.rewrite (h : Evolves kind s s') (key value : Bytes) (n : ℕ) :
    Evolves kind s (rewrite s' key value n) := by
  induction n with
  | zero => exact h.write key value
  | succ n ih => exact ih.write key value

/-- Any store may come to hold anything of finitely many objects. -/
theorem exists_evolves_holding (kind : StoreKind) (s : MemoryKVStore)
    (held : Bytes → Entry) (keys : List Bytes) :
    ∃ s', Evolves kind s s' ∧
      ∀ k ∈ keys, s'.get k =
        { value := (held k).value, version := (held k).version, exists_ := true } := by
  induction keys with
  | nil => exact ⟨s, Evolves.refl kind s, fun k hk => absurd hk List.not_mem_nil⟩
  | cons key keys ih =>
    obtain ⟨s', hevolves, hkeys⟩ := ih
    -- as often as it takes from the version before the last write
    let n := ((held key).version - (s'.get key).version - 1).toNat
    have hversion : (s'.get key).version + UInt64.ofNat (n + 1) = (held key).version := by
      rw [UInt64.ofNat_add, UInt64.ofNat_toNat, UInt64.ofNat_one]
      grind
    refine ⟨rewrite s' key (held key).value n, hevolves.rewrite key _ n, fun k hk => ?_⟩
    rw [get_rewrite]
    by_cases hkey : k = key
    · subst hkey
      rw [if_pos rfl, hversion]
    · rw [if_neg hkey]
      exact hkeys k ((List.mem_cons.1 hk).resolve_left hkey)

end DataAgentSystem.Storage
