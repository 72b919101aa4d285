import DataAgentSystem.Storage.ConditionalOperations

/-! What an unchanged version says. Every write of a key raises its version by one, so as
long as the key is not removed, fewer writes than there are versions never come back
to a version they have left. A removal starts the versions over: a key that is deleted
and created again has the versions it had before, with other values. -/

namespace DataAgentSystem.Storage.MemoryKVStore

open Text Containers
open FileKVStore (Mutation)

/-- The writes that a sequence of calls makes. -/
def madeBy : MemoryKVStore → List Mutation → List WriteOp
  | _, [] => []
  | s, call :: calls => s.writtenBy call ++ (s.mutate call).2.madeBy calls

variable {s : MemoryKVStore} {k : Bytes} {call : Mutation} {calls : List Mutation}

/-- A call that does not remove a key does to its version what its writes do. -/
theorem getVersion_mutate (h : ¬Removes k s call) :
    (s.mutate call).2.getVersion k = s.getVersion k + UInt64.ofNat
      (writesTo k (s.writtenBy call)) := by
  rcases s.get_mutate call k with ⟨hremoves, -⟩ | ⟨-, hget, hempty, hnone⟩ | ⟨-, -, hget⟩
  · exact absurd hremoves h
  · rw [getVersion, hget, getVersion, hempty, hnone]
    rfl
  · rw [getVersion, hget, ← getVersion, getVersion_applyWrites]

theorem getVersion_mutateAll (h : s.Throughout (fun s call => ¬Removes k s call) calls) :
    (s.mutateAll calls).getVersion k = s.getVersion k + UInt64.ofNat
      (writesTo k (s.madeBy calls)) := by
  induction calls generalizing s with
  | nil => exact (UInt64.add_zero _).symm
  | cons call calls ih =>
    obtain ⟨hcall, hrest⟩ := h
    rw [mutateAll, ih hrest, getVersion_mutate hcall, madeBy, writesTo_append,
      UInt64.ofNat_add, UInt64.add_assoc]

/-- A call that neither removes nor writes a key at most leaves it behind. -/
theorem get_mutate_of_not_written (hremoves : ¬Removes k s call)
    (hwrites : writesTo k (s.writtenBy call) = 0) :
    ((s.mutate call).2.get k).value = (s.get k).value ∧
      (¬Leaves k s call → (s.mutate call).2.get k = s.get k) := by
  rcases s.get_mutate call k with ⟨hr, -⟩ | ⟨hleaves, hget, hempty, -⟩ | ⟨-, -, hget⟩
  · exact absurd hr hremoves
  · rw [hget, hempty]
    exact ⟨rfl, fun hnot => absurd hleaves hnot⟩
  · rw [hget, get_applyWrites_of_notMem (writesTo_eq_zero_iff.1 hwrites)]
    exact ⟨rfl, fun _ => rfl⟩

theorem get_mutateAll_of_not_written (hkept : s.Throughout (fun s call => ¬Removes k s call) calls)
    (hwrites : writesTo k (s.madeBy calls) = 0) :
    ((s.mutateAll calls).get k).value = (s.get k).value ∧
      (s.Throughout (fun s call => ¬Leaves k s call) calls →
        (s.mutateAll calls).get k = s.get k) := by
  induction calls generalizing s with
  | nil => exact ⟨rfl, fun _ => rfl⟩
  | cons call calls ih =>
    obtain ⟨hcall, hrest⟩ := hkept
    rw [madeBy, writesTo_append] at hwrites
    obtain ⟨hvalue, hget⟩ := get_mutate_of_not_written hcall (by omega)
    obtain ⟨hvalue', hget'⟩ := ih hrest (by omega)
    exact ⟨hvalue'.trans hvalue, fun hleaves => (hget' hleaves.2).trans (hget hleaves.1)⟩

/-- Between two moments at which a key has the same version it has not been written, and
its value is the same, if it was not removed and fewer than 2^64 writes were made; and
it exists at both or at neither, unless a refused write has left it behind. -/
theorem get_of_sameVersion (s : MemoryKVStore) (calls : List Mutation) (k : Bytes)
    (hfew : (s.madeBy calls).length < 2 ^ 64)
    (hkept : s.Throughout (fun s call => ¬Removes k s call) calls)
    (hversion : (s.mutateAll calls).getVersion k = s.getVersion k) :
    (∀ write ∈ s.madeBy calls, write.key ≠ k) ∧
      ((s.mutateAll calls).get k).value = (s.get k).value ∧
      (s.Throughout (fun s call => ¬Leaves k s call) calls →
        (s.mutateAll calls).get k = s.get k) := by
  have hnone : writesTo k (s.madeBy calls) = 0 := by
    have hle : writesTo k (s.madeBy calls) ≤ (s.madeBy calls).length := List.countP_le_length
    rw [getVersion_mutateAll hkept] at hversion
    have hzero : UInt64.ofNat (writesTo k (s.madeBy calls)) = 0 := by
      have hcancel := hversion.trans (UInt64.add_zero _).symm
      exact (UInt64.add_right_inj _).1 hcancel
    have htoNat := congrArg UInt64.toNat hzero
    rwa [UInt64.toNat_ofNat_of_lt' (hle.trans_lt hfew)] at htoNat
  refine ⟨fun write hwrite heq => ?_, get_mutateAll_of_not_written hkept hnone⟩
  exact writesTo_eq_zero_iff.1 hnone (List.mem_map.2 ⟨write, hwrite, heq⟩)

/-- A key whose neighbour is written and removed. -/
theorem get_of_sameVersion_neighbour :
    let s : MemoryKVStore := (put {} (ascii "k") (ascii "v")).2
    let calls : List Mutation :=
      [.put (ascii "j") (ascii "x"), .putIfVersion (ascii "k") 7 (ascii "y"),
        .deleteIfVersion (ascii "j") 1]
    (∀ write ∈ s.madeBy calls, write.key ≠ ascii "k") ∧
      ((s.mutateAll calls).get (ascii "k")).value = (s.get (ascii "k")).value ∧
      (s.Throughout (fun s call => ¬Leaves (ascii "k") s call) calls →
        (s.mutateAll calls).get (ascii "k") = s.get (ascii "k")) := by
  intro s calls
  have hkept : s.Throughout (fun s call => ¬Removes (ascii "k") s call) calls :=
    ⟨id, id, fun h => absurd h.1 (by decide), trivial⟩
  exact get_of_sameVersion s calls (ascii "k") (by decide) hkept (by decide)

/-- A key is written, removed and written anew: version one twice, with two values. -/
theorem sameVersion_otherValue :
    let s : MemoryKVStore := (put {} (ascii "k") (ascii "v")).2
    let s' := s.mutateAll [.deleteIfVersion (ascii "k") 1, .put (ascii "k") (ascii "w")]
    s'.getVersion (ascii "k") = s.getVersion (ascii "k") ∧ (s'.get (ascii "k")).value ≠
        (s.get (ascii "k")).value := by
  decide

end DataAgentSystem.Storage.MemoryKVStore
