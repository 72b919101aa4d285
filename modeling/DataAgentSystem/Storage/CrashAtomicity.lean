import DataAgentSystem.Storage.FileKVStore

/-! Crashes while the snapshot is replaced. Recovery takes a temporary file for a
complete snapshot as soon as there is a journal, so a crash that cuts the temporary
file off puts the cut file in place. All other crashes lead to the old map or to the
new one. -/

namespace DataAgentSystem.Storage.FileKVStore

open Text Containers Interaction

/-- The maps hold the same entries. -/
def SameMap (m m' : UnorderedMap Entry) : Prop := ∀ key, m.lookup key = m'.lookup key

/-- The map a store has after a load from the disk. -/
def loadedMap (path : Bytes) (d : Disk) : UnorderedMap Entry :=
  ((loadFromDiskUnlocked path).run handleDisk d).1.2

/-- The calls of a replacement up to the one that creates the temporary file. -/
def tempStart (path : Bytes) : ℕ := (journalText path).length + 3

theorem loadedMap_eq (path : Bytes) (d : Disk) :
    loadedMap path d = (readSnapshot (snapshotAt path d)).2 := by
  obtain ⟨d', hrun, -⟩ := run_load path d
  rw [loadedMap, hrun]

variable {order : IterationOrder} {path : Bytes} {values : UnorderedMap Entry} {d : Disk}

theorem loadedMap_crash_early (hclean : Clean path d) {n : ℕ} (hn : n < tempStart path) :
    loadedMap path ((persistToDisk order path values).crash handleDisk n d) = loadedMap path d := by
  rw [tempStart] at hn
  rw [loadedMap_eq, loadedMap_eq, snapshotAt_crash_early hclean (by omega), hclean.snapshotAt]

theorem loadedMap_crash_torn (m : ℕ) :
    loadedMap path ((persistToDisk order path values).crash handleDisk (tempStart path + m) d) =
      mapOf (shown (order.pairs values) m) := by
  rw [loadedMap_eq, tempStart, snapshotAt_crash_late, readSnapshot_take]

theorem loadedMap_insert (hclean : Clean path d) (text : Bytes) :
    loadedMap path (d.insert path text) = (readSnapshot (some text)).2 := by
  have hjournal : (d.insert path text).lookup (journalPath path) = none := by
    rw [AList.lookup_insert_ne (journalPath_ne path), hclean.journal]
  rw [loadedMap_eq, snapshotAt, hjournal, AList.lookup_insert]
  rfl

theorem loadedMap_crash_late (hclean : Clean path d) {m : ℕ}
    (hm : (snapshotText (order.pairs values)).length ≤ m) :
    loadedMap path ((persistToDisk order path values).crash handleDisk (tempStart path + m) d) =
      loadedMap path (d.insert path (snapshotText (order.pairs values))) := by
  rw [loadedMap_insert hclean, loadedMap_eq, tempStart, snapshotAt_crash_late,
    List.take_of_length_le hm]

/-- A crash of the replacement is recovered to the old map or to the new one exactly if
it does not cut the temporary file off, or what the cut file shows is one of the two. -/
theorem persistToDisk_crash_iff (order : IterationOrder) (path : Bytes)
    (values : UnorderedMap Entry) (d : Disk) (n : ℕ) (hclean : Clean path d) :
    let recovered := loadedMap path ((persistToDisk order path values).crash handleDisk n d)
    let old := loadedMap path d
    let new := loadedMap path (d.insert path (snapshotText (order.pairs values)))
    let torn := mapOf (shown (order.pairs values) (n - tempStart path))
    (SameMap recovered old ∨ SameMap recovered new) ↔
      n < tempStart path ∨ tempStart path + (snapshotText (order.pairs values)).length ≤ n ∨
        SameMap torn old ∨ SameMap torn new := by
  intro recovered old new torn
  by_cases hearly : n < tempStart path
  · have hold : recovered = old := loadedMap_crash_early hclean hearly
    rw [hold]
    exact ⟨fun _ => .inl hearly, fun _ => .inl fun _ => rfl⟩
  obtain ⟨m, rfl⟩ : ∃ m, n = tempStart path + m := ⟨n - tempStart path, by omega⟩
  by_cases hlate : (snapshotText (order.pairs values)).length ≤ m
  · have hnew : recovered = new := loadedMap_crash_late hclean hlate
    rw [hnew]
    exact ⟨fun _ => .inr (.inl (by omega)), fun _ => .inr fun _ => rfl⟩
  · have htorn : recovered = torn := by
      show loadedMap path
        ((persistToDisk order path values).crash handleDisk (tempStart path + m) d) = torn
      rw [loadedMap_crash_torn, ← Nat.add_sub_cancel_left (tempStart path) m]
    rw [htorn]
    constructor
    · exact fun hsame => .inr (.inr hsame)
    · rintro (h | h | hsame)
      · exact absurd h hearly
      · omega
      · exact hsame

/-- A disk with one entry, whose value is about to be replaced. -/
def oneEntry : Disk :=
  AList.insert (ascii "kv") (snapshotText [(ascii "k", { value := ascii "v", version := 1 })]) ∅

def nextEntry : UnorderedMap Entry :=
  AList.insert (ascii "k") { value := ascii "w", version := 2 } ∅

/-- A crash before the temporary file, and what is then recovered. -/
theorem persistToDisk_crash_early :
    let recovered := loadedMap (ascii "kv")
      ((persistToDisk IterationOrder.stored (ascii "kv") nextEntry).crash handleDisk 5 oneEntry)
    let old := loadedMap (ascii "kv") oneEntry
    let new := loadedMap (ascii "kv")
      (AList.insert (ascii "kv") (snapshotText (IterationOrder.stored.pairs nextEntry)) oneEntry)
    let torn := mapOf (shown (IterationOrder.stored.pairs nextEntry) (5 - tempStart (ascii "kv")))
    (SameMap recovered old ∨ SameMap recovered new) ↔
      5 < tempStart (ascii "kv") ∨
        tempStart (ascii "kv") + (snapshotText (IterationOrder.stored.pairs nextEntry)).length ≤ 5 ∨
        SameMap torn old ∨ SameMap torn new :=
  persistToDisk_crash_iff IterationOrder.stored (ascii "kv") nextEntry
    oneEntry 5 ⟨by decide, by decide⟩

/-- A crash right after the temporary file was created: the store comes back empty. -/
theorem persistToDisk_not_atomic :
    Clean (ascii "kv") oneEntry ∧
      ¬SameMap (loadedMap (ascii "kv")
          ((persistToDisk IterationOrder.stored (ascii "kv") nextEntry).crash handleDisk
            (tempStart (ascii "kv")) oneEntry))
        (loadedMap (ascii "kv") oneEntry) ∧
      ¬SameMap (loadedMap (ascii "kv")
          ((persistToDisk IterationOrder.stored (ascii "kv") nextEntry).crash handleDisk
            (tempStart (ascii "kv")) oneEntry))
        (loadedMap (ascii "kv")
          (AList.insert (ascii "kv") (snapshotText (IterationOrder.stored.pairs nextEntry))
            oneEntry)) := by
  have hclean : Clean (ascii "kv") oneEntry := ⟨by decide, by decide⟩
  have hempty : loadedMap (ascii "kv")
    ((persistToDisk IterationOrder.stored (ascii "kv") nextEntry).crash handleDisk
      (tempStart (ascii "kv") + 0) oneEntry) = ∅ := by
    rw [loadedMap_crash_torn]
    rfl
  have hold : loadedMap (ascii "kv") oneEntry =
      mapOf [(ascii "k", { value := ascii "v", version := 1 })] := by
    have hlookup : oneEntry.lookup (ascii "kv") =
        some (snapshotText [(ascii "k", { value := ascii "v", version := 1 })]) := rfl
    rw [loadedMap_eq, hclean.snapshotAt, hlookup, readSnapshot_text (by decide)]
  have hnew : loadedMap (ascii "kv")
    (AList.insert (ascii "kv") (snapshotText (IterationOrder.stored.pairs nextEntry)) oneEntry) =
      mapOf [(ascii "k", { value := ascii "w", version := 2 })] := by
    rw [loadedMap_insert hclean, readSnapshot_text (by decide)]
    rfl
  rw [Nat.add_zero] at hempty
  rw [hempty, hold, hnew]
  exact ⟨hclean, fun h => absurd (h (ascii "k")) (by decide), fun h =>
    absurd (h (ascii "k")) (by decide)⟩

end DataAgentSystem.Storage.FileKVStore
