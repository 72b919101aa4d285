import DataAgentSystem.Storage.StoreFactory

/-! Programs over the stores of the factory. No program can tell which store it works on, nor
can its rivals, as long as all keep off the files of the store. Those stores that keep files
can be created again at any point between two calls, and then show what they showed. -/

namespace DataAgentSystem.Storage

open Text Containers Interaction
open FileKVStore (Mutation Persisted)

variable {order : IterationOrder} {own : List Bytes} {x : StoredWorld} {w : World} {op : Call}

/-! ### One call -/

/-- The stores show the same, and the files of their callers are the same. -/
structure Alike (own : List Bytes) (x : StoredWorld) (w : World) : Prop where
  ownFiles : x.store.ownFiles = own
  shows_ : ∀ k, x.store.get k = w.store.get k
  files : ∀ path, path ∉ own → x.disk.lookup path = w.files.lookup path

theorem Alike.mutated (h : Alike own x w) (call : Mutation) :
    (x.mutated order call).1 = (w.store.mutate call).1 ∧
      Alike own (x.mutated order call).2 { w with store := (w.store.mutate call).2 } := by
  obtain ⟨hanswer, hshows, hown, hdisk⟩ := follows_mutated order h.shows_ call
  rw [h.ownFiles] at hown hdisk
  exact ⟨hanswer, hown, hshows, fun path hpath => (hdisk path hpath).trans (h.files path hpath)⟩

/-- The store of the factory and the in-memory store answer alike, call for call. -/
theorem simulates_handleStored (order : IterationOrder) (own : List Bytes) :
    Simulates (handleStored order) (handle .memory) (Call.Spares own) (Alike own) := by
  intro op x w hop h
  have hnamed : ∀ path ∈ op.named, x.disk.lookup path = w.files.lookup path := fun path hpath =>
    h.files path (hop path hpath)
  cases op with
  | supportsAtomicBatchConditionalWrite => exact ⟨rfl, h⟩
  | get key => exact ⟨h.shows_ key, h⟩
  | getVersion key =>
    have hget : x.store.getVersion key = (x.store.get key).version := by cases x.store <;> rfl
    exact ⟨hget.trans (congrArg VersionedValue.version (h.shows_ key)), h⟩
  | put key value => exact h.mutated (.put key value)
  | putIfVersion key expectedVersion value =>
    exact h.mutated (.putIfVersion key expectedVersion value)
  | deleteIfVersion key expectedVersion => exact h.mutated (.deleteIfVersion key expectedVersion)
  | batchPutIfVersion checks writes => exact h.mutated (.batchPutIfVersion checks writes)
  | replaceFile path contents =>
    refine ⟨rfl, h.ownFiles, h.shows_, fun other hother => ?_⟩
    show (x.disk.insert path contents).lookup other = (w.files.insert path contents).lookup other
    rw [UnorderedMap.lookup_insert_eq_ite, UnorderedMap.lookup_insert_eq_ite, h.files other hother]
  | readFile path => exact ⟨hnamed path List.mem_cons_self, h⟩
  | fileExists path => exact ⟨congrArg Option.isSome (hnamed path List.mem_cons_self), h⟩
  | removeFile path =>
    refine ⟨rfl, h.ownFiles, h.shows_, fun other hother => ?_⟩
    show (x.disk.erase path).lookup other = (w.files.erase path).lookup other
    by_cases heq : other = path
    · rw [heq, AList.lookup_erase, AList.lookup_erase]
    · rw [AList.lookup_erase_ne heq, AList.lookup_erase_ne heq, h.files other hother]
  | renameFile source target =>
    have hsource := hnamed source List.mem_cons_self
    cases hfound : w.files.lookup source with
    | none =>
      rw [hfound] at hsource
      simp only [handleStored, handle, hsource, hfound]
      exact ⟨trivial, h⟩
    | some contents =>
      rw [hfound] at hsource
      simp only [handleStored, handle, hsource, hfound]
      refine ⟨trivial, h.ownFiles, h.shows_, fun other hother => ?_⟩
      show ((x.disk.erase source).insert target contents).lookup other =
        ((w.files.erase source).insert target contents).lookup other
      rw [UnorderedMap.lookup_insert_eq_ite, UnorderedMap.lookup_insert_eq_ite]
      by_cases heq : other = source
      · rw [heq, AList.lookup_erase, AList.lookup_erase]
      · rw [AList.lookup_erase_ne heq, AList.lookup_erase_ne heq, h.files other hother]
  | createDirectories path => exact ⟨rfl, h⟩

/-! ### Programs -/

/-- The point that a program has reached when others have made calls of their own before each of
its calls. -/
def reachedAmong {W α : Type} (h : Handler Call Call.Resp W) (schedule : List (List Call))
    (p : Prog α) (w : W) :
    Prog α × W :=
  p.advanceWith h (schedule.map (callAll h)) w

/-- Whatever store the program works on, and whoever else works on it, it gets to the same
point as on an in-memory store that showed the same, and the two show the same again. -/
theorem reachedAmong_alike {α : Type} (order : IterationOrder) (x : StoredWorld) (w : World)
    (p : Prog α) (schedule : List (List Call)) (hshows : ∀ k, x.store.get k = w.store.get k)
    (hfiles : ∀ path, path ∉ x.store.ownFiles → x.disk.lookup path = w.files.lookup path)
    (hp : p.Only (Call.Spares x.store.ownFiles))
    (hothers : ∀ calls ∈ schedule, ∀ op ∈ calls, op.Spares x.store.ownFiles) :
    let reached := reachedAmong (handleStored order) schedule p x
    let reached' := reachedAmong (handle .memory) schedule p w
    reached.1 = reached'.1 ∧ (∀ k, reached.2.store.get k = reached'.2.store.get k) ∧
      ∀ path, path ∉ x.store.ownFiles → reached.2.disk.lookup path =
          reached'.2.files.lookup path := by
  intro reached reached'
  obtain ⟨hrest, halike⟩ :=
    (simulates_handleStored order x.store.ownFiles).advanceWith schedule hothers hp
    (⟨rfl, hshows, hfiles⟩ : Alike x.store.ownFiles x w)
  exact ⟨hrest, halike.shows_, halike.files⟩

/-- A store that keeps files, an artifact beside them, and a rival that writes first. -/
theorem reachedAmong_alike_rocksDb :
    let x : StoredWorld := ⟨.rocksDb { rootPath := ascii "db", columnFamily := ascii "default" },
      AList.insert (ascii "a") (ascii "1") ∅⟩
    let w : World := { files := AList.insert (ascii "a") (ascii "1") ∅ }
    let p : Prog (Bool × Option Bytes) := do
      let written ← Store.putIfVersion (ascii "k") 0 (ascii "v")
      return (written, ← Files.read (ascii "a"))
    let schedule := [[.put (ascii "k") (ascii "u")], [.removeFile (ascii "a")]]
    let reached := reachedAmong (handleStored .stored) schedule p x
    let reached' := reachedAmong (handle .memory) schedule p w
    reached.1 = reached'.1 ∧ (∀ k, reached.2.store.get k = reached'.2.store.get k) ∧
      ∀ path, path ∉ x.store.ownFiles → reached.2.disk.lookup path =
          reached'.2.files.lookup path := by
  intro x w p schedule
  have hreads : (Call.readFile (ascii "a")).Spares x.store.ownFiles := by
    unfold Call.Spares
    decide
  refine reachedAmong_alike .stored x w p schedule (fun _ => rfl) (fun _ _ => rfl) ?_ ?_
  · exact ⟨fun path hpath => absurd hpath List.not_mem_nil, fun _ => ⟨hreads, fun _ => trivial⟩⟩
  · unfold Call.Spares
    decide

/-! ### Creating a store again -/

variable {config : StoreConfig} {s : MemoryKVStore} {saved : UnorderedMap Entry} {d : Disk}

/-- A configured store that has its objects on the disk, but for what a refused write has left
behind. -/
inductive Durable (config : StoreConfig) : StoredWorld → Prop
  | file {s : MemoryKVStore} {saved : UnorderedMap Entry} {d : Disk} : config.kind = .file →
      Persisted config.filePath s saved d → Durable config ⟨.file config.filePath s, d⟩
  | rocksDb {s : MemoryKVStore} {saved : UnorderedMap Entry} {d : Disk} : config.kind = .rocksDb →
      Persisted (RocksDbAdapter.storeFilePath config.rootPath) s saved d →
      Durable config
        ⟨.rocksDb { rootPath := config.rootPath, columnFamily := config.columnFamily,
                    fallbackStore := s }, d⟩

theorem FileKVStore.Persisted.congr {path : Bytes} {d' : Disk} (h : Persisted path s saved d)
    (hd : ∀ p ∈ [path, FileKVStore.tempPath path, FileKVStore.journalPath path],
      d'.lookup p = d.lookup p) :
    Persisted path s saved d' := by
  simp only [List.forall_mem_cons] at hd
  obtain ⟨hpath, htemp, hjournal, -⟩ := hd
  refine ⟨⟨hjournal.trans h.clean.journal, htemp.trans h.clean.temp⟩, h.ahead, fun hvalues => ?_⟩
  rw [hpath]
  exact h.readable hvalues

/-- The manifest is none of the files of the store behind the adapter. -/
theorem manifestPath_notMem (adapter : RocksDbAdapter) :
    ∀ p ∈ [adapter.currentFilePath, FileKVStore.tempPath adapter.currentFilePath,
      FileKVStore.journalPath adapter.currentFilePath], p ∉ [adapter.manifestPath] := by
  have hne : ∀ ending, adapter.currentFilePath ++ ending ∉ [adapter.manifestPath] := by
    intro ending hmem
    have heq := List.mem_singleton.1 hmem
    rw [RocksDbAdapter.currentFilePath, RocksDbAdapter.storeFilePath, RocksDbAdapter.manifestPath,
      List.append_assoc] at heq
    have hsecond : (ascii "/CURRENT.tsv" ++ ending)[1]? = some 67 := rfl
    rw [List.append_cancel_left heq] at hsecond
    exact absurd hsecond (by decide)
  have hcurrent := hne []
  rw [List.append_nil] at hcurrent
  simp only [List.forall_mem_cons]
  exact ⟨hcurrent, hne _, hne _, fun _ h => absurd h List.not_mem_nil⟩

/-- The manifest leaves the objects on the disk alone. -/
theorem persisted_writeManifest (adapter : RocksDbAdapter)
    (h : Persisted adapter.currentFilePath s saved d) :
    Persisted adapter.currentFilePath s saved (adapter.writeManifest.run handleDisk d).2 := by
  have hchanges : ChangesOnly [adapter.manifestPath] adapter.writeManifest :=
    changesOnly_writeManifest List.mem_cons_self
  exact h.congr fun p hp => hchanges d p (manifestPath_notMem adapter p hp)

/-- A store that has changed its objects has them on the disk again. -/
theorem Durable.mutated (h : Durable config x) (call : Mutation) :
    Durable config (x.mutated order call).2 := by
  cases h with
  | file hkind hpersisted =>
    obtain ⟨saved', hpersisted'⟩ := @FileKVStore.persisted_mutate order _ _ _ _ call hpersisted
    simp only [StoredWorld.mutated, KVStore.mutate, Program.run_bind]
    exact .file hkind hpersisted'
  | @rocksDb s saved d hkind hpersisted =>
    let adapter : RocksDbAdapter :=
        { rootPath := config.rootPath, columnFamily := config.columnFamily, fallbackStore := s }
    obtain ⟨saved', hpersisted'⟩ :=
      @FileKVStore.persisted_mutate order _ _ _ _ call (persisted_writeManifest adapter hpersisted)
    simp only [StoredWorld.mutated, KVStore.mutate, RocksDbAdapter.mutate, Program.run_bind]
    exact .rocksDb hkind hpersisted'

theorem Durable.congr {store : KVStore} {d' : Disk} (h : Durable config ⟨store, d⟩)
    (hd : ∀ p ∈ store.ownFiles, d'.lookup p = d.lookup p) : Durable config ⟨store, d'⟩ := by
  cases h with
  | file hkind hpersisted => exact .file hkind (hpersisted.congr hd)
  | rocksDb hkind hpersisted =>
    exact .rocksDb hkind (hpersisted.congr fun p hp => hd p (List.mem_cons_of_mem _ hp))

/-- A call that keeps off the files of the store leaves its objects on the disk. -/
theorem Durable.handleStored (h : Durable config x) (hop : op.Spares x.store.ownFiles) :
    Durable config (handleStored order op x).2 := by
  obtain ⟨store, d⟩ := x
  have hnot : ∀ path ∈ op.named, ∀ p ∈ store.ownFiles, p ≠ path := fun path hpath p hp heq =>
    hop path hpath (heq ▸ hp)
  cases op with
  | put key value => exact h.mutated _
  | putIfVersion key expectedVersion value => exact h.mutated _
  | deleteIfVersion key expectedVersion => exact h.mutated _
  | batchPutIfVersion checks writes => exact h.mutated _
  | replaceFile path contents =>
    exact h.congr fun p hp => AList.lookup_insert_ne (hnot path List.mem_cons_self p hp)
  | removeFile path =>
    exact h.congr fun p hp => AList.lookup_erase_ne (hnot path List.mem_cons_self p hp)
  | renameFile source target =>
    simp only [Storage.handleStored]
    cases d.lookup source with
    | none => exact h
    | some contents =>
      refine h.congr fun p hp => ?_
      rw [AList.lookup_insert_ne (hnot target (List.mem_cons_of_mem _ List.mem_cons_self) p hp),
        AList.lookup_erase_ne (hnot source List.mem_cons_self p hp)]
  | _ => exact h

/-! ### Creating a store -/

/-- The file with the objects of a configured store. -/
def StoreConfig.storePath (config : StoreConfig) : Bytes :=
  match config.kind with
  | .rocksDb => RocksDbAdapter.storeFilePath config.rootPath
  | _ => config.filePath

/-- The files that a configured store keeps for itself. -/
def StoreConfig.ownFiles (config : StoreConfig) : List Bytes :=
  let files :=
    [config.storePath, FileKVStore.tempPath config.storePath,
      FileKVStore.journalPath config.storePath]
  match config.kind with
  | .file => files
  | .rocksDb => (config.rootPath ++ ascii "/MANIFEST.txt") :: files
  | _ => []

theorem Durable.ownFiles (h : Durable config x) : x.store.ownFiles = config.ownFiles := by
  unfold StoreConfig.ownFiles StoreConfig.storePath
  cases h with
  | file hkind _ =>
    simp only [hkind]
    rfl
  | rocksDb hkind _ =>
    simp only [hkind]
    rfl

theorem run_fileConstruct (path : Bytes) (d : Disk) :
    ∃ d', (FileKVStore.construct path).run handleDisk d =
        ({ values := (FileKVStore.readSnapshot (FileKVStore.snapshotAt path d)).2 }, d') ∧
      FileKVStore.Clean path d' ∧ d'.lookup path = FileKVStore.snapshotAt path d := by
  obtain ⟨d', hload, hclean, hpath⟩ := FileKVStore.run_load path d
  refine ⟨d', ?_, hclean, hpath⟩
  rw [FileKVStore.construct, Program.run_bind, hload]
  rfl

theorem rootPath_ne_nil (config : StoreConfig) : config.rootPath ≠ [] := by
  unfold StoreConfig.rootPath
  split
  · decide
  · assumption

/-- The world with a store that has just been created. -/
def created (config : StoreConfig) (d : Disk) : StoredWorld :=
  let (store, disk) := (createStore config).run handleDisk d
  { store, disk }

/-- The adapter as its constructor leaves it. -/
def openedRocksDb (config : StoreConfig) (d : Disk) : RocksDbAdapter where
  rootPath := config.rootPath
  columnFamily := config.columnFamily
  fallbackStore := { values := (FileKVStore.readSnapshot
    (FileKVStore.snapshotAt (RocksDbAdapter.storeFilePath config.rootPath) d)).2 }

theorem run_rocksDbConstruct (config : StoreConfig) (d : Disk) :
    ∃ d', (RocksDbAdapter.construct config.rootPath config.columnFamily).run handleDisk d =
        (openedRocksDb config d, ((openedRocksDb config d).writeManifest.run handleDisk d').2) ∧
      FileKVStore.Clean (RocksDbAdapter.storeFilePath config.rootPath) d' ∧
      d'.lookup (RocksDbAdapter.storeFilePath config.rootPath) =
        FileKVStore.snapshotAt (RocksDbAdapter.storeFilePath config.rootPath) d := by
  obtain ⟨d', hrun, hclean, hlookup⟩ :=
    run_fileConstruct (RocksDbAdapter.storeFilePath config.rootPath) d
  refine ⟨d', ?_, hclean, hlookup⟩
  rw [RocksDbAdapter.construct, if_neg (rootPath_ne_nil config), Program.run_bind, hrun]
  show ((openedRocksDb config d).writeManifest >>= fun _ => pure (openedRocksDb config d)).run
    handleDisk d' = _
  rw [Program.run_bind]
  rfl

/-- A store that is created shows the objects that its file holds. -/
theorem get_created (hkind : config.kind = .file ∨ config.kind = .rocksDb) (d : Disk) (k : Bytes) :
    (created config d).store.get k =
      MemoryKVStore.get
        { values := (FileKVStore.readSnapshot (FileKVStore.snapshotAt config.storePath d)).2 }
        k := by
  unfold created createStore StoreConfig.storePath
  rcases hkind with hkind | hkind
  · obtain ⟨d', hrun, -, -⟩ := run_fileConstruct config.filePath d
    simp only [hkind, Program.run_bind, hrun]
    rfl
  · obtain ⟨d', hrun, -, -⟩ := run_rocksDbConstruct config d
    simp only [hkind, Program.run_bind, hrun]
    rfl

theorem durable_created (hkind : config.kind = .file ∨ config.kind = .rocksDb)
    (hload : (FileKVStore.readSnapshot (FileKVStore.snapshotAt config.storePath d)).1 = true) :
    Durable config (created config d) := by
  unfold created createStore
  unfold StoreConfig.storePath at hload
  rcases hkind with hkind | hkind
  · obtain ⟨d', hrun, hclean, hpath⟩ := run_fileConstruct config.filePath d
    simp only [hkind, Program.run_bind, hrun] at hload ⊢
    exact .file hkind (FileKVStore.persisted_of_load (Prod.ext hload rfl) hclean hpath)
  · obtain ⟨d', hrun, hclean, hpath⟩ := run_rocksDbConstruct config d
    simp only [hkind, Program.run_bind, hrun] at hload ⊢
    exact .rocksDb hkind (persisted_writeManifest (openedRocksDb config d)
      (FileKVStore.persisted_of_load (Prod.ext hload rfl) hclean hpath))

/-- What is on the disk is what the store shows exactly if no object has an empty value. -/
theorem persisted_shown_iff {path : Bytes} (h : Persisted path s saved d) :
    (∀ k, MemoryKVStore.get
      { values := (FileKVStore.readSnapshot (FileKVStore.snapshotAt path d)).2 } k = s.get k) ↔
      ∀ k, (s.get k).exists_ = true → (s.get k).value ≠ [] := by
  rw [FileKVStore.value_ne_nil_iff]
  constructor
  · intro hget key entry hentry
    have hkey := hget key
    cases hread : (FileKVStore.readSnapshot (FileKVStore.snapshotAt path d)).2.lookup key with
    | none => simp [MemoryKVStore.get, hread, hentry] at hkey
    | some entry' =>
      simp only [MemoryKVStore.get, hread, hentry, VersionedValue.mk.injEq] at hkey
      rw [← hkey.1]
      exact FileKVStore.readSnapshot_value_ne_nil hread
  · intro hvalues k
    have hsaved : ∀ key entry, saved.lookup key = some entry → entry.value ≠ [] := by
      intro key entry hentry
      exact hvalues key entry ((h.lookup_eq hvalues key).trans hentry)
    obtain ⟨-, hread⟩ := h.readable hsaved
    rw [h.clean.snapshotAt]
    exact FileKVStore.get_eq_of_lookup_eq ((hread k).trans (h.lookup_eq hvalues k).symm)

/-- Wherever a program is when its process ends, among whatever others, the store that is
created anew shows what the lost one showed, exactly if no object there is empty. -/
theorem created_again_iff {α : Type} (order : IterationOrder) (config : StoreConfig) (d : Disk)
    (p : Prog α) (schedule : List (List Call))
    (hkind : config.kind = .file ∨ config.kind = .rocksDb)
    (hload : ((FileKVStore.reload config.storePath).run handleDisk d).1.1 = true)
    (hp : p.Only (Call.Spares config.ownFiles))
    (hothers : ∀ calls ∈ schedule, ∀ op ∈ calls, op.Spares config.ownFiles) :
    let lost := (reachedAmong (handleStored order) schedule p (created config d)).2
    (∀ k, (created config lost.disk).store.get k = lost.store.get k) ↔
      ∀ k, (lost.store.get k).exists_ = true → (lost.store.get k).value ≠ [] := by
  intro lost
  have hread : (FileKVStore.readSnapshot (FileKVStore.snapshotAt config.storePath d)).1 = true := by
    obtain ⟨d', hrun, -, -⟩ := FileKVStore.run_load config.storePath d
    rw [FileKVStore.reload, Program.run_bind, hrun] at hload
    exact hload
  have hkeep : ∀ op x, op.Spares config.ownFiles → Durable config x →
      Durable config (handleStored order op x).2 := by
    intro op x hop hx
    rw [← hx.ownFiles] at hop
    exact hx.handleStored hop
  have hlost : Durable config lost :=
    keeps_advanceWith hkeep schedule hothers hp (durable_created hkind hread)
  simp only [get_created hkind]
  unfold StoreConfig.storePath
  clear_value lost
  cases hlost with
  | file hfile hpersisted =>
    simp only [hfile]
    exact persisted_shown_iff hpersisted
  | rocksDb hrocks hpersisted =>
    simp only [hrocks]
    exact persisted_shown_iff hpersisted

/-- Two writes and a delete that is refused, and the process ends before the last call. -/
theorem created_again_iff_rocksDb :
    let config : StoreConfig := { kind := .rocksDb, path := ascii "db" }
    let p : Prog Bool := do
      let _ ← Store.putIfVersion (ascii "k") 0 (ascii "v\t")
      let _ ← Store.deleteIfVersion (ascii "k") 0
      Store.putIfVersion (ascii "k") 1 []
    let lost := (reachedAmong (handleStored .stored) [[], [.put (ascii "j") (ascii "u")]] p
      (created config ∅)).2
    (∀ k, (created config lost.disk).store.get k = lost.store.get k) ↔
      ∀ k, (lost.store.get k).exists_ = true → (lost.store.get k).value ≠ [] := by
  intro config p
  have hspares : ∀ op : Call, op.named = [] → op.Spares config.ownFiles := by
    intro op hop path hpath
    rw [hop] at hpath
    exact absurd hpath List.not_mem_nil
  refine created_again_iff .stored config ∅ p _ (.inr rfl) (by decide) ?_ ?_
  · exact ⟨hspares _ rfl, fun _ => ⟨hspares _ rfl, fun _ => ⟨hspares _ rfl, fun _ => trivial⟩⟩⟩
  · intro calls hcalls op hop
    rcases List.mem_pair.1 hcalls with rfl | rfl
    · exact absurd hop List.not_mem_nil
    · rw [List.mem_singleton.1 hop]
      exact hspares _ rfl

end DataAgentSystem.Storage
