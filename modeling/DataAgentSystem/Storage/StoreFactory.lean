import DataAgentSystem.Interaction.Simulation
import DataAgentSystem.Storage.RedisAdapter
import DataAgentSystem.Storage.World

/-! The stores that a configuration can ask for, behind one interface. Those that keep files
of their own share the disk with the artifacts of their callers. As long as a caller keeps
off these files, it cannot tell the stores apart: each shows what an in-memory store shows,
and answers as that one does. -/

namespace DataAgentSystem.Storage

open Text Containers Interaction
open FileKVStore (Mutation)

/-! ### The adapter under the name of RocksDB -/

structure RocksDbAdapter where
  rootPath : Bytes
  columnFamily : Bytes
  fallbackStore : MemoryKVStore := {}

namespace RocksDbAdapter

def storeFilePath (rootPath : Bytes) : Bytes := rootPath ++ ascii "/CURRENT.tsv"

def manifestPath (adapter : RocksDbAdapter) : Bytes := adapter.rootPath ++ ascii "/MANIFEST.txt"

def currentFilePath (adapter : RocksDbAdapter) : Bytes := storeFilePath adapter.rootPath

/-- A manifest that cannot be written is passed over. Directories are not modelled. -/
def writeManifest (adapter : RocksDbAdapter) : DiskProg Unit := do
  let _ ← FileKVStore.writeFile adapter.manifestPath
    (unlines newline [ascii "engine=rocksdb_compat", ascii "column_family=" ++ adapter.columnFamily,
      ascii "current=" ++ adapter.currentFilePath])
  return ()

/-- The constructor of the adapter. -/
def construct (path columnFamily : Bytes) : DiskProg RocksDbAdapter := do
  let rootPath := if path = [] then ascii "/tmp/data_agent_system_rocksdb" else path
  let fallbackStore ← FileKVStore.construct (storeFilePath rootPath)
  let adapter : RocksDbAdapter := { rootPath, columnFamily, fallbackStore }
  adapter.writeManifest
  return adapter

/-- Each mutator writes the manifest and then calls the one of the file-backed store. -/
def mutate (order : IterationOrder) (adapter : RocksDbAdapter) (call : Mutation) :
    DiskProg (Bool × RocksDbAdapter) := do
  adapter.writeManifest
  let (changed, fallbackStore) ← FileKVStore.mutate order adapter.currentFilePath
    adapter.fallbackStore call
  return (changed, { adapter with fallbackStore })

end RocksDbAdapter

/-! ### The interface -/

/-- The `StoreKind` of a configuration. -/
inductive StoreConfig.Kind where
  | memory | file | rocksDb | redis
  deriving DecidableEq

structure StoreConfig where
  kind : StoreConfig.Kind := .memory
  path : Bytes := []
  namespacePrefix : Bytes := []
  host : Bytes := ascii "127.0.0.1"
  port : UInt16 := 0
  databaseIndex : Int32 := 0
  columnFamily : Bytes := ascii "default"

/-- A `VersionedKVStore`. All of these leave `SupportsAtomicBatchConditionalWrite` as it is. -/
inductive KVStore where
  | memory (store : MemoryKVStore)
  | file (path : Bytes) (store : MemoryKVStore)
  | rocksDb (adapter : RocksDbAdapter)
  | redis (adapter : RedisAdapter)

/-- The path of a file-backed store. -/
def StoreConfig.filePath (config : StoreConfig) : Bytes :=
  if config.path = [] then ascii "/tmp/data_agent_system_store.tsv" else config.path

/-- The root of a store that goes by the name of RocksDB. -/
def StoreConfig.rootPath (config : StoreConfig) : Bytes :=
  if config.path = [] then ascii "/tmp/data_agent_system_rocksdb" else config.path

def createStore (config : StoreConfig) : DiskProg KVStore :=
  match config.kind with
  | .memory => return .memory {}
  | .file => do return .file config.filePath (← FileKVStore.construct config.filePath)
  | .rocksDb => do return .rocksDb (← RocksDbAdapter.construct config.rootPath config.columnFamily)
  | .redis =>
    return .redis { host := config.host, port := config.port,
                    databaseIndex := config.databaseIndex,
                    namespacePrefix := config.namespacePrefix }

namespace KVStore

def get : KVStore → Bytes → VersionedValue
  | .memory store, key | .file _ store, key => store.get key
  | .rocksDb adapter, key => adapter.fallbackStore.get key
  | .redis adapter, key => adapter.get key

def getVersion : KVStore → Bytes → UInt64
  | .memory store, key | .file _ store, key => store.getVersion key
  | .rocksDb adapter, key => adapter.fallbackStore.getVersion key
  | .redis adapter, key => adapter.getVersion key

def mutate (order : IterationOrder) : KVStore → Mutation → DiskProg (Bool × KVStore)
  | .memory store, call => return ((store.mutate call).1, .memory (store.mutate call).2)
  | .file path store, call => do
    let (changed, store) ← FileKVStore.mutate order path store call
    return (changed, .file path store)
  | .rocksDb adapter, call => do
    let (changed, adapter) ← adapter.mutate order call
    return (changed, .rocksDb adapter)
  | .redis adapter, call => return ((adapter.mutate call).1, .redis (adapter.mutate call).2)

/-- The files that a store keeps for itself. -/
def ownFiles : KVStore → List Bytes
  | .memory _ | .redis _ => []
  | .file path _ => [path, FileKVStore.tempPath path, FileKVStore.journalPath path]
  | .rocksDb adapter =>
    [adapter.manifestPath, adapter.currentFilePath, FileKVStore.tempPath adapter.currentFilePath,
        FileKVStore.journalPath adapter.currentFilePath]

end KVStore

/-- A store, and the disk that holds its files and those of its callers. -/
structure StoredWorld where
  store : KVStore
  disk : Disk

namespace StoredWorld

def mutated (order : IterationOrder) (x : StoredWorld) (call : Mutation) : Bool × StoredWorld :=
  let ((changed, store), disk) := (x.store.mutate order call).run handleDisk x.disk
  (changed, { store, disk })

end StoredWorld

/-- The answer to a call when every file operation that can succeed does. -/
def handleStored (order : IterationOrder) : Handler Call Call.Resp StoredWorld
  | .supportsAtomicBatchConditionalWrite, x => (true, x)
  | .get key, x => (x.store.get key, x)
  | .getVersion key, x => (x.store.getVersion key, x)
  | .put key value, x => x.mutated order (.put key value)
  | .putIfVersion key expectedVersion value, x =>
    x.mutated order (.putIfVersion key expectedVersion value)
  | .deleteIfVersion key expectedVersion, x =>
    x.mutated order (.deleteIfVersion key expectedVersion)
  | .batchPutIfVersion checks writes, x => x.mutated order (.batchPutIfVersion checks writes)
  | .replaceFile path contents, x => (true, { x with disk := x.disk.insert path contents })
  | .readFile path, x => (x.disk.lookup path, x)
  | .fileExists path, x => ((x.disk.lookup path).isSome, x)
  | .removeFile path, x => (true, { x with disk := x.disk.erase path })
  | .renameFile source target, x => match x.disk.lookup source with
    | none => (false, x)
    | some contents => (true, { x with disk := (x.disk.erase source).insert target contents })
  | .createDirectories _, x => (true, x)

/-- The files that a call is about. -/
def Call.named : Call → List Bytes
  | .replaceFile path _ | .readFile path | .fileExists path | .removeFile path => [path]
  | .renameFile source target => [source, target]
  | _ => []

/-- The call keeps off these files. -/
def Call.Spares (own : List Bytes) (op : Call) : Prop := ∀ path ∈ op.named, path ∉ own

/-! ### One call -/

section Mutators

variable {order : IterationOrder} {own : List Bytes}

/-- Programs on the disk that change none but these files. -/
def ChangesOnly (own : List Bytes) {α : Type} (p : DiskProg α) : Prop :=
  ∀ d path, path ∉ own → (p.run handleDisk d).2.lookup path = d.lookup path

theorem changesOnly_ret {α : Type} (a : α) :
    ChangesOnly own (.ret a : DiskProg α) := fun _ _ _ => rfl

theorem ChangesOnly.bind {α β : Type} {p : DiskProg α} {f : α → DiskProg β} (hp : ChangesOnly own p)
    (hf : ∀ a, ChangesOnly own (f a)) : ChangesOnly own (p >>= f) := by
  intro d path hpath
  rw [Program.run_bind, hf _ _ path hpath, hp d path hpath]

theorem changesOnly_writeFile {path : Bytes} (text : Bytes) (hpath : path ∈ own) :
    ChangesOnly own (FileKVStore.writeFile path text) := by
  intro d other hother
  rw [← Program.bind_ret (FileKVStore.writeFile path text), FileKVStore.run_writeFile,
    Program.run_ret]
  exact AList.lookup_insert_ne fun heq => hother (heq ▸ hpath)

theorem changesOnly_persistToDisk {path : Bytes} (values : UnorderedMap Entry) (hpath : path ∈ own)
    (htemp : FileKVStore.tempPath path ∈ own) (hjournal : FileKVStore.journalPath path ∈ own) :
    ChangesOnly own (FileKVStore.persistToDisk order path values) := by
  refine (changesOnly_writeFile _ hjournal).bind fun journaled => ?_
  split
  · exact changesOnly_ret _
  refine (changesOnly_writeFile _ htemp).bind fun written => ?_
  split
  · exact changesOnly_ret _
  refine ChangesOnly.bind (fun d other hother => ?_) fun renamed => ?_
  · show (handleDisk (.rename (FileKVStore.tempPath path) path) d).2.lookup other = d.lookup other
    have htemp' : other ≠ FileKVStore.tempPath path := fun heq => hother (heq ▸ htemp)
    have hpath' : other ≠ path := fun heq => hother (heq ▸ hpath)
    cases hfound : d.lookup (FileKVStore.tempPath path) with
    | none => simp [handleDisk, hfound]
    | some contents => simp [handleDisk, hfound, hpath', htemp']
  · split
    · exact changesOnly_ret _
    · intro d other hother
      exact AList.lookup_erase_ne fun heq => hother (heq ▸ hjournal)

theorem fileMutate_eq (order : IterationOrder) (path : Bytes)
    (s : MemoryKVStore) (call : Mutation) :
    FileKVStore.mutate order path s call = FileKVStore.persistChanged order
      path (s.mutate call) := by
  cases call <;> rfl

theorem changesOnly_fileMutate {path : Bytes} (s : MemoryKVStore)
    (call : Mutation) (hpath : path ∈ own) (htemp : FileKVStore.tempPath path ∈ own)
    (hjournal : FileKVStore.journalPath path ∈ own) :
    ChangesOnly own (FileKVStore.mutate order path s call) := by
  rw [fileMutate_eq]
  obtain ⟨made, s'⟩ := s.mutate call
  cases made with
  | false => exact changesOnly_ret _
  | true =>
    exact (changesOnly_persistToDisk s'.values hpath htemp hjournal).bind fun _ => changesOnly_ret _

/-- The file-backed store answers as the map in memory does, for its changes can be written out. -/
theorem run_fileMutate (order : IterationOrder) (path : Bytes) (s : MemoryKVStore)
    (call : Mutation) (d : Disk) :
    ((FileKVStore.mutate order path s call).run handleDisk d).1 = s.mutate call := by
  rw [fileMutate_eq]
  obtain ⟨made, s'⟩ := s.mutate call
  cases made with
  | false => rfl
  | true =>
    obtain ⟨d', hrun, -, -⟩ := FileKVStore.run_persistToDisk order path s'.values d
    rw [FileKVStore.persistChanged, Program.run_bind, hrun]
    rfl

theorem changesOnly_writeManifest {adapter : RocksDbAdapter}
    (hmanifest : adapter.manifestPath ∈ own) :
    ChangesOnly own adapter.writeManifest :=
  (changesOnly_writeFile _ hmanifest).bind fun _ => changesOnly_ret _

/-- What a call makes of a store that shows the same as an in-memory store. -/
structure Follows (own : List Bytes) (d : Disk) (r : Bool × MemoryKVStore)
    (out : Bool × StoredWorld) : Prop where
  answer : out.1 = r.1
  shows_ : ∀ k, out.2.store.get k = r.2.get k
  ownFiles : out.2.store.ownFiles = own
  disk : ∀ path, path ∉ own → out.2.disk.lookup path = d.lookup path

/-- Every store answers as the in-memory store that shows the same, and changes no file but its
own. -/
theorem follows_mutated (order : IterationOrder) {x : StoredWorld} {m : MemoryKVStore}
    (h : ∀ k, x.store.get k = m.get k) (call : Mutation) :
    Follows x.store.ownFiles x.disk (m.mutate call) (x.mutated order call) := by
  obtain ⟨store, d⟩ := x
  cases store with
  | memory s =>
    obtain ⟨hanswer, hget⟩ := MemoryKVStore.mutate_of_same h call
    exact ⟨hanswer, hget, rfl, fun _ _ => rfl⟩
  | file path s =>
    obtain ⟨hanswer, hget⟩ := MemoryKVStore.mutate_of_same h call
    have hrun := run_fileMutate order path s call d
    have hdisk := @changesOnly_fileMutate order (KVStore.file path s).ownFiles path
      s call List.mem_cons_self
      (List.mem_cons_of_mem _ List.mem_cons_self)
        (List.mem_cons_of_mem _ (List.mem_cons_of_mem _ List.mem_cons_self)) d
    simp only [StoredWorld.mutated, KVStore.mutate, Program.run_bind,
      Program.pure_eq_ret, Program.run_ret]
    rw [hrun]
    exact ⟨hanswer, hget, rfl, hdisk⟩
  | rocksDb adapter =>
    obtain ⟨hanswer, hget⟩ := MemoryKVStore.mutate_of_same h call
    have hrun := run_fileMutate order adapter.currentFilePath adapter.fallbackStore call
      (adapter.writeManifest.run handleDisk d).2
    have hmanifest : ChangesOnly (KVStore.rocksDb adapter).ownFiles adapter.writeManifest :=
      changesOnly_writeManifest List.mem_cons_self
    have hdisk := hmanifest.bind fun _ =>
      @changesOnly_fileMutate order (KVStore.rocksDb adapter).ownFiles
      adapter.currentFilePath adapter.fallbackStore call (List.mem_cons_of_mem _ List.mem_cons_self)
      (List.mem_cons_of_mem _ (List.mem_cons_of_mem _ List.mem_cons_self))
      (List.mem_cons_of_mem _ (List.mem_cons_of_mem _ (List.mem_cons_of_mem _ List.mem_cons_self)))
    have hdisk' := hdisk d
    rw [Program.run_bind] at hdisk'
    simp only [StoredWorld.mutated, KVStore.mutate, RocksDbAdapter.mutate,
      Program.run_bind, Program.pure_eq_ret, Program.run_ret]
    rw [hrun]
    exact ⟨hanswer, hget, rfl, hdisk'⟩
  | redis adapter =>
    obtain ⟨hanswer, hget⟩ := MemoryKVStore.Renames.mutate adapter.namespacedKey_injective h call
    have hcall := adapter.mutate_eq call
    refine ⟨?_, fun k => ?_, rfl, fun _ _ => rfl⟩
    · show (adapter.mutate call).1 = _
      rw [hcall]
      exact hanswer
    · show (adapter.mutate call).2.get k = _
      rw [hcall]
      exact hget k

end Mutators

end DataAgentSystem.Storage
