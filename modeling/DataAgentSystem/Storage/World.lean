import DataAgentSystem.Storage.MemoryKVStore
import DataAgentSystem.Interaction.Interference

/-! What the transaction layer can ask of its surroundings: the operations of the
store it was given, and the operations on the files that hold its artifacts. An
artifact is written to a temporary file that then replaces the old one, which is
one call here. Two kinds of store answer: `MemoryKVStore`, and
`NonBatchMemoryKVStore`, which refuses every batch. -/

namespace DataAgentSystem.Storage

open Text Containers Interaction

inductive Call where
  | supportsAtomicBatchConditionalWrite
  | get (key : Bytes)
  | getVersion (key : Bytes)
  | put (key value : Bytes)
  | putIfVersion (key : Bytes) (expectedVersion : UInt64) (value : Bytes)
  | deleteIfVersion (key : Bytes) (expectedVersion : UInt64)
  | batchPutIfVersion (checks : List VersionCheck) (writes : List WriteOp)
  | replaceFile (path contents : Bytes)
  | readFile (path : Bytes)
  | fileExists (path : Bytes)
  | removeFile (path : Bytes)
  | renameFile (source target : Bytes)
  | createDirectories (path : Bytes)
  deriving DecidableEq

@[reducible] def Call.Resp : Call → Type
  | .get _ => VersionedValue
  | .getVersion _ => UInt64
  | .readFile _ => Option Bytes
  | _ => Bool

abbrev Prog (α : Type) := Program Call Call.Resp α

abbrev Call.perform (op : Call) : Prog op.Resp := Program.perform op

structure World where
  store : MemoryKVStore := {}
  files : UnorderedMap Bytes := ∅

inductive StoreKind where
  | memory
  | nonBatchMemory
  deriving DecidableEq

def StoreKind.batchPutIfVersion (kind : StoreKind) (s : MemoryKVStore) (checks : List VersionCheck)
    (writes : List WriteOp) : Bool × MemoryKVStore :=
  match kind with
  | .memory => s.batchPutIfVersion checks writes
  | .nonBatchMemory => (false, s)

def World.withStore (w : World) (r : Bool × MemoryKVStore) : Bool × World :=
  (r.1, { w with store := r.2 })

/-- The answer to a call when every file operation that can succeed does. -/
def handle (kind : StoreKind) : Handler Call Call.Resp World
  | .supportsAtomicBatchConditionalWrite, w => (decide (kind = .memory), w)
  | .get key, w => (w.store.get key, w)
  | .getVersion key, w => (w.store.getVersion key, w)
  | .put key value, w => w.withStore (w.store.put key value)
  | .putIfVersion key v value, w => w.withStore (w.store.putIfVersion key v value)
  | .deleteIfVersion key v, w => w.withStore (w.store.deleteIfVersion key v)
  | .batchPutIfVersion checks writes, w =>
    w.withStore (kind.batchPutIfVersion w.store checks writes)
  | .replaceFile path contents, w => (true, { w with files := w.files.insert path contents })
  | .readFile path, w => (w.files.lookup path, w)
  | .fileExists path, w => ((w.files.lookup path).isSome, w)
  | .removeFile path, w => (true, { w with files := w.files.erase path })
  | .renameFile source target, w => match w.files.lookup source with
    | none => (false, w)
    | some contents => (true, { w with files := (w.files.erase source).insert target contents })
  | .createDirectories _, w => (true, w)

section Answers
variable (kind : StoreKind) (w : World)

theorem handle_get (key : Bytes) : handle kind (.get key) w = (w.store.get key, w) := rfl

theorem handle_getVersion (key : Bytes) :
    handle kind (.getVersion key) w = (w.store.getVersion key, w) := rfl

theorem handle_readFile (path : Bytes) :
    handle kind (.readFile path) w = (w.files.lookup path, w) := rfl

theorem handle_replaceFile (path contents : Bytes) :
    handle kind (.replaceFile path contents) w =
      (true, { w with files := w.files.insert path contents }) := rfl

end Answers

/-- The calls that only look. -/
def Call.reads : Call → Bool
  | .supportsAtomicBatchConditionalWrite | .get _ | .getVersion _ | .readFile _ | .fileExists _ =>
    true
  | _ => false

theorem reads_of_get {op : Call} (h : ∃ key, op = .get key) : op.reads = true := by
  obtain ⟨key, rfl⟩ := h
  rfl

theorem handle_of_reads {kind : StoreKind} {op : Call} (hop : op.reads = true) (w : World) :
    (handle kind op w).2 = w := by
  cases op <;> first | rfl | simp [Call.reads] at hop

/-- The calls that are about files. -/
def Call.onFiles : Call → Bool
  | .replaceFile _ _ | .readFile _ | .fileExists _ | .removeFile _ | .renameFile
      _ _ | .createDirectories _ => true
  | _ => false

theorem store_handle_of_onFiles {kind : StoreKind} {op : Call} (hop : op.onFiles = true)
    (w : World) :
    (handle kind op w).2.store = w.store := by
  cases op with
  | renameFile source target =>
    simp only [handle]
    cases w.files.lookup source <;> rfl
  | _ => first | rfl | simp [Call.onFiles] at hop

def ReadOnly (tr : List (Event Call World)) : Prop := ∀ e ∈ tr, e.op.reads = true

theorem readOnly_of_only {kind : StoreKind} {α : Type} {p : Prog α}
    {tr : List (Event Call World)} {a : α} (hp : p.Only fun op => op.reads = true)
    (hi : p.Interfered (handle kind) tr a) : ReadOnly tr :=
  hp.interfered hi

@[simp] theorem readOnly_nil : ReadOnly [] := fun _ h => absurd h List.not_mem_nil

@[simp] theorem readOnly_cons {e : Event Call World} {tr : List (Event Call World)} :
    ReadOnly (e :: tr) ↔ e.op.reads = true ∧ ReadOnly tr := List.forall_mem_cons

@[simp] theorem readOnly_append {tr tr' : List (Event Call World)} :
    ReadOnly (tr ++ tr') ↔ ReadOnly tr ∧ ReadOnly tr' := List.forall_mem_append

namespace Store

def supportsAtomicBatchConditionalWrite : Prog Bool :=
  Call.supportsAtomicBatchConditionalWrite.perform
def get (key : Bytes) : Prog VersionedValue := (Call.get key).perform
def getVersion (key : Bytes) : Prog UInt64 := (Call.getVersion key).perform
def put (key value : Bytes) : Prog Bool := (Call.put key value).perform
def putIfVersion (key : Bytes) (expectedVersion : UInt64) (value : Bytes) : Prog Bool :=
  (Call.putIfVersion key expectedVersion value).perform
def deleteIfVersion (key : Bytes) (expectedVersion : UInt64) : Prog Bool :=
  (Call.deleteIfVersion key expectedVersion).perform
def batchPutIfVersion (checks : List VersionCheck) (writes : List WriteOp) : Prog Bool :=
  (Call.batchPutIfVersion checks writes).perform

section Binds
variable {α : Type}

@[simp] theorem supportsAtomicBatchConditionalWrite_bind (f : Bool → Prog α) :
    supportsAtomicBatchConditionalWrite >>= f = .call .supportsAtomicBatchConditionalWrite f := rfl

@[simp] theorem get_bind (key : Bytes) (f : VersionedValue → Prog α) :
    get key >>= f = .call (.get key) f := rfl

@[simp] theorem getVersion_bind (key : Bytes) (f : UInt64 → Prog α) :
    getVersion key >>= f = .call (.getVersion key) f := rfl

@[simp] theorem put_bind (key value : Bytes) (f : Bool → Prog α) :
    put key value >>= f = .call (.put key value) f := rfl

@[simp] theorem putIfVersion_bind (key : Bytes) (v : UInt64) (value : Bytes) (f : Bool → Prog α) :
    putIfVersion key v value >>= f = .call (.putIfVersion key v value) f := rfl

@[simp] theorem deleteIfVersion_bind (key : Bytes) (v : UInt64) (f : Bool → Prog α) :
    deleteIfVersion key v >>= f = .call (.deleteIfVersion key v) f := rfl

@[simp] theorem batchPutIfVersion_bind (checks : List VersionCheck) (writes : List WriteOp)
    (f : Bool → Prog α) :
    batchPutIfVersion checks writes >>= f = .call (.batchPutIfVersion checks writes) f := rfl

end Binds

end Store

namespace Files

def replace (path contents : Bytes) : Prog Bool := (Call.replaceFile path contents).perform
def read (path : Bytes) : Prog (Option Bytes) := (Call.readFile path).perform
def exists_ (path : Bytes) : Prog Bool := (Call.fileExists path).perform
def remove (path : Bytes) : Prog Bool := (Call.removeFile path).perform
def rename (source target : Bytes) : Prog Bool := (Call.renameFile source target).perform
def createDirectories (path : Bytes) : Prog Bool := (Call.createDirectories path).perform

variable {α : Type}

@[simp] theorem replace_bind (path contents : Bytes) (f : Bool → Prog α) :
    replace path contents >>= f = .call (.replaceFile path contents) f := rfl

@[simp] theorem read_bind (path : Bytes) (f : Option Bytes → Prog α) :
    read path >>= f = .call (.readFile path) f := rfl

end Files

end DataAgentSystem.Storage
