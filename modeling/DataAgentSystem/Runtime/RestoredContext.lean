import DataAgentSystem.Runtime.TaskEventLog

/-! What a log keeps of its session. All events come back, and of the task its objects
and metadata, in whatever order a map of metadata is written; only an object or a key
without a name is passed over by the reader. -/

namespace DataAgentSystem.Runtime

open Text Containers Storage Interaction

variable {session : TaskSession} {metadata : List (Bytes × Bytes)}
  {artifact : ParsedTaskEventLogArtifact}

/-! ### Numbered fields -/

/-- The value of every field is found under its key. -/
def Finds (artifact : ParsedTaskEventLogArtifact) (fields : List LogField) : Prop :=
  ∀ field ∈ fields, artifact.metadataValue field.1 = unescapeTaskEventLogText field.2

theorem finds_append {fields fields' : List LogField} :
    Finds artifact (fields ++ fields') ↔ Finds artifact fields ∧ Finds artifact fields' :=
  List.forall_mem_append

/-- Those of the task are among the fields of the log. -/
theorem finds_writtenArtifact (session : TaskSession) (metadata : List (Bytes × Bytes)) :
    Finds (writtenArtifact session metadata)
      (objectFields (ascii "input") session.task.inputObjects) ∧
      Finds (writtenArtifact session metadata)
        (objectFields (ascii "output") session.task.outputObjects) ∧
      Finds (writtenArtifact session metadata)
        (listFields (ascii "task_metadata_") (ascii "_key") (ascii "_value") metadata) := by
  have hall : Finds (writtenArtifact session metadata) (logFields session metadata) :=
    fun _ hfield => metadataValue_writtenArtifact session metadata hfield
  rw [logFields, finds_append, finds_append, taskContextFields, finds_append, finds_append] at hall
  exact hall.2.1

/-- The number of items, and each item under its number. -/
theorem Finds.listFields {start first second : Bytes} {items : List (Bytes × Bytes)}
    (h : Finds artifact (listFields start first second items)) (hsize : items.length < 2 ^ 64) :
    (strtoull (artifact.metadataValue (start ++ ascii "count"))).toNat = items.length ∧
      (List.range items.length).map (fun i => (artifact.metadataValue (start ++ decimal i ++ first),
        artifact.metadataValue (start ++ decimal i ++ second))) = items := by
  constructor
  · have hcount := h _ List.mem_cons_self
    have hprinted := strtoull_decimal (UInt64.ofNat items.length)
    rw [UInt64.toNat_ofNat_of_lt' hsize] at hprinted
    rw [hcount, unescape_decimal, hprinted, UInt64.toNat_ofNat_of_lt' hsize]
  · apply List.ext_getElem (by simp)
    intro i hi hi'
    have hitem : (items[i], i) ∈ items.zipIdx :=
      List.mem_zipIdx_iff_getElem?.2 (List.getElem?_eq_getElem hi')
    have hfields : ∀ field ∈ [(start ++ decimal i ++ first, escapeTaskEventLogText items[i].1),
        (start ++ decimal i ++ second, escapeTaskEventLogText items[i].2)],
        artifact.metadataValue field.1 = unescapeTaskEventLogText field.2 := by
      intro field hfield
      exact h field (List.mem_cons_of_mem _ (List.mem_flatMap.2 ⟨_, hitem, hfield⟩))
    rw [List.forall_mem_cons, List.forall_mem_singleton] at hfields
    rw [List.getElem_map, List.getElem_range, hfields.1, hfields.2, unescape_escapeTaskEventLogText,
      unescape_escapeTaskEventLogText]

theorem Finds.restoreObjects {label : Bytes} {objects : List ObjectReference}
    (h : Finds artifact (objectFields label objects))
    (hnamed : ∀ object ∈ objects, object.objectId ≠ []) (hsize : objects.length < 2 ^ 64) :
    restoreObjects artifact label = objects := by
  obtain ⟨hcount, hitems⟩ := Finds.listFields h (by rwa [List.length_map])
  let restored : Bytes × Bytes → Option ObjectReference := fun item =>
    if item.1 = [] then none else some { objectId := item.1, objectRole := item.2 }
  have hrestore : Runtime.restoreObjects artifact label =
      ((List.range
          (strtoull (artifact.metadataValue
            (label ++ ascii "_object_" ++ ascii "count"))).toNat).map fun i =>
        (artifact.metadataValue (label ++ ascii "_object_" ++ decimal i ++ ascii "_id"),
          artifact.metadataValue
          (label ++ ascii "_object_" ++ decimal i ++ ascii "_role"))).filterMap restored := by
    rw [List.filterMap_map, List.append_assoc label]
    rfl
  rw [hrestore, hcount, hitems, List.filterMap_map]
  have hall : ∀ object ∈ objects,
      (restored ∘ fun object => (object.objectId, object.objectRole)) object = some object :=
    fun object hobject => if_neg (hnamed object hobject)
  rw [List.filterMap_congr hall, List.filterMap_some]

/-- The metadata are taken in the order in which they were written. -/
theorem Finds.restoreMetadata
    (h : Finds artifact
      (Runtime.listFields (ascii "task_metadata_") (ascii "_key") (ascii "_value") metadata))
    (hnamed : ∀ pair ∈ metadata, pair.1 ≠ []) (hsize : metadata.length < 2 ^ 64) :
    restoreMetadata artifact = UnorderedMap.assignAll Prod.fst Prod.snd metadata ∅ := by
  obtain ⟨hcount, hitems⟩ := Finds.listFields h hsize
  let add : UnorderedMap Bytes → Bytes × Bytes → UnorderedMap Bytes := fun m pair =>
    if pair.1 = [] then m else m.insert pair.1 pair.2
  have hrestore : Runtime.restoreMetadata artifact =
      ((List.range
          (strtoull (artifact.metadataValue (ascii "task_metadata_" ++ ascii "count"))).toNat).map
          fun i =>
        (artifact.metadataValue (ascii "task_metadata_" ++ decimal i ++ ascii "_key"),
          artifact.metadataValue (ascii "task_metadata_" ++ decimal i ++ ascii "_value"))).foldl add
          ∅ := by
    rw [List.foldl_map]
    rfl
  rw [hrestore, hcount, hitems]
  exact List.foldl_ext _ _ _ fun m pair hpair => if_neg (hnamed pair hpair)

/-! ### The task -/

/-- A task whose objects and keys have names, and no more of each than a word can count. -/
structure TaskContext.Named (task : TaskContext) : Prop where
  inputObjects : ∀ object ∈ task.inputObjects, object.objectId ≠ []
  outputObjects : ∀ object ∈ task.outputObjects, object.objectId ≠ []
  metadata : ∀ key ∈ task.metadata.keys, key ≠ []
  inputSize : task.inputObjects.length < 2 ^ 64
  outputSize : task.outputObjects.length < 2 ^ 64
  metadataSize : task.metadata.keys.length < 2 ^ 64

/-- The task has the objects and the metadata of the other one. -/
structure TaskContext.SameContext (task task' : TaskContext) : Prop where
  inputObjects : task.inputObjects = task'.inputObjects
  outputObjects : task.outputObjects = task'.outputObjects
  metadata : ∀ key, task.metadata.lookup key = task'.metadata.lookup key

theorem lookup_restoreMetadata (hmetadata : UnorderedMap.Iterates session.task.metadata metadata)
    (hnamed : ∀ key ∈ session.task.metadata.keys, key ≠ [])
    (hsize : session.task.metadata.keys.length < 2 ^ 64) (key : Bytes) :
    (restoreMetadata (writtenArtifact session metadata)).lookup key =
      session.task.metadata.lookup key := by
  have hfinds := (finds_writtenArtifact session metadata).2.2
  have hkeys : (metadata.map Prod.fst).Perm session.task.metadata.keys := by
    have hmap := List.Perm.map Prod.fst hmetadata
    rw [List.map_map] at hmap
    exact hmap
  have hpairs : ∀ pair ∈ metadata, pair.1 ≠ [] := fun pair hpair =>
    hnamed _ (hkeys.subset (List.mem_map_of_mem hpair))
  rw [hfinds.restoreMetadata hpairs (by rwa [← List.length_map (f := Prod.fst), hkeys.length_eq]),
    UnorderedMap.Iterates.lookup_assignAll hmetadata]

theorem sameContext_restoreTaskContext {task' : TaskContext}
    (hinput : restoreObjects artifact (ascii "input") = task'.inputObjects)
    (houtput : restoreObjects artifact (ascii "output") = task'.outputObjects)
    (hmetadata : ∀ key, (restoreMetadata artifact).lookup key = task'.metadata.lookup key)
    (task : TaskContext) :
    (restoreTaskContextFromArtifactMetadata artifact task).SameContext task' :=
  ⟨hinput, houtput, hmetadata⟩

theorem sameContext_writtenArtifact
    (hmetadata : UnorderedMap.Iterates session.task.metadata metadata) (hnamed : session.task.Named)
    (task : TaskContext) :
    (restoreTaskContextFromArtifactMetadata (writtenArtifact session metadata) task).SameContext
      session.task := by
  obtain ⟨hinput, houtput, -⟩ := finds_writtenArtifact session metadata
  apply sameContext_restoreTaskContext
  · exact hinput.restoreObjects hnamed.inputObjects hnamed.inputSize
  · exact houtput.restoreObjects hnamed.outputObjects hnamed.outputSize
  · exact lookup_restoreMetadata hmetadata hnamed.metadata hnamed.metadataSize

/-- The log of a session is read back with all its events, and the context of the task is
restored from it, whatever the order in which its metadata were written. -/
theorem parseTaskEventLogArtifact_restores (kind : StoreKind)
    (hmetadata : UnorderedMap.Iterates session.task.metadata metadata) (hnamed : session.task.Named)
    (path : Bytes) (task : TaskContext) (w : World) :
    ∃ artifact, ((do
        let _ ← writeTaskEventLogArtifact session metadata path
        return parseTaskEventLogArtifact (← Files.read path)).run (handle kind) w).1 =
          some artifact ∧
      artifact.events.map restoreEvent = session.events ∧
      (restoreTaskContextFromArtifactMetadata artifact task).SameContext session.task := by
  refine ⟨writtenArtifact session metadata, ?_, ?_,
    sameContext_writtenArtifact hmetadata hnamed task⟩
  · have hfile : (AList.insert path (taskEventLogText session metadata) w.files).lookup path =
        some (taskEventLogText session metadata) := AList.lookup_insert _
    exact (congrArg parseTaskEventLogArtifact hfile).trans
      (parseTaskEventLogArtifact_text session metadata)
  · show (session.events.map TaskEvent.parsed).map restoreEvent = session.events
    rw [List.map_map]
    exact List.map_id'' TaskEvent.restoreEvent_parsed session.events

/-- A session full of structural texts: keys, markers and separators of the log itself. -/
def awkwardSession : TaskSession where
  task := {
    taskId := ascii "a\tb"
    inputObjects := [⟨ascii "input_object_0_id", ascii "[events]"⟩, ⟨ascii "=\n", []⟩]
    outputObjects := [⟨ascii "\\", ascii "\t"⟩]
    metadata := AList.insert (ascii "task_metadata_count") (ascii "7")
      (AList.insert (ascii "=") [] ∅) }
  events := [
    { type := .write, branchId := ascii "[events]", objectId := [], detail := ascii "\t\n",
      numericValue := -1 }]

theorem parseTaskEventLogArtifact_restores_awkward :
    let metadata := [(ascii "=", []), (ascii "task_metadata_count", ascii "7")]
    ∃ artifact, ((do
        let _ ← writeTaskEventLogArtifact awkwardSession metadata (ascii "log")
        return parseTaskEventLogArtifact (← Files.read (ascii "log"))).run (handle .memory) {}).1 =
          some artifact ∧
      artifact.events.map restoreEvent = awkwardSession.events ∧
      (restoreTaskContextFromArtifactMetadata artifact {}).SameContext awkwardSession.task := by
  intro metadata
  have hmetadata : UnorderedMap.Iterates awkwardSession.task.metadata metadata :=
    List.Perm.swap _ _ _
  have hnamed : awkwardSession.task.Named :=
    ⟨by decide, by decide, by decide, by decide, by decide, by decide⟩
  exact parseTaskEventLogArtifact_restores .memory hmetadata hnamed (ascii "log") {} {}

end DataAgentSystem.Runtime
