import DataAgentSystem.Branch.CandidateResult
import DataAgentSystem.Containers.FirstMaximum
import DataAgentSystem.Intent.PolicyDispatcher
import DataAgentSystem.Storage.World

/-! Branches of a transaction: reading through the branch-local buffer, buffering
writes, savepoints, staging, and the choice of a winner. A branch reaches the
store only to read it. -/

namespace DataAgentSystem.Branch

open Text Intent Cache Containers Storage Interaction

inductive BranchStatus where
  | created | running | staged | winner | loser | committed | discarded | aborted
  deriving DecidableEq

structure BranchContext where
  branchId : Bytes
  status : BranchStatus := .created
  readSet : ReadSet := {}
  writeBuffer : WriteBuffer := .empty
  intentLog : IntentLog := {}
  candidateResult : CandidateResult := {}
  savepoints : List Savepoint := []

structure ReadResult where
  value : Bytes := []
  version : UInt64 := 0
  exists_ : Bool := false
  deriving DecidableEq

namespace BranchManager

def createBranch (branches : List BranchContext) (branchId : Bytes) : List BranchContext :=
  branches ++ [{ branchId := branchId }]

def findBranch (branches : List BranchContext) (branchId : Bytes) : Option BranchContext :=
  branches.find? fun branch => branch.branchId = branchId

/-- Put a changed branch back where `findBranch` finds its id. -/
def replaceBranch : List BranchContext → BranchContext → List BranchContext
  | [], _ => []
  | b :: branches, branch =>
    if b.branchId = branch.branchId then branch :: branches else b :: replaceBranch branches branch

/-- `std::max_element`: the first branch that no later one beats. -/
def maxElement : BranchContext → List BranchContext → BranchContext
  | largest, [] => largest
  | largest, b :: branches =>
    if largest.candidateResult.score.lt b.candidateResult.score
    then maxElement b branches else maxElement largest branches

def selectWinner : List BranchContext → Except Bytes Bytes
  | [] => .error (ascii "cannot select winner from empty branch list")
  | b :: branches => .ok (maxElement b branches).branchId

def markWinnerAndLosers (branches : List BranchContext) (winnerBranchId : Bytes) :
    List BranchContext :=
  branches.map fun branch =>
    { branch with status := if branch.branchId = winnerBranchId then .winner else .loser }

/-- A buffered object is read from the buffer and leaves no read record. -/
def readObject (branch : BranchContext) (objectId : Bytes) : Prog (ReadResult × BranchContext) :=
  match branch.writeBuffer.find objectId with
  | some buffered =>
    return ({ value := buffered.currentValue, version := buffered.baseVersion,
              exists_ := buffered.undoRecord.existed || buffered.baseValue ≠ [] ||
              buffered.currentValue ≠ [] },
            { branch with status := .running })
  | none => do
    let value ← Store.get objectId
    return ({ value := value.value, version := value.version, exists_ := value.exists_ },
            { branch with status := .running, readSet := branch.readSet.record objectId value.version })

def createSavepoint (branch : BranchContext) (savepointId : Bytes) : BranchContext :=
  let savepoint := { savepointId, writeLogPosition := branch.writeBuffer.size,
                     intentLogPosition := branch.intentLog.size }
  { branch with savepoints := branch.savepoints ++ [savepoint] }

def stageBranch (branch : BranchContext) (score : Double) (summary : Bytes) : BranchContext :=
  { branch with candidateResult := { score, summary }, status := .staged }

/-- The entry of an object that was not buffered yet. -/
def newEntry (objectId : Bytes) (objectType : ObjectType) (base : VersionedValue) :
    ObjectCacheEntry where
  objectId
  objectType
  baseValue := base.value
  baseVersion := base.version
  currentValue := base.value
  undoRecord := { previousValue := base.value, existed := base.exists_ }

/-- The value an intent leaves in the buffer. A delta of something that is not a
number changes nothing. -/
def bufferedValue (entry : ObjectCacheEntry) (intent : WriteIntent) : Bytes :=
  match intent.intentType with
  | .read => entry.baseValue
  | .overwrite | .cas => intent.payload
  | .append => entry.currentValue ++ intent.payload
  | .delta => match parseInt entry.currentValue, parseInt intent.payload with
    | some current, some delta => Intent.toString (current + delta)
    | _, _ => entry.currentValue

def updateEntry (entry : ObjectCacheEntry) (objectType : ObjectType) (intent : WriteIntent) :
    ObjectCacheEntry :=
  { entry with objectType, dirty := intent.intentType ≠ .read, intentType := intent.intentType,
               currentValue := bufferedValue entry intent }

/-- The branch after an entry and its intent have been recorded. -/
def recordWrite (branch : BranchContext) (entry : ObjectCacheEntry) (objectType : ObjectType)
    (intent : WriteIntent) : BranchContext :=
  { branch with status := .running
                writeBuffer := branch.writeBuffer.upsert (updateEntry entry objectType intent)
                intentLog := branch.intentLog.append intent }

def bufferWrite (branch : BranchContext) (objectId : Bytes) (objectType : ObjectType)
    (intent : WriteIntent) : Prog BranchContext :=
  match branch.writeBuffer.find objectId with
  | some existing => return recordWrite branch existing objectType intent
  | none => do
    let base ← Store.get objectId
    return recordWrite branch (newEntry objectId objectType base) objectType intent

/-! ### Lookups -/

theorem branchId_of_findBranch {branches : List BranchContext} {id : Bytes} {b : BranchContext}
    (h : findBranch branches id = some b) : b.branchId = id := by
  simpa using List.find?_some h

theorem mem_of_findBranch {branches : List BranchContext} {id : Bytes} {b : BranchContext}
    (h : findBranch branches id = some b) : b ∈ branches := List.mem_of_find?_eq_some h

theorem findBranch_isSome {branches : List BranchContext} {id : Bytes} :
    (findBranch branches id).isSome ↔ id ∈ branches.map (·.branchId) := by
  simp [findBranch]

@[simp] theorem map_branchId_replaceBranch (branches : List BranchContext)
    (branch : BranchContext) :
    (replaceBranch branches branch).map (·.branchId) = branches.map (·.branchId) := by
  induction branches with
  | nil => rfl
  | cons b branches ih =>
    by_cases hb : b.branchId = branch.branchId
    · simp [replaceBranch, hb]
    · simp [replaceBranch, hb, ih]

theorem mem_of_mem_replaceBranch {branches : List BranchContext} {branch b : BranchContext}
    (hb : b ∈ replaceBranch branches branch) : b = branch ∨ b ∈ branches := by
  induction branches with
  | nil => simp [replaceBranch] at hb
  | cons b' branches ih =>
    rw [replaceBranch] at hb
    split at hb
    next => exact (List.mem_cons.1 hb).imp id (List.mem_cons_of_mem _)
    next =>
      rcases List.mem_cons.1 hb with rfl | hb
      · exact .inr List.mem_cons_self
      · exact (ih hb).imp id (List.mem_cons_of_mem _)

theorem findBranch_replaceBranch (branches : List BranchContext)
    (branch : BranchContext) (id : Bytes) :
    findBranch (replaceBranch branches branch) id =
      if id = branch.branchId then (findBranch branches id).map fun _ => branch
        else findBranch branches id := by
  induction branches with
  | nil => simp [replaceBranch, findBranch]
  | cons b branches ih =>
    unfold findBranch at ih ⊢
    by_cases hb : b.branchId = branch.branchId
    · by_cases hid : branch.branchId = id
      · simp [replaceBranch, hb, hid]
      · simp [replaceBranch, hb, hid, Ne.symm hid]
    · by_cases hid : b.branchId = id
      · have hne : id ≠ branch.branchId := fun h => hb (hid.trans h)
        simp [replaceBranch, hid, hne]
      · simp only [replaceBranch, hb, if_false, List.find?_cons, hid, decide_false]
        exact ih

theorem maxElement_mem (b : BranchContext) (branches : List BranchContext) :
    maxElement b branches ∈ b :: branches := by
  induction branches generalizing b with
  | nil => simp [maxElement]
  | cons b' branches ih =>
    rw [maxElement]
    split
    · exact List.mem_cons_of_mem _ (ih b')
    · rcases List.mem_cons.1 (ih b) with h | h
      · rw [h]
        exact List.mem_cons_self
      · exact List.mem_cons_of_mem _ (List.mem_cons_of_mem _ h)

/-- Winner selection throws on no branches and otherwise names one of them. -/
theorem selectWinner_ok {branches : List BranchContext} (h : branches ≠ []) :
    ∃ id, selectWinner branches = .ok id ∧ id ∈ branches.map (·.branchId) := by
  cases branches with
  | nil => exact absurd rfl h
  | cons b branches => exact ⟨_, rfl, List.mem_map_of_mem (maxElement_mem b branches)⟩

/-- The score of the branch as a number. -/
def score (branch : BranchContext) : ℚ := branch.candidateResult.score.value

/-- A branch whose score is a number. -/
def Scored (branch : BranchContext) : Prop := ∃ q, branch.candidateResult.score = .finite q

theorem score_lt_score {b b' : BranchContext} (hb : Scored b) (hb' : Scored b') :
    b.candidateResult.score.lt b'.candidateResult.score = true ↔ score b < score b' := by
  obtain ⟨q, hq⟩ := hb
  obtain ⟨q', hq'⟩ := hb'
  rw [score, score, hq, hq']
  exact decide_eq_true_iff

/-- Among scores that are numbers the winner is the first of the best. -/
theorem maxElement_eq_argmax {b : BranchContext} {branches : List BranchContext}
    (h : ∀ b' ∈ b :: branches, Scored b') :
    some (maxElement b branches) = (b :: branches).argmax score := by
  induction branches generalizing b with
  | nil => rfl
  | cons b' branches ih =>
    rw [List.forall_mem_cons, List.forall_mem_cons] at h
    obtain ⟨hb, hb', hrest⟩ := h
    rw [maxElement]
    -- the search for a greatest element takes the same first step
    have hstep : (b :: b' :: branches).argmax score =
        if score b < score b' then (b' :: branches).argmax score
            else (b :: branches).argmax score := by
      show List.foldl _ (if score b < score b' then some b' else some b) branches = _
      split <;> rfl
    rw [hstep]
    by_cases hlt : score b < score b'
    · rw [if_pos ((score_lt_score hb hb').2 hlt), if_pos hlt]
      exact ih (List.forall_mem_cons.2 ⟨hb', hrest⟩)
    · rw [if_neg (fun h => hlt ((score_lt_score hb hb').1 h)), if_neg hlt]
      exact ih (List.forall_mem_cons.2 ⟨hb, hrest⟩)

theorem exists_leads {branches : List BranchContext} (hne : branches ≠ [])
    (h : ∀ b ∈ branches, Scored b) :
    ∃ winner, Leads score branches winner ∧ selectWinner branches = .ok winner.branchId := by
  cases branches with
  | nil => exact absurd rfl hne
  | cons b branches => exact ⟨_, leads_iff_mem_argmax.2 (maxElement_eq_argmax h).symm, rfl⟩

@[simp] theorem map_branchId_markWinnerAndLosers (branches : List BranchContext) (id : Bytes) :
    (markWinnerAndLosers branches id).map (·.branchId) = branches.map (·.branchId) := by
  simp [markWinnerAndLosers, Function.comp_def]

theorem findBranch_map {f : BranchContext → BranchContext} (hf : ∀ b, (f b).branchId = b.branchId)
    (branches : List BranchContext) (id : Bytes) :
    findBranch (branches.map f) id = (findBranch branches id).map f := by
  induction branches with
  | nil => rfl
  | cons b branches ih =>
    unfold findBranch at ih ⊢
    by_cases hb : b.branchId = id
    · simp [hf, hb]
    · simp [hf, hb, ih]

theorem findBranch_markWinnerAndLosers (branches : List BranchContext) (winnerId id : Bytes) :
    findBranch (markWinnerAndLosers branches winnerId) id =
      (findBranch branches id).map fun b =>
        { b with status := if id = winnerId then .winner else .loser } := by
  refine (findBranch_map (by exact fun _ => rfl) branches id).trans ?_
  cases hfind : findBranch branches id with
  | none => rfl
  | some b => rw [Option.map_some, Option.map_some, branchId_of_findBranch hfind]

end BranchManager

end DataAgentSystem.Branch
