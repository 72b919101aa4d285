import DataAgentSystem.Branch.LiveIntents

/-! Rebasing as replaying. A branch buffers what its intents make of the value it was
based on; a commit resolves that against another value. For appended text and for
integer deltas, the result is what the same intents make of the other value, so
nothing of the base is left in it. -/

namespace DataAgentSystem.Branch

open Text Intent Cache Storage BranchManager

/-- Resolving a buffered object replays its intents: on values that are `Good`, for
intents that are `Fit`. -/
structure Replays (Good : Bytes → Prop) (Fit : WriteIntent → Prop) : Prop where
  semantic : ∀ intent, Fit intent → usesSemanticRebase intent.intentType = true
  keeps : ∀ value intents, Good value → (∀ intent ∈ intents, Fit intent) →
    Good (bufferedFrom value intents)
  resolves : ∀ (base : VersionedValue) (current : Bytes) (intents : List WriteIntent)
    (entry : ObjectCacheEntry)
    (intent : WriteIntent), Good base.value → Good current → (∀ intent ∈ intents, Fit intent) →
    Buffers base intents entry → intents.getLast? = some intent →
    (resolveWrite entry intent current).value = bufferedFrom current intents

@[simp] theorem bufferedFrom_nil (value : Bytes) : bufferedFrom value [] = value := rfl

/-! ### Appended text -/

def IsAppend (intent : WriteIntent) : Prop := intent.intentType = .append

instance : DecidablePred IsAppend := fun intent => decEq intent.intentType .append

/-- The texts of some intents, one after the other. -/
def payloads (intents : List WriteIntent) : Bytes := intents.flatMap WriteIntent.payload

theorem bufferedFrom_append {intents : List WriteIntent} (h : ∀ intent ∈ intents, IsAppend intent)
    (value : Bytes) :
    bufferedFrom value intents = value ++ payloads intents := by
  induction intents using List.reverseRecOn with
  | nil => exact (List.append_nil _).symm
  | append_singleton intents intent ih =>
    have hlast : intent.intentType = .append := h intent (by simp)
    rw [bufferedFrom_snoc, ih fun i hi => h i (List.mem_append_left _ hi), bufferedValue, hlast]
    simp [payloads]

theorem replays_append : Replays (fun _ => True) IsAppend where
  semantic intent h := by
    rw [IsAppend] at h
    rw [h]
    rfl
  keeps _ _ _ _ := trivial
  resolves base current intents entry intent _ _ hfit hbuffers hlast := by
    have hintent : intent.intentType = .append := hfit intent (List.mem_of_getLast? hlast)
    have hcurrent : entry.currentValue = entry.baseValue ++ payloads intents := by
      rw [hbuffers.currentValue, bufferedFrom_append hfit, hbuffers.baseValue]
    have hstarts : entry.baseValue.isPrefixOf entry.currentValue = true := by
      rw [hcurrent, List.isPrefixOf_iff_prefix]
      exact List.prefix_append _ _
    rw [bufferedFrom_append hfit]
    simp only [resolveWrite, hintent, hstarts, ↓reduceIte]
    rw [hcurrent, List.drop_left]

/-! ### Integer deltas -/

theorem parseInt_toString (i : Int64) : parseInt (Intent.toString i) = some i :=
  fromChars_signedDecimal i

def IsInteger (value : Bytes) : Prop := (parseInt value).isSome = true

def IsDelta (intent : WriteIntent) : Prop := intent.intentType = .delta ∧ IsInteger intent.payload

instance : DecidablePred IsInteger := fun value => decEq (parseInt value).isSome true

instance : DecidablePred IsDelta := fun intent =>
  inferInstanceAs (Decidable (intent.intentType = .delta ∧ IsInteger intent.payload))

/-- The integer a text spells. -/
def intValue (text : Bytes) : ℤ := ((parseInt text).getD 0).toInt

/-- What some deltas add up to. -/
def deltaSum (intents : List WriteIntent) : ℤ :=
  (intents.map fun intent => intValue intent.payload).sum

theorem parseInt_of_isInteger {value : Bytes} (h : IsInteger value) :
    parseInt value = some (Int64.ofInt (intValue value)) := by
  obtain ⟨i, hi⟩ := Option.isSome_iff_exists.1 h
  rw [intValue, hi, Option.getD_some, Int64.ofInt_toInt]

theorem deltaSum_snoc (intents : List WriteIntent) (intent : WriteIntent) :
    deltaSum (intents ++ [intent]) = deltaSum intents + intValue intent.payload := by
  simp [deltaSum]

/-- Deltas leave the printed sum of the value and all of them. -/
theorem bufferedFrom_delta {intents : List WriteIntent} (h : ∀ intent ∈ intents, IsDelta intent)
    {value : Bytes} (hvalue : IsInteger value) :
    parseInt (bufferedFrom value intents) = some (Int64.ofInt (intValue value + deltaSum intents)) ∧
      (intents ≠ [] → bufferedFrom value intents =
        Intent.toString (Int64.ofInt (intValue value + deltaSum intents))) := by
  induction intents using List.reverseRecOn with
  | nil => exact ⟨by simpa [deltaSum] using parseInt_of_isInteger hvalue, fun hne => absurd rfl hne⟩
  | append_singleton intents intent ih =>
    obtain ⟨hdelta, hpayload⟩ := h intent (by simp)
    have hbefore := (ih fun i hi => h i (List.mem_append_left _ hi)).1
    have hstep : bufferedFrom value (intents ++ [intent]) =
        Intent.toString (Int64.ofInt (intValue value + deltaSum (intents ++ [intent]))) := by
      rw [bufferedFrom_snoc, bufferedValue, hdelta]
      simp only [hbefore, parseInt_of_isInteger hpayload]
      rw [deltaSum_snoc, ← Int64.ofInt_add, Int.add_assoc]
    exact ⟨by rw [hstep, parseInt_toString], fun _ => hstep⟩

theorem replays_delta : Replays IsInteger IsDelta where
  semantic intent h := by
    rw [h.1]
    rfl
  keeps value intents hvalue hfit := by
    rw [IsInteger, (bufferedFrom_delta hfit hvalue).1]
    rfl
  resolves base current intents entry intent hbase hcurrent hfit hbuffers hlast := by
    have hne : intents ≠ [] := by
      rintro rfl
      cases hlast
    have hintent : intent.intentType = .delta := (hfit intent (List.mem_of_getLast? hlast)).1
    have hbranch : parseInt entry.currentValue =
        some (Int64.ofInt (intValue base.value + deltaSum intents)) := by
      rw [hbuffers.currentValue]
      exact (bufferedFrom_delta hfit hbase).1
    have hparsed : parseInt entry.baseValue = some (Int64.ofInt (intValue base.value)) := by
      rw [hbuffers.baseValue]
      exact parseInt_of_isInteger hbase
    rw [(bufferedFrom_delta hfit hcurrent).2 hne]
    simp only [resolveWrite, hintent, parseInt_of_isInteger hcurrent, hparsed, hbranch]
    -- the base cancels, also where the sums wrap around
    congr 1
    rw [Int64.ofInt_add, Int64.ofInt_add]
    grind

end DataAgentSystem.Branch
