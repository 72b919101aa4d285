import DataAgentSystem.Branch.Replay

/-! The signed arithmetic behind deltas. Buffering a delta and resolving one add and
subtract 64-bit words without looking at the result; here are the results as
mathematics has them, and what they are while no result so far was out of range. -/

namespace DataAgentSystem.Branch

open Text Intent Cache Storage BranchManager

/-- The integers that a signed word of 64 bits can hold. -/
def InRange (n : ℤ) : Prop := -2 ^ 63 ≤ n ∧ n < 2 ^ 63

instance : DecidablePred InRange := fun n => inferInstanceAs (Decidable (-2 ^ 63 ≤ n ∧ n < 2 ^ 63))

/-- The sums that `BufferWrite` makes. -/
def bufferWriteSums (entry : ObjectCacheEntry) (intent : WriteIntent) : List ℤ :=
  match intent.intentType with
  | .delta => match parseInt entry.currentValue, parseInt intent.payload with
    | some current, some delta => [current.toInt + delta.toInt]
    | _, _ => []
  | _ => []

/-- The differences and sums that `ResolveWrite` makes. -/
def resolveWriteSums (entry : ObjectCacheEntry) (intent : WriteIntent)
    (currentStoreValue : Bytes) : List ℤ :=
  match intent.intentType with
  | .delta =>
    match parseInt currentStoreValue, parseInt entry.baseValue, parseInt entry.currentValue with
      | some current, some base, some branchValue =>
        [branchValue.toInt - base.toInt, current.toInt + (branchValue.toInt - base.toInt)]
      | current, _, _ => match current, parseInt intent.payload with
        | some current, some delta => [current.toInt + delta.toInt]
        | _, _ => []
  | _ => []

variable {entry : ObjectCacheEntry} {intent : WriteIntent} {deltas : List WriteIntent}

theorem intValue_of_parseInt {text : Bytes} {i : Int64} (h : parseInt text = some i) :
    intValue text = i.toInt := by
  rw [intValue, h, Option.getD_some]

theorem toInt_ofInt_of_inRange {n : ℤ} (h : InRange n) :
    (Int64.ofInt n).toInt = n := Int64.toInt_ofInt_of_le h.1 h.2

/-- What `BufferWrite` makes of a delta is its sum in decimal, where words hold the sum. -/
theorem bufferedValue_of_sums {n : ℤ} (h : (bufferWriteSums entry intent).getLast? = some n) :
    bufferedValue entry intent = Intent.toString (Int64.ofInt n) := by
  unfold bufferWriteSums at h
  split at h
  next htype =>
    split at h
    next current delta hcurrent hdelta =>
      rw [List.getLast?_singleton, Option.some.injEq] at h
      subst h
      rw [bufferedValue, htype]
      simp only [hcurrent, hdelta, Int64.ofInt_add, Int64.ofInt_toInt]
    next => cases h
  next => cases h

/-- So is what `ResolveWrite` makes of one, with the last of its sums. -/
theorem resolveWrite_of_sums {current : Bytes} {n : ℤ}
    (h : (resolveWriteSums entry intent current).getLast? = some n) :
    (resolveWrite entry intent current).value = Intent.toString (Int64.ofInt n) := by
  unfold resolveWriteSums at h
  split at h
  next htype =>
    split at h
    next stored base branchValue hstored hbase hbranch =>
      rw [List.getLast?_cons_cons, List.getLast?_singleton, Option.some.injEq] at h
      subst h
      simp only [resolveWrite, htype, hstored, hbase, hbranch, Int64.ofInt_add,
        Int64.ofInt_sub, Int64.ofInt_toInt]
    next hfallback =>
      split at h
      next stored delta hstored hdelta =>
        rw [List.getLast?_singleton, Option.some.injEq] at h
        subst h
        rw [Int64.ofInt_add, Int64.ofInt_toInt, Int64.ofInt_toInt]
        cases hbase : parseInt entry.baseValue with
        | none => simp only [resolveWrite, htype, hstored, hbase, hdelta]
        | some base =>
          cases hbranch : parseInt entry.currentValue with
          | none => simp only [resolveWrite, htype, hstored, hbase, hbranch, hdelta]
          | some branchValue =>
            exact absurd hbranch (hfallback stored base branchValue hstored hbase)
      next => cases h
  next => cases h

/-! ### Exact values -/

/-- The entry holds the sum of its base and the deltas, or its base where that is no number. -/
structure SumsUp (entry : ObjectCacheEntry) (deltas : List WriteIntent) : Prop where
  integer : IsInteger entry.baseValue →
    IsInteger entry.currentValue ∧ intValue entry.currentValue =
      intValue entry.baseValue + deltaSum deltas
  text : ¬IsInteger entry.baseValue → entry.currentValue = entry.baseValue

theorem sumsUp_newEntry (k : Bytes) (objectType : ObjectType) (base : VersionedValue) :
    SumsUp (newEntry k objectType base) [] :=
  ⟨fun h => ⟨h, (Int.add_zero _).symm⟩, fun _ => rfl⟩

theorem SumsUp.bufferWriteSums_eq (h : SumsUp entry deltas) (hintent : IsDelta intent) :
    bufferWriteSums entry intent =
    if IsInteger entry.baseValue then [intValue entry.baseValue + deltaSum (deltas ++ [intent])]
      else [] := by
  obtain ⟨htype, hpayload⟩ := hintent
  obtain ⟨delta, hdelta⟩ := Option.isSome_iff_exists.1 hpayload
  by_cases hbase : IsInteger entry.baseValue
  · obtain ⟨hinteger, hvalue⟩ := h.integer hbase
    obtain ⟨current, hcurrent⟩ := Option.isSome_iff_exists.1 hinteger
    rw [if_pos hbase, deltaSum_snoc, ← Int.add_assoc, ← hvalue, intValue_of_parseInt hcurrent,
      intValue_of_parseInt hdelta]
    simp only [bufferWriteSums, htype, hcurrent, hdelta]
  · have hnone : parseInt entry.currentValue = none := by
      rw [h.text hbase]
      simpa [IsInteger] using hbase
    rw [if_neg hbase]
    simp only [bufferWriteSums, htype, hnone]

/-- A delta whose sum is in range keeps the entry exact. -/
theorem SumsUp.snoc (h : SumsUp entry deltas) (hintent : IsDelta intent) (objectType : ObjectType)
    (hfits : IsInteger entry.baseValue →
      InRange (intValue entry.baseValue + deltaSum (deltas ++ [intent]))) :
    SumsUp (updateEntry entry objectType intent) (deltas ++ [intent]) := by
  have hsums := h.bufferWriteSums_eq hintent
  constructor
  · intro hbase
    change IsInteger entry.baseValue at hbase
    rw [if_pos hbase] at hsums
    have hcurrent : parseInt (updateEntry entry objectType intent).currentValue =
        some (Int64.ofInt (intValue entry.baseValue + deltaSum (deltas ++ [intent]))) := by
      show parseInt (bufferedValue entry intent) = _
      rw [bufferedValue_of_sums (hsums ▸ List.getLast?_singleton), parseInt_toString]
    refine ⟨by rw [IsInteger, hcurrent]; rfl, ?_⟩
    rw [intValue_of_parseInt hcurrent]
    exact toInt_ofInt_of_inRange (hfits hbase)
  · intro hbase
    change ¬IsInteger entry.baseValue at hbase
    have hnone : parseInt entry.currentValue = none := by
      rw [h.text hbase]
      simpa [IsInteger] using hbase
    show bufferedValue entry intent = entry.baseValue
    rw [bufferedValue, hintent.1]
    simp only [hnone]
    exact h.text hbase

theorem SumsUp.resolveWriteSums_eq (h : SumsUp entry deltas) (hintent : IsDelta intent)
    (current : Bytes) :
    resolveWriteSums entry intent current =
      if IsInteger current then
        if IsInteger entry.baseValue then [deltaSum deltas, intValue current + deltaSum deltas]
        else [intValue current + intValue intent.payload]
      else [] := by
  obtain ⟨htype, hpayload⟩ := hintent
  obtain ⟨delta, hdelta⟩ := Option.isSome_iff_exists.1 hpayload
  by_cases hcurrent : IsInteger current
  · obtain ⟨stored, hstored⟩ := Option.isSome_iff_exists.1 hcurrent
    rw [if_pos hcurrent]
    by_cases hbase : IsInteger entry.baseValue
    · obtain ⟨hinteger, hvalue⟩ := h.integer hbase
      obtain ⟨base, hparsed⟩ := Option.isSome_iff_exists.1 hbase
      obtain ⟨branchValue, hbranch⟩ := Option.isSome_iff_exists.1 hinteger
      have hdifference : deltaSum deltas = branchValue.toInt - base.toInt := by
        rw [← intValue_of_parseInt hbranch, ← intValue_of_parseInt hparsed,
          hvalue, add_sub_cancel_left]
      rw [if_pos hbase, hdifference, intValue_of_parseInt hstored]
      simp only [resolveWriteSums, htype, hstored, hparsed, hbranch]
    · have hnone : parseInt entry.baseValue = none := by simpa [IsInteger] using hbase
      rw [if_neg hbase, intValue_of_parseInt hstored, intValue_of_parseInt hdelta]
      simp only [resolveWriteSums, htype, hstored, hnone, hdelta]
  · have hnone : parseInt current = none := by simpa [IsInteger] using hcurrent
    rw [if_neg hcurrent]
    simp only [resolveWriteSums, htype, hnone]

end DataAgentSystem.Branch
