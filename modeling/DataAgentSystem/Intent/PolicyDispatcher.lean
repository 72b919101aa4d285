import DataAgentSystem.Cache.WriteBuffer
import DataAgentSystem.Text.Decimal

/-! The concurrency class of an intent, and the value a buffered write resolves to
against the value the store holds at commit time. Signed arithmetic is that of
64-bit words. -/

namespace DataAgentSystem.Intent

open Text Cache

inductive ConcurrencyClass where
  | readOnly | strict | commutativeRebase | conditionalRebase
  deriving DecidableEq

structure ResolveResult where
  success : Bool := true
  shouldWrite : Bool := false
  value : Bytes := []
  reason : Bytes := []
  deriving DecidableEq

def classify : IntentType → ConcurrencyClass
  | .read => .readOnly
  | .overwrite => .strict
  | .append | .delta => .commutativeRebase
  | .cas => .conditionalRebase

def usesSemanticRebase (intentType : IntentType) : Bool :=
  classify intentType ≠ .strict && classify intentType ≠ .readOnly

/-- `ParseInt` of both `PolicyDispatcher` and `BranchManager`. -/
def parseInt (text : Bytes) : Option Int64 := fromChars text

def toString (i : Int64) : Bytes := signedDecimal i.toInt

def resolveWrite (entry : ObjectCacheEntry) (intent : WriteIntent) (currentStoreValue : Bytes) :
    ResolveResult :=
  match intent.intentType with
  | .read => { shouldWrite := false }
  | .overwrite => { shouldWrite := true, value := entry.currentValue }
  | .append =>
    if entry.baseValue.isPrefixOf entry.currentValue then
      { shouldWrite := true,
        value := currentStoreValue ++ entry.currentValue.drop entry.baseValue.length }
    else { shouldWrite := true, value := currentStoreValue ++ intent.payload }
  | .delta =>
    match parseInt currentStoreValue, parseInt entry.baseValue, parseInt entry.currentValue with
    | some current, some base, some branchValue =>
      { shouldWrite := true, value := toString (current + (branchValue - base)) }
    | current, _, _ => match current, parseInt intent.payload with
      | some current, some delta => { shouldWrite := true, value := toString (current + delta) }
      | _, _ => { success := false, shouldWrite := true,
                  reason := ascii "delta rebase requires integer base/current values" }
  | .cas =>
    if intent.condition.type = .valueEquals ∧
      currentStoreValue ≠ intent.condition.expectedValue then
      { success := false, reason := ascii "cas condition no longer holds" }
    else { shouldWrite := true, value := entry.currentValue }

@[simp] theorem usesSemanticRebase_overwrite : usesSemanticRebase .overwrite = false := rfl
@[simp] theorem usesSemanticRebase_read : usesSemanticRebase .read = false := rfl

/-- A resolution that succeeds writes unless the intent only reads. -/
theorem shouldWrite_iff {entry : ObjectCacheEntry} {intent : WriteIntent} {current : Bytes}
    (hs : (resolveWrite entry intent current).success = true) :
    (resolveWrite entry intent current).shouldWrite = true ↔ intent.intentType ≠ .read := by
  unfold resolveWrite at hs ⊢
  cases h : intent.intentType with
  | read => simp
  | overwrite => simp
  | append => simp; split <;> rfl
  | delta => simp; split <;> (try split) <;> rfl
  | cas => simp_all; split <;> simp_all

theorem resolveWrite_read {entry : ObjectCacheEntry} {intent : WriteIntent} (current : Bytes)
    (h : intent.intentType = .read) : resolveWrite entry intent current = {} := by
  simp [resolveWrite, h]

theorem resolveWrite_overwrite {entry : ObjectCacheEntry} {intent : WriteIntent} (current : Bytes)
    (h : intent.intentType = .overwrite) :
    resolveWrite entry intent current = { shouldWrite := true, value := entry.currentValue } := by
  simp [resolveWrite, h]

end DataAgentSystem.Intent
