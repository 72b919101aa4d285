import DataAgentSystem.Text.Bytes

/-! Write intents: what a buffered write means, beside the value it leaves. -/

namespace DataAgentSystem.Intent

open Text

inductive IntentType where
  | read | overwrite | append | delta | cas
  deriving DecidableEq

inductive ConditionType where
  | none | valueEquals
  deriving DecidableEq

structure Condition where
  type : ConditionType := .none
  expectedValue : Bytes := []
  deriving DecidableEq

structure WriteIntent where
  objectId : Bytes
  intentType : IntentType := .read
  payload : Bytes := []
  condition : Condition := {}
  deriving DecidableEq

structure IntentLog where
  entries : List WriteIntent := []
  deriving DecidableEq

namespace IntentLog

def append (log : IntentLog) (intent : WriteIntent) : IntentLog :=
  { entries := log.entries ++ [intent] }

def truncate (log : IntentLog) (size : ℕ) : IntentLog := { entries := log.entries.take size }

def size (log : IntentLog) : ℕ := log.entries.length

end IntentLog

end DataAgentSystem.Intent
