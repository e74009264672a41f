/-
`flag_event.rs`: what the user did with a message, recorded by a hash of the message and a few
features of its headers.
-/
import Thundercrab.Core.Serde

namespace Thundercrab

/-- What the user did. -/
inductive FlagSource where
  | manualMove
  | toggleFlag
  | explicitCategory
  | acceptSuggestion
  deriving DecidableEq

/-- A user-flagging event. The destination is a folder for moves and a flag name for flag toggles;
the sender domain is empty if it could not be parsed. -/
structure FlagEvent where
  messageHash : Bytes32
  source : FlagSource
  destination : String
  fromDomainWithAt : String
  listId : Option String
  hasListUnsubscribe : Bool
  subjectTokens : List String
  priorityHigh : Bool
  /-- Unix time. -/
  observedAt : I64

/-- The name a source is stored under. -/
def FlagSource.name : FlagSource → String
  | .manualMove => "manual_move"
  | .toggleFlag => "toggle_flag"
  | .explicitCategory => "explicit_category"
  | .acceptSuggestion => "accept_suggestion"

theorem FlagSource.name_inj {a b : FlagSource} (h : a.name = b.name) : a = b := by
  revert h
  cases a <;> cases b <;> decide

end Thundercrab
