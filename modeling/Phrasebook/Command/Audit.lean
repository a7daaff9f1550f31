-- SUMMARY: Audit events of an extraction and their JSON lines.
import Phrasebook.Json.Printer
import Phrasebook.Scan.Unit

/-!
# Audit events

An extraction records one event per unit and one per dropped message. An event becomes a line of
JSON once it is stamped with a time.
-/
namespace Phrasebook

/-- What became of a unit or of a message. -/
inductive AuditOutcome where
  /-- The unit was scanned. -/
  | ok
  /-- The message was dropped, and the scan went on. -/
  | skipped
  /-- The unit could not be read or scanned. -/
  | failed
deriving DecidableEq, Repr

def AuditOutcome.name : AuditOutcome → String
  | .ok      => "ok"
  | .skipped => "skipped"
  | .failed  => "failed"

/-- The outcomes by name. -/
def AuditOutcome.names : List (String × AuditOutcome) :=
  [AuditOutcome.ok, .skipped, .failed].map fun outcome => (outcome.name, outcome)

structure AuditEvent where
  unit      : String
  outcome   : AuditOutcome
  /-- The message, when its id is known. -/
  messageId : Option String := none
  /-- The label of the kind of failure. -/
  errorKind : Option String := none
  /-- A count of messages or the text of a failure. -/
  detail    : Option String := none
deriving DecidableEq, Repr

namespace AuditEvent

/-- A unit was scanned and has `messages` entries. -/
def scanned (unit : String) (messages : Nat) : AuditEvent where
  unit    := unit
  outcome := .ok
  detail  := some s!"messages={messages}"

/-- A message failed. -/
def located (unit : String) (outcome : AuditOutcome) (failure : LocatedError) : AuditEvent where
  unit      := unit
  outcome   := outcome
  messageId := failure.messageId
  errorKind := some failure.error.label
  detail    := some failure.message

/-- A unit could not be read or decoded. -/
def unreadable (unit : String) (detail : Option String) : AuditEvent where
  unit      := unit
  outcome   := .failed
  errorKind := some "input"
  detail    := detail

open Json in
/-- The event at a time, in milliseconds since 1970. -/
def toJson (event : AuditEvent) (time : Nat) : Value :=
  .object
    [("event", .string "markup_extraction"),
     ("timestamp_ms", .ofNat time),
     ("unit", .string event.unit),
     ("outcome", .string event.outcome.name),
     ("message_id", .ofOption (event.messageId.map Value.string)),
     ("error_kind", .ofOption (event.errorKind.map Value.string)),
     ("detail", .ofOption (event.detail.map Value.string))]

/-- The event at a time, on one line. -/
def line (event : AuditEvent) (time : Nat) : String := (event.toJson time).compact

end AuditEvent

end Phrasebook
