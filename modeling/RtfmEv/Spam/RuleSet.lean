import RtfmEv.HostRepeater.Settings
import RtfmEv.Lib.Json

/-!
# Spam Guard rules (`app/spam/rules.py`)

A rendered rule is a name, a list of tests that all have to hold, and an action.
The same rule is written to an OpenHop node as a JSON object and handed to the
host repeater as one of its policy rules.
-/

namespace RtfmEv.Spam

open RtfmEv.Lib RtfmEv.HostRepeater

abbrev hostPrefix : String := "spam:"
abbrev openhopPrefix : String := "rtfm-spam:"
abbrev openhopObjectGroup : String := "rtfmspam"
abbrev openhopKnownSenders : String := "known_senders"
abbrev openhopBotSenders : String := "bot_senders"

/-- The packet fields that a rule tests. Only an OpenHop node has the second. -/
inductive RuleField
  | payloadType
  | localTransmission
  | channelHash
  | channelSender
  | channelMessageBody
  | pathHashes
  | pathFirst
  | hopCount
  deriving DecidableEq

def RuleField.name : RuleField → String
  | .payloadType => "payload_type"
  | .localTransmission => "local_transmission"
  | .channelHash => "channel_hash"
  | .channelSender => "channel_sender"
  | .channelMessageBody => "channel_message_body"
  | .pathHashes => "path_hashes"
  | .pathFirst => "path_first"
  | .hopCount => "hop_count"

inductive RuleOp
  | equals
  | notEquals
  | contains
  | isIn
  deriving DecidableEq

def RuleOp.name : RuleOp → String
  | .equals => "equals"
  | .notEquals => "not_equals"
  | .contains => "contains"
  | .isIn => "in"

inductive RuleValue
  | flag (b : Bool)
  | number (n : ℕ)
  | text (s : String)
  | texts (xs : List String)
  deriving DecidableEq

/-- One `_cond`. -/
structure RuleTest where
  field : RuleField
  op : RuleOp
  value : RuleValue
  deriving DecidableEq

/-- The id of a rule: a text on the host repeater, an integer on a node. -/
inductive RuleId
  | text (s : String)
  | number (n : ℕ)
  deriving DecidableEq

inductive RuleAction
  | allow
  | drop
  deriving DecidableEq

def RuleAction.name : RuleAction → String
  | .allow => "allow"
  | .drop => "drop"

/-- An enabled rule whose tests all have to hold. -/
structure SpamRule where
  id : RuleId
  name : String
  conditions : List RuleTest
  action : RuleAction
  deriving DecidableEq

/-- The rules before and after the user's own, and the names that some of them
refer to. -/
structure RuleSet where
  before : List SpamRule := []
  after : List SpamRule := []
  knownSenders : List String := []
  botSenders : List String := []
  truncated : Bool := false

def RuleSet.rules (r : RuleSet) : List SpamRule := r.before ++ r.after

/-! ### The JSON form -/

def RuleValue.toJson : RuleValue → Json
  | .flag b => .bool b
  | .number n => .int n
  | .text s => .str s
  | .texts xs => .arr (xs.map Json.str)

def RuleTest.toJson (c : RuleTest) : Json :=
  .obj [("field", .str c.field.name), ("op", .str c.op.name), ("value", c.value.toJson)]

def RuleId.toJson : RuleId → Json
  | .text s => .str s
  | .number n => .int n

def SpamRule.toJson (r : SpamRule) : Json :=
  .obj [("id", r.id.toJson), ("name", .str r.name), ("enabled", .bool true),
    ("if", .obj [("all", .arr (r.conditions.map RuleTest.toJson))]),
    ("then", .obj [("action", .str r.action.name)])]

end RtfmEv.Spam
