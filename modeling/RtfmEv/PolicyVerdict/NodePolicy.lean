import RtfmEv.Lib.Json
import RtfmEv.Primitives

/-!
# Values of a policy document (`app/services/policy_verdict.py`)

Order, text and membership of document values as the comparison of a condition
uses them, and the normal forms of path and channel hashes. A `TypeError` inside a
comparison makes it false, a `ValueError` is `none`.
-/

namespace RtfmEv.Lib.Json

mutual

/-- `a < b`, `none` for a `TypeError`. Lists compare at their first difference. -/
def pyLt : Json → Json → Option Bool
  | .str s, .str t => some (textLt s t)
  | .arr xs, .arr ys => pyLtItems xs ys
  | a, b =>
    match num? a, num? b with
    | some x, some y => some (x < y)
    | _, _ => none

def pyLtItems : List Json → List Json → Option Bool
  | _, [] => some false
  | [], _ :: _ => some true
  | x :: xs, y :: ys => if pyEq x y then pyLtItems xs ys else pyLt x y

end

/-- `a <= b`: equal values, or less. -/
def pyLe (a b : Json) : Option Bool := (pyLt a b).map (fun less => less || pyEq a b)

mutual

/-- `repr(v)`. -/
def pyRepr (P : Primitives) : Json → String
  | .null => "None"
  | .bool b => if b then "True" else "False"
  | .int n => toString n
  | .float x => P.strFloat x
  | .str s => P.reprStr s
  | .arr xs => "[" ++ pyReprItems P xs ++ "]"
  | .obj fields => "\x7b" ++ pyReprFields P fields ++ "\x7d"

def pyReprItems (P : Primitives) : List Json → String
  | [] => ""
  | [x] => pyRepr P x
  | x :: xs => pyRepr P x ++ ", " ++ pyReprItems P xs

def pyReprFields (P : Primitives) : List (String × Json) → String
  | [] => ""
  | [(k, v)] => P.reprStr k ++ ": " ++ pyRepr P v
  | (k, v) :: fields => P.reprStr k ++ ": " ++ pyRepr P v ++ ", " ++ pyReprFields P fields

end

/-- `str(v)`. -/
def pyStr (P : Primitives) : Json → String
  | .str s => s
  | v => v.pyRepr P

/-- A set may hold the value: it is neither a list nor an object. -/
def hashable : Json → Bool
  | .arr _ => false
  | .obj _ => false
  | _ => true

def isNull : Json → Bool
  | .null => true
  | _ => false

/-- `isinstance(v, int)`, with its value. -/
def int? : Json → Option ℤ
  | .int n => some n
  | .bool b => some (if b then 1 else 0)
  | _ => none

/-- `list(v) if isinstance(v, list) else [v]`. -/
def asList : Json → List Json
  | .arr xs => xs
  | v => [v]

end RtfmEv.Lib.Json

namespace RtfmEv.PolicyVerdict

open RtfmEv.Lib

/-- What the language does with text beyond the given functions: `int(text, base)`,
`text.isdigit()` and `bytes.decode("utf-8", errors="replace")`. -/
structure NodeTools extends Primitives where
  parseInt : String → ℕ → Option ℤ
  isDigits : String → Bool
  decodeReplace : Bytes → String

/-! ### Hashes -/

def isHexChar (c : Char) : Bool := "0123456789abcdefABCDEF".toList.contains c

/-- The text behind a leading `0x`. -/
def dropHexPrefix (text : String) : String :=
  if textStartsWith (lowerAscii text) "0x" then String.ofList (text.toList.drop 2) else text

/-- `_secret_literal`: a full channel secret written as 32 or 64 hex characters. -/
def secretLiteral (value : Json) : Option String :=
  match value with
  | .str s =>
    let text := dropHexPrefix (strip s)
    if [32, 64].contains text.toList.length && text.toList.all isHexChar then some text else none
  | _ => none

def secretBytes (secret : String) : Bytes :=
  (fromHex secret.toList).getD secret.toUTF8.data.toList

def secretHash (T : NodeTools) (secret : String) : UInt8 :=
  let raw := secretBytes secret
  let raw :=
    -- a 16 byte secret stored zero-padded
    if raw.length ≥ 32 ∧ (raw.drop 16).take 16 = List.replicate 16 0 then raw.take 16
    else if raw.length > 32 then raw.take 32
    else raw
  (T.sha256 raw).headD 0

/-- `f"{n:0{width}X}"` of a number below `16 ^ width`. -/
def hexUpper (width n : ℕ) : String :=
  String.ofList (((List.range width).map (fun i =>
    hexDigit (n / 16 ^ (width - 1 - i) % 16))).map Char.toUpper)

def normalisePathHash (T : NodeTools) (value : Json) : Option Json :=
  match value with
  | .null => some .null
  | value =>
    match value.int? with
    | some n =>
      if n < 0 then some .null
      else if n > 0xFFFFFF then none
      else
        let width := if n ≤ 0xFF then 2 else if n ≤ 0xFFFF then 4 else 6
        some (.str (hexUpper width n.toNat))
    | none =>
      let raw := dropHexPrefix (strip (value.pyStr T.toPrimitives))
      if raw.toList = [] then some .null
      else if !([2, 4, 6].contains raw.toList.length && raw.toList.all isHexChar) then none
      else some (.str (upperAscii raw))

/-- The values that are not `None`, of a normal form for each. -/
def normaliseItems (f : Json → Option Json) (xs : List Json) : Option (List Json) :=
  (xs.mapM f).map (fun out => out.filter (fun h => !h.isNull))

def textLength : Json → ℕ
  | .str s => s.toList.length
  | _ => 0

/-- `_normalise_path_hashes`: hashes of one list have one length. -/
def normalisePathHashes (T : NodeTools) (value : Json) : Option Json :=
  match value with
  | .arr xs =>
    (normaliseItems (normalisePathHash T) xs).bind (fun out =>
      if (out.map textLength).dedup.length > 1 then none else some (.arr out))
  | value => normalisePathHash T value

def normaliseChannelHash (T : NodeTools) (value : Json) : Option Json :=
  let oneByte := fun (parsed : ℤ) =>
    if 0 ≤ parsed ∧ parsed ≤ 0xFF then some (Json.str ("0x" ++ hexUpper 2 parsed.toNat)) else none
  match value with
  | .null => some .null
  | value =>
    match value.int? with
    | some n => oneByte n
    | none =>
      let raw := strip (value.pyStr T.toPrimitives)
      if raw.toList = [] then some .null
      else
        match secretLiteral (.str raw) with
        | some secret => some (.str ("0x" ++ hexUpper 2 (secretHash T secret).toNat))
        | none =>
          let base := if textStartsWith (lowerAscii raw) "0x" then 16
            else if T.isDigits raw then 10 else 16
          (T.parseInt raw base).bind oneByte

def normaliseChannelHashes (T : NodeTools) (value : Json) : Option Json :=
  match value with
  | .arr xs => (normaliseItems (normaliseChannelHash T) xs).map Json.arr
  | value => normaliseChannelHash T value

/-! ### Comparison -/

/-- `_compare`: the operators on an actual and an expected value. -/
def compare (T : NodeTools) (actual op expected : Json) : Bool :=
  let name := lowerAscii ((if op.truthy then op else .str "equals").pyStr T.toPrimitives)
  let ordered := fun (r : Option Bool) => !actual.isNull && !expected.isNull && r.getD false
  if ["equals", "eq", "=="].contains name then actual.pyEq expected
  else if ["not_equals", "ne", "!="].contains name then !actual.pyEq expected
  else if ["greater_than", "gt", ">"].contains name then ordered (expected.pyLt actual)
  else if ["greater_or_equal", "gte", ">="].contains name then ordered (expected.pyLe actual)
  else if ["less_than", "lt", "<"].contains name then ordered (actual.pyLt expected)
  else if ["less_or_equal", "lte", "<="].contains name then ordered (actual.pyLe expected)
  else if name = "contains" then
    match actual, expected with
    | .arr xs, e => xs.any (fun x => x.pyEq e)
    | .str _, .null => false
    | .str s, e => textContains s (e.pyStr T.toPrimitives)
    | _, _ => false
  else if ["in", "is_in"].contains name then
    match expected, actual with
    | .arr xs, a => xs.any (fun x => x.pyEq a)
    | .str _, .null => false
    | .str s, a => textContains s (a.pyStr T.toPrimitives)
    | _, _ => false
  else if ["intersects", "overlaps"].contains name then
    match actual, expected with
    | .arr xs, .arr ys =>
      xs.all Json.hashable && ys.all Json.hashable &&
        xs.any (fun x => ys.any (fun y => x.pyEq y))
    | _, _ => false
  else if name = "starts_with" then
    match actual, expected with
    | .str s, .str t => textStartsWith s t
    | _, _ => false
  else if name = "ends_with" then
    match actual, expected with
    | .str s, .str t => textEndsWith s t
    | _, _ => false
  else false

/-!
## The policy of a node (`app/services/policy_verdict.py`)

`NodePolicy` evaluates a copy of a node's policy document against a received packet. It does not
know the fields that only the node knows, and gives no verdict from the first rule on that hangs
on one of them.
-/

abbrev groupTextType : ℕ := 5
abbrev groupTypes : List ℕ := [5, 6]
abbrev traceType : ℕ := 9

/-- Context fields the node knows and we do not. -/
abbrev unknowableFields : List String := ["mode", "rx_radio_id"]

abbrev actions : List String := ["allow", "drop", "log_only"]

abbrev secretKeys : List String := ["secret", "key", "psk", "channel_secret"]

/-- The header of a received packet and what stands behind it. -/
structure PacketInfo where
  routeType : ℕ
  payloadType : ℕ
  pathLength : ℕ
  path : Bytes
  payload : Bytes
  pathHashSize : ℕ := 1
  transportCodes : Option (ℕ × ℕ) := none

/-- What the channel of a message tells. -/
structure ChannelInfo where
  decryptable : Bool := false
  sender : Option String := none
  messageBody : Option String := none

structure Verdict where
  action : String
  rule : Option String
  deriving DecidableEq

/-- Why an evaluation stops without a result: a rule hangs on a field that only the node knows, or
the name of a field is no hashable value (a `TypeError` that nothing catches). -/
inductive Stop
  | unknowable
  | typeError
  deriving DecidableEq

/-! #### The document -/

/-- `_conditions`: the conditions of a rule, of both branches. -/
def conditions (rule : Json) : List Json :=
  match (rule.get? "if").getD (.obj []) with
  | .obj cond =>
    if (Json.field cond "field").isSome then [.obj cond]
    else ["all", "any"].flatMap (fun key =>
      match Json.field cond key with
      | some (.arr branch) => branch
      | _ => [])
  | _ => []

def isObj : Json → Bool
  | .obj _ => true
  | _ => false

/-- One `policy_engine` document, ready to evaluate. -/
structure NodePolicy where
  enabled : Bool
  defaultAction : String
  rules : List Json
  objects : List (String × Json)
  secrets : List String

/-- The secret of an entry of the channel table. -/
def entrySecret (T : NodeTools) : Json → Option String
  | .str s => some s
  | .obj entry =>
    (secretKeys.findSome? (fun k => (Json.field entry k).filter Json.truthy)).map
      (fun v => v.pyStr T.toPrimitives)
  | _ => none

def channelSecrets (T : NodeTools) (objects : List (String × Json)) (rules : List Json) :
    List String :=
  let items := match (Json.field objects "channels").getD (.obj []) with
    | .obj channels => channels.map Prod.snd
    | .arr channels => channels
    | _ => []
  let groups := match (Json.field objects "channel_hash_groups").getD (.obj []) with
    | .obj groups => groups.flatMap (fun (g : String × Json) => g.2.asList)
    | _ => ([] : List Json)
  let hashes := (rules.filter isObj).flatMap (fun rule =>
    ((conditions rule).filter (fun cond =>
      (cond.get? "field").any (fun f => f.pyEq (.str "channel_hash")))).flatMap
        (fun cond => ((cond.get? "value").getD .null).asList))
  items.filterMap (entrySecret T) ++ groups.filterMap secretLiteral ++ hashes.filterMap secretLiteral

/-- `__init__`. -/
def NodePolicy.new (T : NodeTools) (engine : List (String × Json)) : NodePolicy :=
  let default := ((Json.field engine "default_action").getD (.str "allow")).pyStr T.toPrimitives
  let rules := match Json.field engine "rules" with
    | some (.arr rules) => rules
    | _ => []
  let objects := match Json.field engine "objects" with
    | some (.obj objects) => objects
    | _ => []
  { enabled := ((Json.field engine "enabled").getD (.bool false)).truthy
    defaultAction := if actions.contains default then default else "allow"
    rules := rules
    objects := objects
    secrets := (channelSecrets T objects rules).reverse.dedup.reverse }

/-! #### Channel messages -/

def rstripNul (s : String) : String :=
  String.ofList (s.toList.reverse.dropWhile (· == Char.ofNat 0)).reverse

def rstrip (s : String) : String := String.ofList (lstripChars s.toList.reverse).reverse

/-- `text.partition(": ")`: the parts around the first separator. -/
def partitionSender : List Char → Option (List Char × List Char)
  | ':' :: ' ' :: rest => some ([], rest)
  | c :: rest => (partitionSender rest).map (fun p => (c :: p.1, p.2))
  | [] => none

/-- Sender and text of a decrypted message. -/
def readMessage (T : NodeTools) (plain : Bytes) : ChannelInfo :=
  -- flags 0x02 is signed text: two more bytes before the content
  let start := if plain[4]? = some 0x02 ∧ plain.length ≥ 7 then 7 else 5
  let content := rstripNul (T.decodeReplace (plain.drop start))
  let parts := match partitionSender content.toList with
    | some (sender, body) => (String.ofList sender, String.ofList body)
    | none => ("Unknown", content)
  { decryptable := true
    sender := some (rstrip (rstripNul parts.1))
    messageBody := some (rstrip (rstripNul parts.2)) }

/-- The first of the secrets that reads the message. -/
def readWith (T : NodeTools) (payload : Bytes) : List String → ChannelInfo
  | [] => {}
  | secret :: secrets =>
    let mac := (payload.drop 1).take 2
    let ciphertext := payload.drop 3
    let raw := secretBytes secret
    let key := if raw.length ≥ 32 then raw.take 32 else raw ++ List.replicate (32 - raw.length) 0
    if some (secretHash T secret) ≠ payload.head? then readWith T payload secrets
    else if (T.hmacSha256 key ciphertext).take 2 ≠ mac then readWith T payload secrets
    else if ciphertext.length % 16 ≠ 0 then readWith T payload secrets
    else
      let plain := T.aesEcbDecrypt (key.take 16) ciphertext
      if plain.length < 5 then readWith T payload secrets else readMessage T plain

def NodePolicy.channelInfo (T : NodeTools) (p : NodePolicy) (packet : PacketInfo) : ChannelInfo :=
  if packet.payloadType ≠ groupTextType ∨ packet.payload.length < 4 then {}
  else readWith T packet.payload p.secrets

/-! #### Fields -/

abbrev Context := List (String × Json)

/-- The context of `evaluate`. The node fills in 0 without signal figures, and only frames that
were received are seen here. -/
def context (packet : PacketInfo) (rssi : Option ℤ) (snr : Option ℚ) : Context :=
  [("route_type", .int packet.routeType),
    ("payload_type", .int packet.payloadType),
    ("payload_length", .int packet.payload.length),
    ("path_hash_size", .int packet.pathHashSize),
    ("hop_count", .int packet.pathLength),
    ("rssi", .int (rssi.getD 0)),
    ("snr", .float (snr.getD 0)),
    ("local_transmission", .bool false)]

def hexText (b : Bytes) : Json := .str (String.ofList (toHex b))

/-- The hashes of a path, `none` for a width of zero. -/
def pathHashes (packet : PacketInfo) : Option Json :=
  if packet.payloadType = traceType then some (.arr [])
  else if packet.pathHashSize = 0 then none
  else
    let hops := (packet.path.length + packet.pathHashSize - 1) / packet.pathHashSize
    some (.arr ((List.range hops).map (fun i =>
      hexText ((packet.path.drop (i * packet.pathHashSize)).take packet.pathHashSize))))

def optionText (s : Option String) : Json := s.elim .null Json.str

/-- `_field`, `none` for a `ValueError`. -/
def NodePolicy.field (T : NodeTools) (p : NodePolicy) (packet : PacketInfo) (ctx : Context)
    (field : Json) : Option Json :=
  match field with
  | .str name =>
    match Json.field ctx name with
    | some v => some v
    | none =>
      if name = "payload_hex" then some (hexText packet.payload)
      else if name = "channel_hash" then
        some (if groupTypes.contains packet.payloadType then
          packet.payload.head?.elim .null (fun b => .int b.toNat) else .null)
      else if name = "channel_decryptable" then
        some (.bool (p.channelInfo T packet).decryptable)
      else if name = "channel_message_body" then
        some (optionText (p.channelInfo T packet).messageBody)
      else if name = "channel_sender" then some (optionText (p.channelInfo T packet).sender)
      else if name = "path_hashes" then pathHashes packet
      else if name = "transport_code_0" then
        some (packet.transportCodes.elim .null (fun codes => .int codes.1))
      else if name = "transport_code_1" then
        some (packet.transportCodes.elim .null (fun codes => .int codes.2))
      else some .null
  | _ => some .null

/-- The parts of `@group.key`, nothing for any other text. -/
def reference (s : String) : Option (String × String) :=
  match s.toList with
  | '@' :: rest =>
    match rest.dropWhile (· != '.') with
    | _ :: key => some (String.ofList (rest.takeWhile (· != '.')), String.ofList key)
    | [] => none
  | _ => none

def NodePolicy.resolve (p : NodePolicy) (value : Json) : Json :=
  match value with
  | .str s =>
    match reference s with
    | some (group, key) =>
      match (Json.field p.objects group).getD (.obj []) with
      | .obj members => (Json.field members key).getD .null
      | _ => value
    | none => value
  | _ => value

/-! #### Evaluation -/

def NodePolicy.conditionMatches (T : NodeTools) (p : NodePolicy) (packet : PacketInfo)
    (ctx : Context) (cond : Json) : Bool :=
  match cond with
  | .obj fields =>
    let field := (Json.field fields "field").getD .null
    let expected := p.resolve ((Json.field fields "value").getD .null)
    let op := (Json.field fields "op").getD (.str "equals")
    let judged := do
      let actual ← p.field T packet ctx field
      let actual ← if field.pyEq (.str "path_hashes") then normalisePathHashes T actual
        else if field.pyEq (.str "channel_hash") then normaliseChannelHashes T actual
        else some actual
      let expected ← if field.pyEq (.str "path_hashes") then normalisePathHashes T expected
        else if field.pyEq (.str "channel_hash") then normaliseChannelHashes T expected
        else some expected
      return compare T actual op expected
    judged.getD false
  | _ => false

/-- `isinstance(item, dict) and item.get("field") in _UNKNOWABLE`. -/
def isUnknowable (item : Json) : Except Stop Bool :=
  match item with
  | .obj fields =>
    match (Json.field fields "field").getD .null with
    | .str name => .ok (unknowableFields.contains name)
    | .arr _ => .error .typeError
    | .obj _ => .error .typeError
    | _ => .ok false
  | _ => .ok false

/-- The conditions of a branch in order. One that settles the rule ends the loop, and a field only
the node knows matters when nothing else settles it. -/
def branchMatches (conditionHolds : Json → Bool) (settles : Bool) : Bool → List Json →
    Except Stop Bool
  | unknowable, [] => if unknowable then .error .unknowable else .ok (!settles)
  | unknowable, item :: items =>
    match isUnknowable item with
    | .error stop => .error stop
    | .ok true => branchMatches conditionHolds settles true items
    | .ok false =>
      if conditionHolds item = settles then .ok settles
      else branchMatches conditionHolds settles unknowable items

/-- The conditions of a rule, and whether one that holds settles it. -/
def ruleBranch (rule : Json) : Option (List Json × Bool) :=
  match (rule.get? "if").getD (.obj []) with
  | .obj cond =>
    if (Json.field cond "field").isSome then some ([.obj cond], false)
    else
      match Json.field cond "all", Json.field cond "any" with
      | some (.arr branch), _ => some (branch, false)
      | _, some (.arr branch) => some (branch, true)
      | _, _ => none
  | _ => none

def NodePolicy.ruleMatches (T : NodeTools) (p : NodePolicy) (packet : PacketInfo) (ctx : Context)
    (rule : Json) : Except Stop Bool :=
  match ruleBranch rule with
  | none => .ok false
  | some (branch, settles) =>
    branchMatches (p.conditionMatches T packet ctx) settles false branch

/-- A rule that is an object and not switched off. -/
def isEnabled (rule : Json) : Bool :=
  isObj rule && ((rule.get? "enabled").getD (.bool true)).truthy

/-- `_action`. -/
def ruleAction (T : NodeTools) (rule : Json) : String :=
  let action := match (rule.get? "then").getD (.obj []) with
    | .obj «then» => (Json.field «then» "action").getD .null
    | other => other
  let own := (rule.get? "action").getD .null
  let action := (if action.truthy then action
    else if own.truthy then own else .str "allow").pyStr T.toPrimitives
  if actions.contains action then action else "allow"

/-- The name of a rule, or its id behind a number sign. -/
def ruleName (T : NodeTools) (rule : Json) : String :=
  let name := (rule.get? "name").getD .null
  if name.truthy then name.pyStr T.toPrimitives
  else "#" ++ ((rule.get? "id").getD .null).pyStr T.toPrimitives

/-- The first enabled rule that matches. -/
def NodePolicy.firstMatch (T : NodeTools) (p : NodePolicy) (packet : PacketInfo) (ctx : Context) :
    List Json → Except Stop (Option Verdict)
  | [] => .ok none
  | rule :: rules =>
    if isEnabled rule then
      match p.ruleMatches T packet ctx rule with
      | .error stop => .error stop
      | .ok true => .ok (some ⟨ruleAction T rule, some (ruleName T rule)⟩)
      | .ok false => p.firstMatch T packet ctx rules
    else p.firstMatch T packet ctx rules

/-- The body of `evaluate` behind the switch. -/
def NodePolicy.judge (T : NodeTools) (p : NodePolicy) (packet : PacketInfo) (ctx : Context) :
    Except Stop (Option Verdict) :=
  (p.firstMatch T packet ctx p.rules).map (fun found =>
    match found with
    | some v => some v
    | none => if p.defaultAction = "drop" then some ⟨"drop", none⟩ else none)

/-- `evaluate`: nothing for a policy that is switched off or that cannot be judged from here. -/
def NodePolicy.evaluate (T : NodeTools) (p : NodePolicy) (packet : PacketInfo) (rssi : Option ℤ)
    (snr : Option ℚ) : Except Stop (Option Verdict) :=
  if !p.enabled then .ok none
  else
    match p.judge T packet (context packet rssi snr) with
    | .error .unknowable => .ok none
    | result => result

end RtfmEv.PolicyVerdict
