import RtfmEv.Primitives
import RtfmEv.Spam.Detector

/-!
# Rendering blocks as rules (`app/spam/rules.py`)

A block becomes one or more rules around the user's own. A draft is a rule
without its id; ids are given out in the order in which rules are made. A channel
key that is no hexadecimal text makes the host rendering fail.
-/

namespace RtfmEv.Spam

open RtfmEv.Lib RtfmEv.HostRepeater

inductive Dialect
  | host
  | openhop
  deriving DecidableEq

abbrev payloadTypeGrpTxt : ℕ := 5
abbrev openhopNoSender : String := "Unknown"
abbrev botListOrigin : String := "bot list"
abbrev maxHostId : ℕ := 64
abbrev maxName : ℕ := 128
abbrev openhopIdBase : ℕ := 700000000
abbrev openhopIdSpan : ℕ := 100000000

/-- Where a block came from, as the ending of its rule names. -/
def originOf (source : BlockSource) : String :=
  match source with
  | .manual => "yours"
  | .lockdown => "yours"
  | .dedupe => "duplicate"
  | .repeat => "repeat"
  | _ => "auto"

/-- The one byte channel hash, as two hexadecimal characters. -/
def channelHashByte (P : Primitives) (key : String) : Option String :=
  (fromHex key.toList).map (fun secret =>
    let secret :=
      if secret.length = 32 ∧ secret.drop 16 = List.replicate 16 0 then secret.take 16 else secret
    String.ofList ((toHex (P.sha256 secret)).take 2))

def cond (field : RuleField) (op : RuleOp) (value : RuleValue) : RuleTest := ⟨field, op, value⟩

abbrev isGroupText : RuleTest := cond .payloadType .equals (.number payloadTypeGrpTxt)
abbrev notOwnSend : RuleTest := cond .localTransmission .notEquals (.flag true)

/-- An OpenHop node reads this name as a sender where chat does. -/
def sameSenderOnOpenhop (name : String) : Bool :=
  name ≠ openhopNoSender && !name.toList.contains ':' && name.toList.length < 50

/-! ### Drafts -/

/-- A rule before it gets its id. -/
structure Draft where
  key : String
  conditions : List RuleTest
  action : RuleAction := .drop
  origin : Option String := none

namespace Dialect

def prefixText : Dialect → String
  | .host => hostPrefix
  | .openhop => openhopPrefix

/-- Every drop rule for a node spares what its own companions send. -/
def conditions (dialect : Dialect) (draft : Draft) : List RuleTest :=
  if dialect = .openhop ∧ draft.action = .drop then draft.conditions ++ [notOwnSend]
  else draft.conditions

/-- The number of a rule on a node: the next one that is not used. -/
def nodeId (P : Primitives) (used : List RuleId) (name : String) : RuleId :=
  let start := ((P.sha256 (encodeUtf8 name)).take 6).foldl (fun n b => 256 * n + b.toNat) 0
  let ids := (List.range (used.length + 1)).map (fun i =>
    RuleId.number (openhopIdBase + (start + i) % openhopIdSpan))
  (ids.find? (fun id => !used.contains id)).getD (.number openhopIdBase)

def ruleId (P : Primitives) (dialect : Dialect) (used : List RuleId) (name : String) : RuleId :=
  match dialect with
  | .host =>
    if name.toList.length ≤ maxHostId then .text name
    else .text (hostPrefix ++
      String.ofList ((toHex (P.sha256 (encodeUtf8 name))).take 24))
  | .openhop => nodeId P used name

def ending (draft : Draft) : String :=
  match draft.origin with
  | none => ""
  | some origin => if origin = "" then "" else " (" ++ origin ++ ")"

/-- `_Renderer.rule`. -/
def rule (P : Primitives) (dialect : Dialect) (used : List RuleId) (draft : Draft) : SpamRule where
  id := dialect.ruleId P used (dialect.prefixText ++ draft.key)
  name := String.ofList ((dialect.prefixText ++ draft.key).toList.take
    (maxName - (ending draft).toList.length)) ++ ending draft
  conditions := dialect.conditions draft
  action := draft.action

/-- The rules of drafts, in the order in which they were made. -/
def number (P : Primitives) (dialect : Dialect) : List RuleId → List Draft → List SpamRule
  | _, [] => []
  | used, draft :: drafts =>
    let made := dialect.rule P used draft
    made :: number P dialect (made.id :: used) drafts

end Dialect

/-! ### One block -/

section

variable (P : Primitives) (d : Detector) (dialect : Dialect)

/-- `_Renderer.channel`. -/
def channelTest (key : String) : Option RuleTest :=
  match dialect with
  | .host => (channelHashByte P key).map (fun hash => cond .channelHash .equals (.text hash))
  | .openhop => some (cond .channelHash .equals (.text (lowerAscii key)))

/-- The test of a block for one channel. -/
def scopeTests (channel : Option String) : Option (List RuleTest) :=
  match channel with
  | none => some [isGroupText]
  | some key =>
    if key = "" then some [isGroupText]
    else (channelTest P dialect key).map (fun test => [isGroupText, test])

/-- Names inline on the host, as an object on a node. -/
def namesValue (names : List String) (object : String) : RuleValue :=
  match dialect with
  | .host => .texts names
  | .openhop => .text ("@" ++ openhopObjectGroup ++ "." ++ object)

def bodyContains (piece : String) : RuleTest := cond .channelMessageBody .contains (.text piece)

def pathContains (hop : String) : RuleTest := cond .pathHashes .contains (.text hop)

/-- A rule that enforces a block. -/
def blockDraft (b : Block) (key : String) (conditions : List RuleTest)
    (action : RuleAction) : Draft :=
  ⟨key, conditions, action, some (originOf b.source)⟩

/-- The bot list rule of a channel. -/
def botsDraft (key : String) (names : List String) : Option Draft :=
  (channelTest P dialect key).map (fun channel =>
    { key := "bots:" ++ key
      conditions := [isGroupText, channel,
        cond .channelSender .isIn (namesValue dialect names openhopBotSenders)]
      origin := some botListOrigin })

/-- The hops of a learnt route. -/
def splitRoute (route : String) : List String := (route.splitOn ">")

/-- `_Renderer._hop`. -/
def hopDrafts (b : Block) (h : String) (scope : List RuleTest) : List Draft :=
  match d.hopMode b with
  | .exactPaths =>
    b.paths.map (fun path => blockDraft b (b.key ++ ":" ++ path)
      (scope ++ [cond .pathHashes .equals (.texts (splitRoute path))]) .drop)
  | .startsAt =>
    match dialect with
    | .host => [blockDraft b b.key
        (scope ++ [cond .pathFirst .equals (.text (lowerAscii h))]) .drop]
    | .openhop => []
  | _ => [blockDraft b b.key (scope ++ [pathContains h]) .drop]

/-- The sender test of duplicate suppression. -/
def senderTests (b : Block) : List RuleTest :=
  match b.sender with
  | none => []
  | some sender =>
    if sender = "" then []
    else [cond .channelSender (if b.senderOnly then .equals else .notEquals) (.text sender)]

/-- `_Renderer.plain`: the rules of a block that does not let known people
through. -/
def plain (b : Block) : Option (List Draft) :=
  (scopeTests P dialect b.channel).map (fun scope =>
    match b.body with
    | .hop h => hopDrafts d dialect b h scope
    | body => [blockDraft b b.key
        (scope ++ body.pieces.map bodyContains ++ senderTests b) .drop])

/-- The drop rule of a rotation block. -/
def suffixDrop (b : Block) (suffix : List String) : Draft :=
  blockDraft b b.key
    ([isGroupText, cond .hopCount .equals (.number (suffix.length + 1))] ++
      suffix.map pathContains) .drop

/-- The first hops that get an allow rule. -/
def renderedOrigins (b : Block) (suffix : List String) : List String :=
  (Detector.textSort (d.allowedOrigins b suffix)).take d.tunables.maxOriginsPerRoute

/-- `_Renderer.suffix`. -/
def suffixDrafts (b : Block) (suffix : List String) : List Draft :=
  (renderedOrigins d b suffix).map (fun origin =>
    blockDraft b (b.key ++ ":allow:" ++ origin)
      [isGroupText, cond .pathHashes .equals (.texts (origin :: suffix))] .allow) ++
    [suffixDrop b suffix]

/-- The variants of a gated block: a key ending with its tests. -/
def gatedVariants (body : BlockBody) : List (String × List RuleTest) :=
  match body with
  | .links markers => markers.map (fun marker => (":" ++ marker, [bodyContains marker]))
  | .hop h => [("", [pathContains h])]
  | .text s => [("", [bodyContains s])]
  | .words ws => [("", ws.map bodyContains)]
  | _ => [("", [])]

/-- The rules of a gated block on one channel. -/
def gatedOn (b : Block) (key : String) : Option (List Draft) :=
  if b.channel.all (fun c => c = key) then
    (channelTest P dialect key).map (fun channel =>
      (gatedVariants b.body).map (fun variant =>
        blockDraft b (b.key ++ ":" ++ key ++ variant.1)
          ([isGroupText, channel] ++ variant.2) .drop))
  else some []

/-- The rules of a gated block, channel by channel. -/
def gatedBlock (b : Block) (channelKeys : List String) : Option (List Draft) :=
  (channelKeys.mapM (gatedOn P dialect b)).map List.flatten

/-- The known-people rule of a channel. -/
def knownPeople (names : List String) (key : String) : Option Draft :=
  (channelTest P dialect key).map (fun channel =>
    { key := "known-people:" ++ key
      conditions := [isGroupText, channel,
        cond .channelSender .isIn (namesValue dialect names openhopKnownSenders)]
      action := .allow })

/-! ### The rule set -/

/-- The channels that a block needs the known-people rule of. -/
def neededChannels (channelKeys : List String) (b : Block) : List String :=
  channelKeys.filter (fun key => b.channel.all (fun c => c = key))

/-- The rules that a gated block makes. -/
def gatedCost (channelKeys : List String) (b : Block) : Option ℕ :=
  match b.body with
  | .suffix suffix => some (suffixDrafts d b suffix).length
  | _ => (gatedBlock P dialect b channelKeys).map List.length

/-- The loop of `_fit_gated`: newest blocks first, until one does not fit. -/
def fitLoop (channelKeys : List String) : List Block → ℕ → List String → Option (List Block)
  | [], _, _ => some []
  | b :: rest, budget, known => do
    let cost ← gatedCost P d dialect channelKeys b
    let needs := ((neededChannels channelKeys b).filter (fun key => !known.contains key)).dedup
    if cost + needs.length > budget then some []
    else
      (fitLoop channelKeys rest (budget - (cost + needs.length)) (known ++ needs)).map
        (fun kept => b :: kept)

/-- `_fit_gated`: the gated blocks whose rules fit, oldest first. -/
def fitGated (blocks : List Block) (channelKeys : List String) (budget : ℕ) :
    Option (List Block) :=
  (fitLoop P d dialect channelKeys
    (blocks.insertionSort (fun a b => b.created ≤ a.created)) budget []).map
    (fun kept => kept.insertionSort (fun a b => a.created ≤ b.created))

/-- The bot list rules, as many as there may be. -/
def botsLoop (names : List String) (limit : ℕ) :
    List String → List Draft → Option (List Draft × Bool)
  | [], before => some (before, false)
  | key :: rest, before =>
    if before.length ≥ limit then some (before, true)
    else
      match botsDraft P dialect key names with
      | none => none
      | some draft => botsLoop names limit rest (before ++ [draft])

/-- The rules of the other blocks, with the drafts of the one that did not fit. -/
def plainLoop (limit : ℕ) :
    List Block → List Draft → Option (List Draft × List Draft × Bool)
  | [], before => some (before, [], false)
  | b :: rest, before =>
    if d.gated b then plainLoop limit rest before
    else
      match plain P d dialect b with
      | none => none
      | some drafts =>
        if before.length + drafts.length > limit then some (before, drafts, true)
        else plainLoop limit rest (before ++ drafts)

/-- The channels that may appear in a rule. -/
def renderedChannels (channels : Option (List String)) : List String :=
  Detector.textSort ((d.config.channels.map ProtectedChannel.key).filter
    (fun key => channels.all (fun cs => cs.contains key)))

/-- The blocks that may appear in a rule. -/
def activeBlocks (channels : Option (List String)) : List Block :=
  d.orderedBlocks.filter (fun b => !b.observe &&
    (channels.all (fun cs => b.channel.all (fun c => cs.contains c))))

/-- The names of a bot list that are rendered. -/
def botNames (botSenders : List String) : List String :=
  let names := Detector.textSort ((botSenders.filter (· ≠ "")).dedup)
  match dialect with
  | .host => names
  | .openhop => names.filter sameSenderOnOpenhop

/-- The channels with a bot list rule. -/
def botChannels (channelKeys : List String) : List String :=
  channelKeys.filter (fun key => d.config.channels.any (fun c => c.key = key && c.dropBots))

/-- The drafts of a rule set: before the user's rules, not rendered, and after. -/
structure Drafts where
  before : List Draft := []
  discarded : List Draft := []
  after : List Draft := []
  knownSenders : List String := []
  botSenders : List String := []
  truncated : Bool := false

/-- The channels with a known-people rule. -/
def knownChannels (channelKeys : List String) (gated : List Block) : List String :=
  channelKeys.filter (fun key => gated.any (fun b => b.channel.all (fun c => c = key)))

/-- `_Renderer.gated` for the blocks that hold no rotation, if any channel needs it. -/
def gatedBlocks (channelKeys : List String) (gated : List Block) : Option (List (List Draft)) :=
  if knownChannels channelKeys gated = [] then some []
  else (gated.filter (fun b => !b.body.isSuffix)).mapM
    (fun b => gatedBlock P dialect b channelKeys)

/-- The rules of gated blocks: known people, the blocks, and rotation last. -/
def gatedDrafts (channelKeys : List String) (gated : List Block) :
    Option (List Draft) := do
  let people ← (knownChannels channelKeys gated).mapM (knownPeople P dialect d.knownNames)
  let blocks ← gatedBlocks P dialect channelKeys gated
  pure (people ++ blocks.flatten ++ gated.flatMap (fun b =>
    match b.body with
    | .suffix suffix => suffixDrafts d b suffix
    | _ => []))

/-- The bot list rules, if there are names to list. -/
def botsBefore (names : List String) (limit : ℕ) (keys : List String) :
    Option (List Draft × Bool) :=
  if names = [] then some ([], false) else botsLoop P dialect names limit keys []

/-- The drafts of `render` in Protect mode. -/
def renderDrafts (channels : Option (List String)) (botSenders : List String) :
    Option Drafts := do
  let limit := d.tunables.maxTotalRules
  let channelKeys := renderedChannels d channels
  let active := activeBlocks d channels
  let names := botNames dialect botSenders
  let bots ← botsBefore P dialect names limit (botChannels d channelKeys)
  let plains ← plainLoop P d dialect limit active bots.1
  let wanted := active.filter d.gated
  let gated ← fitGated P d dialect wanted channelKeys (limit - plains.1.length)
  let after ← gatedDrafts P d dialect channelKeys gated
  pure
    { before := plains.1
      discarded := plains.2.1
      after := after
      knownSenders := if knownChannels channelKeys gated = [] then [] else d.knownNames
      botSenders := if bots.1 = [] then [] else names
      truncated := bots.2 || plains.2.2 || gated.length < wanted.length }

/-- Give the drafts their ids. -/
def Drafts.ruleSet (drafts : Drafts) : RuleSet :=
  let rules := dialect.number P [] (drafts.before ++ drafts.discarded ++ drafts.after)
  { before := rules.take drafts.before.length
    after := rules.drop (drafts.before.length + drafts.discarded.length)
    knownSenders := drafts.knownSenders
    botSenders := drafts.botSenders
    truncated := drafts.truncated }

/-- `render`. Nothing is rendered in Monitor mode or while paused. -/
def render (preview : Bool) (channels : Option (List String)) (botSenders : List String) :
    Option RuleSet :=
  if !preview && (d.config.paused || d.config.mode ≠ .protect) then some {}
  else (renderDrafts P d dialect channels botSenders).map (Drafts.ruleSet P dialect)

end

end RtfmEv.Spam
