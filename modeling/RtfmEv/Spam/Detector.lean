import Mathlib.Data.List.Dedup
import Mathlib.Data.List.Sort
import RtfmEv.Lib.OrderedDict
import RtfmEv.Spam.RuleSet

/-!
# Text analysis for Spam Guard (`app/spam/text.py`)

Pieces of a text, and the comparison of normalised texts. What rests on Unicode
tables and regular expressions (normalised form, emoji, mentions, name scores,
shared text and words) is taken as a `TextTools` and never looked into.
-/

namespace RtfmEv.Spam

open RtfmEv.Lib

structure TextTools where
  /-- `str.upper` -/
  upper : String → String
  /-- `str.casefold` -/
  casefold : String → String
  normalise : String → String
  stripMentions : String → String
  stripEmoji : String → String
  ruleLength : String → ℕ
  /-- `name_score`, with extra patterns -/
  nameScore : List String → String → ℕ
  taggedNameScore : String → ℕ
  /-- `is_disguised`, for a name or for a text -/
  isDisguised : Bool → String → Bool
  isUnreadable : String → Bool
  sharedText : List String → ℕ → Option String
  sharedWords : List String → ℕ → Option (List String)

/-- The tools on plain words: no mention, no emoji, nothing disguised and one shared text
when all copies are the same. -/
def plainTools : TextTools where
  upper := upperAscii
  casefold := lowerAscii
  normalise := lowerAscii
  stripMentions := fun text => text
  stripEmoji := fun text => text
  ruleLength := fun text => text.toList.length
  nameScore := fun _ _ => 0
  taggedNameScore := fun _ => 0
  isDisguised := fun _ _ => false
  isUnreadable := fun _ => false
  sharedText := fun texts minimum =>
    match texts with
    | [text] => if minimum ≤ text.toList.length then some text else none
    | _ => none
  sharedWords := fun _ _ => none

/-! ### Pieces -/

/-- The first longest text. -/
def longestOf (texts : List String) : String :=
  texts.foldl (fun best t => if best.toList.length < t.toList.length then t else best) ""

/-- `longest_piece`: the longest line, without the white space around it. -/
def longestPiece (text : String) : String := longestOf ((splitText '\n' text).map strip)

/-- `s.find(" ", i, j)` -/
def findSpace (s : List Char) (i j : ℕ) : Option ℕ :=
  ((List.range (min j s.length)).drop i).find? (fun k => s[k]? = some ' ')

/-- `s.rfind(" ", i, j)` -/
def rfindSpace (s : List Char) (i j : ℕ) : Option ℕ :=
  ((List.range (min j s.length)).drop i).reverse.find? (fun k => s[k]? = some ' ')

/-- The letters of white space from an index on. -/
def spaceRun (s : List Char) (i : ℕ) : ℕ := ((s.drop i).takeWhile isSpaceChar).length

/-- `middle_piece` on characters as they come. -/
def middleChars (s : List Char) (length : ℕ) : List Char :=
  let start := (s.length - length) / 2
  let start := start + spaceRun s start
  let stop := min s.length (start + length)
  let stop := stop + spaceRun s (stop - 1)
  (s.take stop).drop start

/-- `middle_piece` on whole words. -/
def middleWords (s : List Char) (length : ℕ) : List Char :=
  let isSpaceAt := fun (k : ℕ) => (s[k]?).any isSpaceChar
  let start := (s.length - length) / 2
  let start :=
    if 0 < start ∧ isSpaceAt (start - 1) = false then
      (findSpace s start (start + 12)).elim start (fun space => space + 1)
    else start
  let stop := min s.length (start + length)
  let stop :=
    if stop < s.length ∧ isSpaceAt stop = false then
      (rfindSpace s (start + length / 2) stop).getD stop
    else stop
  (s.take stop).drop start

def middlePiece (text : String) (length : ℕ) (wholeWords : Bool := true) : String :=
  let stripped := strip text
  if stripped.toList.length ≤ length then stripped
  else if wholeWords then strip (String.ofList (middleWords stripped.toList length))
  else String.ofList (middleChars stripped.toList length)

/-! ### Similarity -/

/-- `shingles`: every window of four characters, spaces removed. -/
def shingles (norm : String) : List (List Char) :=
  let joined := norm.toList.filter (· ≠ ' ')
  if joined.length ≤ 4 then (if joined = [] then [] else [joined])
  else ((List.range (joined.length - 3)).map (fun i => (joined.drop i).take 4)).dedup

/-- `similar` for a threshold in percent. -/
def similar (a b : List (List Char)) (threshold : ℕ) : Bool :=
  let shared := (a.filter (fun s => b.contains s)).length
  let small := min a.length b.length
  let big := max a.length b.length
  let union := a.length + b.length - shared
  a ≠ [] && b ≠ [] && threshold * big ≤ 200 * small && threshold * small ≤ 100 * shared &&
    60 * threshold * union ≤ 10000 * shared

/-- `hops_related`: the same repeater at another hash width. -/
def hopsRelated (a b : String) : Bool := textStartsWith a b || textStartsWith b a

/-!
## The Spam Guard detector (`app/spam/detector.py`)

The state of the detector: what it has heard, whom it knows and its blocks. A
block describes a text, a set of words, a repeater, an onward route, links or a
lockdown, and `blockMatches` says which messages it catches. Counters, lists for
review and history are left out: nothing here reads them.
-/

/-! #### Settings (`app/spam/settings.py`) -/

inductive HopMatch
  | containsKnown
  | exactPaths
  | contains
  | startsAt
  deriving DecidableEq

inductive HoldLinks
  | campaign
  | always
  | off
  deriving DecidableEq

inductive DedupeScope
  | others
  | same
  | everyone
  deriving DecidableEq

inductive Mode
  | monitor
  | protect
  deriving DecidableEq

abbrev permanentSeconds : ℕ := 10 * 365 * 86400
abbrev minDuplicateChars : ℕ := 5

/-- The tunables in force, with the balanced preset as default. -/
structure SpamTunables where
  enableHopRules : Bool := true
  hopMatchMode : HopMatch := .containsKnown
  hopRandomSenders : ℕ := 3
  hopNewSenders : ℕ := 6
  hopCampaignSenders : ℕ := 3
  hopRandomSendersLong : ℕ := 5
  enableRotationGuard : Bool := true
  autoLockdown : Bool := true
  rotateFirstHops : ℕ := 3
  routeMemoryDays : ℕ := 7
  maxPathsPerHop : ℕ := 50
  maxOriginsPerRoute : ℕ := 60
  enableTextRules : Bool := true
  textDistinctSenders : ℕ := 3
  similarity : ℕ := 65
  minRuleChars : ℕ := 14
  dedupeEnabled : Bool := true
  dedupeScope : DedupeScope := .others
  dedupeSeconds : ℕ := 900
  dedupeMinChars : ℕ := 30
  textRuleChars : ℕ := 40
  repeatGuard : Bool := true
  repeatMax : ℕ := 3
  repeatWindowSeconds : ℕ := 600
  repeatBlockSeconds : ℕ := 3600
  knownMinMsgs : ℕ := 3
  knownDays : ℕ := 30
  holdLinks : HoldLinks := .campaign
  nameScoreThreshold : ℕ := 3
  malformedSignal : Bool := false
  detectUnreadable : Bool := true
  windowSeconds : ℕ := 600
  longWindowSeconds : ℕ := 7200
  blockTtlSeconds : ℕ := 6 * 3600
  hopBlockTtlSeconds : ℕ := 2 * 3600
  spamTextDays : ℕ := 7
  maxTotalRules : ℕ := 300

def isUpperHexDigit (c : Char) : Bool := "0123456789ABCDEF".toList.contains c

/-- A channel key is 32 or 64 upper-case hexadecimal characters. -/
structure ProtectedChannel where
  key : String
  dropBots : Bool := true
  key_length : key.toList.length = 32 ∨ key.toList.length = 64
  key_hex : key.toList.all isUpperHexDigit = true

/-- The stored document, with its tunables in force. -/
structure SpamConfig where
  mode : Mode := .monitor
  paused : Bool := false
  tunables : SpamTunables := {}
  channels : List ProtectedChannel := []
  randomNamePatterns : List String := []
  allowHops : List String := []
  allowSenders : List String := []
  allowTexts : List String := []

/-! #### Messages and blocks -/

abbrev direct : String := "DIRECT"
abbrev lockdownKey : String := "lockdown"
abbrev linksKey : String := "links:new"
abbrev linkMarkers : List String := ["http", "www."]

/-- One channel message as the detector sees it. -/
structure Event where
  id : ℕ
  ts : ℚ
  path : List String
  sender : String
  text : String
  channel : String
  norm : String
  disguised : Bool := false
  random : Bool := false
  exempt : Bool := false
  unreadable : Bool := false
  forgivable : Bool := false
  matched : Option String := none
  released : Bool := false
  campaign : Option ℕ := none
  settled : Bool := false

def Event.firstHop (e : Event) : String := e.path.head?.getD direct

inductive BlockSource
  | manual
  | hop
  | campaign
  | dedupe
  | repeat
  | rotation
  | links
  | lockdown
  | autoLockdown
  deriving DecidableEq

/-- The kind of a block with its value. -/
inductive BlockBody
  | text (s : String)
  | words (ws : List String)
  | hop (h : String)
  | suffix (hops : List String)
  | links (markers : List String)
  | lockdown
  deriving DecidableEq

structure Block where
  key : String
  body : BlockBody
  channel : Option String
  reason : String
  source : BlockSource
  created : ℚ
  expires : ℚ
  /-- the setting a links block was made under -/
  linksMode : Option HoldLinks := none
  lastHit : Option ℚ := none
  observe : Bool := false
  «match» : Option HopMatch := none
  sender : Option String := none
  senderOnly : Bool := false
  paths : List String := []
  ignoredPaths : List String := []
  userAllowed : List String := []
  deriving DecidableEq

namespace BlockBody

def isOpinion : BlockBody → Bool
  | .text _ => true
  | .words _ => true
  | _ => false

def isHop : BlockBody → Bool
  | .hop _ => true
  | _ => false

def isSuffix : BlockBody → Bool
  | .suffix _ => true
  | _ => false

/-- The texts that a message has to contain. -/
def pieces : BlockBody → List String
  | .text s => [s]
  | .words ws => ws
  | _ => []

end BlockBody

/-! #### The state -/

structure SenderHistory where
  first : ℚ
  last : ℚ
  count : ℕ
  hops : List String := []

/-- First seen, last seen and genuine messages of a name. -/
structure KnownEntry where
  first : ℚ
  last : ℚ
  genuine : ℕ

structure RouteRecord where
  first : ℚ
  last : ℚ
  genuine : ℕ
  spam : ℕ

/-- Near-identical messages sent under different names. -/
structure Campaign where
  id : ℕ
  events : List Event
  senders : List String
  suspect : Bool
  strong : Bool
  confirmed : Bool

structure Detector where
  config : SpamConfig
  clock : ℚ
  events : List Event := []
  nextEvent : ℕ := 0
  blocks : OrderedDict String Block := .empty
  suppressed : OrderedDict String ℚ := .empty
  senders : OrderedDict String SenderHistory := .empty
  known : OrderedDict String KnownEntry := .empty
  homes : OrderedDict String (OrderedDict String ℕ) := .empty
  routes : OrderedDict String RouteRecord := .empty
  relays : OrderedDict String ℚ := .empty
  campaigns : List Campaign := []
  allowHops : List String := []
  allowSenders : List String := []
  allowTexts : List String := []

def joinPath (hops : List String) : String := ">".intercalate hops

/-- `route.partition(">")`, without the separator. -/
def partitionRoute (route : String) : String × String :=
  (String.ofList (route.toList.takeWhile (· ≠ '>')),
    String.ofList ((route.toList.dropWhile (· ≠ '>')).drop 1))

namespace Detector

variable (d : Detector)

def tunables : SpamTunables := d.config.tunables

/-- The blocks, oldest entry first. -/
def blockList : List Block := d.blocks.entries.map Prod.snd

def hopAllowed (hop : String) : Bool := d.allowHops.any (fun a => hopsRelated hop a)

def isKnown (name : String) : Bool :=
  d.allowSenders.contains name ||
    match d.known.get? name with
    | some entry => d.tunables.knownMinMsgs ≤ entry.genuine
    | none => false

/-- Text order of names. -/
def textSort (names : List String) : List String :=
  names.insertionSort (fun a b => !textLt b a)

def knownNames : List String :=
  textSort ((d.known.keys.filter d.isKnown ++ d.allowSenders).dedup)

/-! #### What a block catches -/

def hopMode (b : Block) : HopMatch := b.match.getD d.tunables.hopMatchMode

/-- The reasons of text blocks that the user made. -/
abbrev userTextReasons : List String := ["manual", "marked_spam"]

/-- Blocks that let known people through. -/
def gated (b : Block) : Bool :=
  match b.body with
  | .text _ => userTextReasons.contains b.reason
  | .words _ => userTextReasons.contains b.reason
  | .links _ => true
  | .lockdown => true
  | .suffix _ => true
  | .hop _ => d.hopMode b = .containsKnown

/-- A repeater with a genuine history. -/
def knownOrigin (hop : String) : Bool :=
  d.hopAllowed hop || (d.relays.get? hop).isSome ||
    2 ≤ ((d.routes.entries.filter (fun r => r.1 = hop || textStartsWith r.1 (hop ++ ">"))).map
      (fun r => r.2.genuine)).sum

/-- First hops that a rotation block lets through. -/
def allowedOrigins (b : Block) (suffix : List String) : List String :=
  (b.userAllowed ++ (d.routes.entries.filter (fun r =>
    (partitionRoute r.1).2 = joinPath suffix && 0 < r.2.genuine &&
      d.knownOrigin (partitionRoute r.1).1)).map (fun r => (partitionRoute r.1).1)).dedup

/-- The sender test of duplicate suppression. -/
def senderMatches (b : Block) (e : Event) : Bool :=
  match b.sender with
  | none => true
  | some sender => sender = "" || decide (e.sender = sender) == b.senderOnly

def bodyMatches (b : Block) (e : Event) : Bool :=
  match b.body with
  | .lockdown => true
  | .links markers => markers.any (fun marker => textContains e.text marker)
  | .hop h =>
    match d.hopMode b with
    | .exactPaths => b.paths.contains (joinPath e.path)
    | .startsAt => e.path.head? = some h
    | _ => e.path.contains h
  | .suffix suffix =>
    e.path.length = suffix.length + 1 && suffix.all (fun hop => e.path.contains hop) &&
      !(d.allowedOrigins b suffix).contains e.firstHop
  | .words ws => senderMatches b e && ws.all (fun word => textContains e.text word)
  | .text s => senderMatches b e && textContains e.text s

def blockMatches (b : Block) (e : Event) : Bool :=
  b.channel.all (fun c => c = e.channel) && !(d.gated b && d.isKnown e.sender) &&
    d.bodyMatches b e

/-- `_RANK`, and last the blocks that let known people through. -/
def rank (b : Block) : ℕ :=
  if d.gated b then 10
  else
    match b.source with
    | .manual => 0
    | .hop => 1
    | .dedupe => 3
    | .repeat => 3
    | _ => 2

/-- The order in which blocks are evaluated and rendered. -/
def orderedBlocks : List Block :=
  d.blockList.insertionSort (fun a b =>
    d.rank a < d.rank b || (d.rank a = d.rank b && b.created ≤ a.created))

end Detector

end RtfmEv.Spam
