import RtfmEv.Primitives
import RtfmEv.Spam.Detector

/-!
# Adding, renewing and removing blocks (`SpamDetector._add_block` and around it)

A block is created once and then renewed under its key. Blocks on texts, and
repeater blocks that also stop known people, are capped at a week. The clock of
the detector is its reading for one call.
-/

namespace RtfmEv.Spam

open RtfmEv.Lib

abbrev suppressSeconds : ℕ := 86400
abbrev maxPeopleBlockSeconds : ℕ := 7 * 86400

/-! ### Keys -/

/-- `_digest`: ten hexadecimal characters of the hash. -/
def digest (P : Primitives) (text : String) : String :=
  String.ofList ((toHex (P.sha256 (encodeUtf8 text))).take 10)

def textKey (P : Primitives) (snippet : String) : String := "text:" ++ digest P snippet

def wordsKey (P : Primitives) (words : List String) : String :=
  "words:" ++ digest P ("|".intercalate words)

/-- What a block is created or renewed with. -/
structure BlockOrder where
  key : String
  body : BlockBody
  reason : String
  source : BlockSource
  linksMode : Option HoldLinks := none
  channel : Option String := none
  ttl : Option ℚ := none
  fromTs : Option ℚ := none
  sender : Option String := none
  senderOnly : Bool := false
  «match» : Option HopMatch := none

namespace Detector

variable (d : Detector)

def weekAtMost (b : Block) : Bool :=
  match b.body with
  | .text _ => true
  | .words _ => true
  | .hop _ => !d.gated b
  | _ => false

def cap (b : Block) : Block :=
  if d.weekAtMost b then { b with expires := min b.expires (d.clock + maxPeopleBlockSeconds) }
  else b

def setBlock (key : String) (b : Block) : Detector := { d with blocks := d.blocks.set key b }

def dropBlock (key : String) : Detector := { d with blocks := d.blocks.erase key }

/-- When a block that is created or renewed now ends. -/
def orderExpires (o : BlockOrder) : ℚ :=
  o.fromTs.getD d.clock + o.ttl.getD d.tunables.blockTtlSeconds

/-- The block of an order. -/
def newBlock (o : BlockOrder) : Block :=
  d.cap
    { key := o.key
      body := o.body
      channel := o.channel
      reason := o.reason
      source := o.source
      created := d.clock
      expires := d.orderExpires o
      linksMode := o.linksMode
      sender := o.sender
      senderOnly := o.senderOnly
      «match» := o.match }

/-- A block after it was renewed. A duplicate that turns out to be a campaign has no
original sender. -/
def renewedBlock (o : BlockOrder) (b : Block) : Block :=
  let b := d.cap { b with expires := d.orderExpires o }
  let b := if b.source = .manual then b else { b with reason := o.reason, linksMode := o.linksMode }
  if o.source = .campaign ∧ b.source = .dedupe then
    { b with source := .campaign, sender := none, senderOnly := false }
  else b

def addBlock (o : BlockOrder) : Detector :=
  if d.orderExpires o ≤ d.clock then d
  else
    match d.blocks.get? o.key with
    | none => d.setBlock o.key (d.newBlock o)
    | some b => if b.expires ≤ d.orderExpires o then d.setBlock o.key (d.renewedBlock o b) else d

/-- `_want`: not while the user keeps the key off. -/
def want (o : BlockOrder) : Detector :=
  if d.clock < (d.suppressed.get? o.key).getD 0 then d else d.addBlock o

/-- Several orders, one after the other. -/
def wantAll (orders : List BlockOrder) : Detector := orders.foldl want d

/-- `_release`: forgive the copies that a removed duplicate block was made from. -/
def release (b : Block) : Detector :=
  { d with
    events := d.events.map (fun e =>
      if b.channel = some e.channel ∧ (b.senderOnly = true → b.sender = some e.sender) ∧
          b.body.pieces.all (fun piece => textContains e.text piece) then
        { e with released := true }
      else e) }

end Detector

/-!
## What the detector learns (`SpamDetector.ingest`, `_settle`, `_forget_old`)

Each message is matched with the blocks when it comes in. Once it is old enough
for a campaign to have shown, its sender, its route and the repeaters on it are
learnt from. Blocks are only touched to note their last hit.
-/

abbrev settleSeconds : ℕ := 120
abbrev senderHistorySeconds : ℕ := 86400
abbrev maxSenderHistory : ℕ := 5000
abbrev maxKnown : ℕ := 5000
abbrev maxRoutes : ℕ := 5000
abbrev maxHomesPerName : ℕ := 4
abbrev homeMessages : ℕ := 3
abbrev establishedSeconds : ℕ := 3600
abbrev establishedMessages : ℕ := 5

/-- The first entry with the least value. -/
def leastBy {α β : Type} (less : β → β → Bool) (value : α → β) : List α → Option α
  | [] => none
  | a :: rest => some (rest.foldl (fun best x => if less (value x) (value best) then x else best) a)

/-- The `n` entries with the largest values, in falling order. -/
def newest {α β : Type} (last : β → ℚ) (n : ℕ) (entries : List (α × β)) : List (α × β) :=
  (entries.insertionSort (fun a b => last b.2 ≤ last a.2)).take n

/-- `dict(entries)`. -/
def dictOf {β : Type} (entries : List (String × β)) : OrderedDict String β :=
  entries.foldl (fun dict entry => dict.set entry.1 entry.2) .empty

namespace Detector

variable (d : Detector)

/-! #### People -/

/-- Known, or chatting under this name for over an hour with a few messages. -/
def established (name : String) : Bool :=
  d.isKnown name || (d.senders.get? name).any (fun history =>
    establishedMessages ≤ history.count && history.first ≤ d.clock - establishedSeconds)

def familiar (name : String) : Bool := d.allowSenders.contains name || d.established name

/-- Heard from one of the first hops this name is usually heard from. -/
def atHome (e : Event) : Bool :=
  homeMessages ≤ (((d.homes.get? e.sender).bind (fun homes => homes.get? e.firstHop)).getD 0)

/-- One more message from a usual first hop. -/
def countHome (homes : OrderedDict String ℕ) (hop : String) : OrderedDict String ℕ :=
  let homes := homes.set hop ((homes.get? hop).getD 0 + 1)
  if homes.size > maxHomesPerName then
    match leastBy (fun a b : ℕ × Bool => a.1 < b.1 || (a.1 = b.1 && !a.2 && b.2))
        (fun entry : String × ℕ => (entry.2, decide (entry.1 = hop))) homes.entries with
    | none => homes
    | some entry => homes.erase entry.1
  else homes

def recordHome (e : Event) : Detector :=
  if e.matched.isSome || e.random || e.sender = "" || e.sender = "?" then d
  else
    { d with
      homes := d.homes.set e.sender (countHome ((d.homes.get? e.sender).getD .empty) e.firstHop) }

/-- The block that caught a message. -/
def matchedBlock (e : Event) : Option Block :=
  match e.matched with
  | none => none
  | some key => if key = "" then none else d.blocks.get? key

/-- The running campaign of a message. -/
def campaignOf (e : Event) : Option Campaign :=
  e.campaign.bind (fun id => d.campaigns.find? (fun c => c.id = id))

/-- Held only because the route passes through a blocked repeater. -/
def passingThrough (e : Event) : Bool :=
  (d.matchedBlock e).any (fun b =>
    match b.body with
    | .hop h => d.gated b && e.path ≠ [] && e.path.head? ≠ some h
    | _ => false)

def spammy (e : Event) : Bool :=
  e.random || (e.matched.isSome && !d.passingThrough e) || (d.campaignOf e).any Campaign.suspect

/-- A regular that a block caught at home. -/
def stillARegular (e : Event) : Bool :=
  e.forgivable && !(e.random || e.disguised || e.unreadable) && d.established e.sender &&
    d.atHome e

/-- The message started at a blocked repeater. -/
def startsAtBlocked (e : Event) : Bool :=
  d.blockList.any (fun b =>
    match b.body with
    | .hop h => e.path.head? = some h
    | _ => false)

def learnSender (e : Event) : Detector :=
  if e.sender = "" || e.sender = "?" then d
  else if !d.stillARegular e && (d.spammy e || d.startsAtBlocked e) then d
  else
    let entry := match d.known.get? e.sender with
      | none => ⟨e.ts, e.ts, 1⟩
      | some entry => { entry with last := max entry.last e.ts, genuine := entry.genuine + 1 }
    { d with known := d.known.set e.sender entry }

def forgetOld (now : ℚ) : Detector :=
  let horizon := now - d.tunables.knownDays * 86400
  let known := d.known.eraseIf (fun entry => entry.2.last < horizon)
  let known := if known.size > maxKnown then dictOf (newest KnownEntry.last maxKnown known.entries)
    else known
  let routeHorizon := now - d.tunables.routeMemoryDays * 86400
  let full := d.routes.size > maxRoutes ||
    d.routes.entries.any (fun entry => entry.2.last < routeHorizon)
  let fresh := d.routes.eraseIf (fun entry => entry.2.last < routeHorizon)
  let routes := if full then dictOf (newest RouteRecord.last maxRoutes fresh.entries) else d.routes
  let relays := if full then d.relays.eraseIf (fun entry => entry.2 < routeHorizon) else d.relays
  let senders := d.senders.eraseIf (fun entry => entry.2.last < now - senderHistorySeconds)
  let homes := d.homes.eraseIf (fun entry =>
    (known.get? entry.1).isNone && (senders.get? entry.1).isNone)
  { d with known := known, routes := routes, relays := relays, senders := senders, homes := homes }

/-! #### Messages -/

/-- Change one message. -/
def updateEvent (id : ℕ) (f : Event → Event) : Detector :=
  { d with events := d.events.map (fun e => if e.id = id then f e else e) }

/-- The first block in order that catches a message. -/
def catching (e : Event) : Option Block :=
  d.orderedBlocks.find? (fun b => !(e.ts < b.created - 1) && d.blockMatches b e)

/-- Caught by a block that can wrongly catch a regular. -/
def forgivableCatch (b : Block) : Bool :=
  match b.source with
  | .rotation => true
  | .campaign => true
  | .lockdown => true
  | .autoLockdown => true
  | _ => b.body.isHop && d.gated b

/-- A message with what caught it. -/
def caughtEvent (b : Block) (e : Event) : Event :=
  { e with matched := some b.key, forgivable := d.forgivableCatch b }

/-- Note the last hit of a block, under whatever key it is held. -/
def hitBlock (b : Block) (ts : ℚ) : Detector :=
  match d.blocks.entries.find? (fun entry => entry.2 = b) with
  | none => d
  | some entry => d.setBlock entry.1 { entry.2 with lastHit := some ts }

/-- `_match` for a message that is in the window. -/
def matchEvent (e : Event) : Detector :=
  match d.catching e with
  | none => d
  | some b => (d.updateEvent e.id (d.caughtEvent b)).hitBlock b e.ts

/-- One channel message as it comes in. -/
structure Message where
  ts : ℚ
  path : List String
  sender : String
  text : String
  channel : String
  nameScore : Option ℕ := none
  nameDisguised : Option Bool := none
  malformed : Bool := false

/-- The event of a message, before it is matched. -/
def eventOf (T : TextTools) (m : Message) : Event :=
  let sender := if m.sender = "" then "?" else m.sender
  let trusted := d.allowSenders.contains sender
  let familiar := d.familiar sender
  let score := m.nameScore.getD
    (let score := T.nameScore d.config.randomNamePatterns sender
     if familiar then score else max score (T.taggedNameScore sender))
  let disguised := T.isDisguised false (T.stripMentions m.text) ||
    m.nameDisguised.getD (T.isDisguised true sender)
  let unreadable := d.tunables.detectUnreadable && !familiar &&
    T.isUnreadable (T.stripMentions m.text)
  { id := d.nextEvent
    ts := m.ts
    path := m.path.map T.upper
    sender := sender
    text := m.text
    channel := T.upper m.channel
    norm := T.normalise m.text
    disguised := disguised
    random := !trusted && (d.tunables.nameScoreThreshold ≤ score || disguised || unreadable ||
      (m.malformed && d.tunables.malformedSignal))
    exempt := d.allowTexts.any (fun allowed =>
      textContains (T.casefold m.text) (T.casefold allowed))
    unreadable := unreadable }

/-- One more message in the history of its sender. -/
def countSender (e : Event) : OrderedDict String SenderHistory :=
  let history := (d.senders.get? e.sender).getD { first := e.ts, last := e.ts, count := 0 }
  let senders := d.senders.set e.sender
    { history with
      count := history.count + 1
      last := max history.last e.ts
      hops := (e.firstHop :: history.hops).dedup }
  if senders.size > maxSenderHistory then
    match leastBy (fun a b : ℚ => a < b) (fun entry : String × SenderHistory => entry.2.last)
        senders.entries with
    | none => senders
    | some entry => senders.erase entry.1
  else senders

/-- Messages that left the window are dropped from the front. -/
def trimEvents : Detector :=
  let longest := max d.tunables.longWindowSeconds
    (max d.tunables.dedupeSeconds d.tunables.windowSeconds)
  { d with events := d.events.dropWhile (fun e => e.ts < d.clock - longest - 60) }

def ingest (T : TextTools) (m : Message) : Detector :=
  let e := d.eventOf T m
  let d := { d with
    senders := d.countSender e
    events := d.events ++ [e]
    nextEvent := d.nextEvent + 1 }
  (d.matchEvent e).trimEvents

/-! #### Settling -/

/-- What a settled message says about its route and the repeaters on it. -/
def learnRoute (e : Event) : Detector :=
  if e.path = [] then d
  else
    let relays := (e.path.drop 1).foldl
      (fun relays hop => relays.set hop (max ((relays.get? hop).getD 0) e.ts)) d.relays
    let spam := e.random || e.campaign.isSome ||
      (d.matchedBlock e).any (fun b => b.source ≠ .dedupe)
    let record := (d.routes.get? (joinPath e.path)).getD ⟨e.ts, e.ts, 0, 0⟩
    let record := { record with last := max record.last e.ts }
    let record := if spam then { record with spam := record.spam + 1 }
      else { record with genuine := record.genuine + 1 }
    { d with relays := relays, routes := d.routes.set (joinPath e.path) record }

/-- One message that is old enough. -/
def settleOne (now : ℚ) (e : Event) : Detector :=
  if e.settled || now - e.ts < settleSeconds then d
  else (((d.updateEvent e.id (fun e => { e with settled := true })).recordHome e).learnSender
    e).learnRoute e

def settle (events : List Event) (now : ℚ) : Detector :=
  events.foldl (fun d e => d.settleOne now e) d

end Detector

/-!
## Campaigns (`SpamDetector._find_campaigns`, `_block_campaigns`, `_correct_campaigns`)

Near-identical messages under different names are a campaign. What its copies
share is blocked on the channel of its newest copy. The order in which a campaign
asks for blocks is a list of orders, which does not depend on the blocks there
are.
-/

abbrev maxCampaignEvents : ℕ := 400
abbrev minCampaignChars : ℕ := 8
abbrev maxVariantBlocks : ℕ := 5
abbrev campaignRegulars : ℕ := 3

/-- Group by a key, in the order in which the keys come up. -/
def groupBy {α κ : Type} [DecidableEq κ] (key : α → κ) (xs : List α) : List (κ × List α) :=
  (((xs.map key).reverse.dedup).reverse).map (fun k => (k, xs.filter (fun x => key x = k)))

/-- Put a text into the components of those before it: each text with the first one
of its component. -/
def joinComponent (linked : String → String → Bool) (roots : List (String × String))
    (x : String) : List (String × String) :=
  let touched := (roots.filter (fun r => linked x r.1)).map Prod.snd
  match (roots.map Prod.snd).find? (fun root => touched.contains root) with
  | none => roots ++ [(x, x)]
  | some first =>
    roots.map (fun r => if touched.contains r.2 then (r.1, first) else r) ++ [(x, first)]

/-- Each text with the first one of its component. -/
def components (linked : String → String → Bool) (texts : List String) :
    List (String × String) :=
  texts.foldl (joinComponent linked) []

namespace Detector

variable (d : Detector)

/-! #### Finding them -/

def suspect (e : Event) : Bool :=
  !d.allowSenders.contains e.sender &&
    (e.random || (!d.established e.sender &&
      (d.senders.get? e.sender).all (fun history => history.count ≤ 2)))

/-- A group of messages, judged. -/
def judgeCluster (id : ℕ) (events : List Event) : Campaign :=
  let senders := (events.map Event.sender).dedup
  let suspects := ((events.filter d.suspect).map Event.sender).dedup
  let randoms := ((events.filter Event.random).map Event.sender).dedup
  { id := id
    events := events.insertionSort (fun a b => a.ts ≤ b.ts)
    senders := senders
    suspect := 2 ≤ suspects.length
    strong := 2 ≤ randoms.length
    confirmed := 2 ≤ suspects.length && d.tunables.textDistinctSenders ≤ senders.length }

/-- `_find_campaigns`: at least two senders of near-identical messages. -/
def findCampaigns (events : List Event) : List Campaign :=
  let recent := events.drop (events.length - maxCampaignEvents)
  let groups := groupBy Event.norm (recent.filter (fun e =>
    !e.exempt && minCampaignChars ≤ e.norm.toList.length))
  let roots := components (fun a b => similar (shingles a) (shingles b) d.tunables.similarity)
    (groups.map Prod.fst)
  let clusters := groups.zipIdx.filterMap (fun (group, i) =>
    if roots.lookup group.1 = some group.1 then
      some (d.judgeCluster i ((groups.filter (fun other =>
        roots.lookup other.1 = some group.1)).flatMap Prod.snd))
    else none)
  clusters.filter (fun c => 2 ≤ c.senders.length)

/-- Look for campaigns, and note them on their messages. -/
def withCampaigns (now : ℚ) : Detector :=
  let inWindow := fun (e : Event) => decide (now - d.tunables.longWindowSeconds ≤ e.ts)
  let campaigns := d.findCampaigns (d.events.filter inWindow)
  let campaignOf := fun (e : Event) =>
    (campaigns.find? (fun c => c.events.any (fun member => member.id = e.id))).map Campaign.id
  { d with
    campaigns := campaigns
    events := d.events.map (fun e =>
      if inWindow e then { e with campaign := campaignOf e } else e) }

/-! #### What copies share -/

def onePiece (T : TextTools) (common : Option String) (originals : List String)
    (minimum : ℕ) : Option String :=
  match common with
  | none => none
  | some common =>
    let piece := longestPiece common
    if common ≠ "" && minimum ≤ T.ruleLength piece &&
        originals.all (fun text => textContains text piece) then some piece
    else none

/-- `_shared`: the text and the words worth a rule, neither of them empty. -/
def shared (T : TextTools) (originals : List String) : Option String × Option (List String) :=
  let minimum := d.tunables.minRuleChars
  let stripped := originals.map T.stripMentions
  let common := (onePiece T (T.sharedText stripped minimum) originals minimum).filter (· ≠ "")
  let words := (T.sharedWords stripped minimum).filter (· ≠ [])
  let covered := common.any (fun text =>
    6 * (T.stripEmoji (stripped.getLast?.getD "")).toList.length ≤ 10 * text.toList.length)
  (common, if covered then none else words)

/-! #### Blocking them -/

/-- Distinct texts, in the order in which they came. -/
def distinctTexts (events : List Event) : List String :=
  ((events.map Event.text).reverse.dedup).reverse

/-- The channel and the time of the newest copy. -/
def newestCopy (c : Campaign) : Option Event := c.events.getLast?

/-- How long the text of a campaign is remembered, where not as long as any block. -/
def campaignTtl (c : Campaign) : Option ℚ :=
  if c.strong && d.tunables.spamTextDays ≠ 0 then
    some (max (d.tunables.spamTextDays * 86400) d.tunables.blockTtlSeconds)
  else none

/-- What is blocked of a variant. -/
def variantPiece (T : TextTools) (original : String) : String :=
  middlePiece (longestPiece (T.stripMentions original)) d.tunables.textRuleChars

/-- The blocks that a confirmed campaign asks for, in order. -/
def campaignOrders (P : Primitives) (T : TextTools) (c : Campaign) : List BlockOrder :=
  match newestCopy c with
  | none => []
  | some last =>
    let originals := distinctTexts c.events
    let (common, words) := d.shared T originals
    let order := fun (key : String) (body : BlockBody) (reason : String) (ttl : Option ℚ) =>
      ({ key := key, body := body, reason := reason, source := .campaign,
         channel := some last.channel, ttl := ttl, fromTs := some last.ts } : BlockOrder)
    common.toList.map (fun s =>
        order (textKey P s) (.text s) "campaign" (d.campaignTtl c)) ++
      words.toList.map (fun ws =>
        order (wordsKey P ws) (.words ws) "campaign_changed" (d.campaignTtl c)) ++
      if common.isNone && words.isNone && c.strong then
        (((originals.drop (originals.length - maxVariantBlocks)).map (d.variantPiece T)).filter
          (fun piece => d.tunables.minRuleChars ≤ T.ruleLength piece)).map (fun piece =>
            order (textKey P piece) (.text piece) "campaign_variant" none)
      else []

/-- Everything that the confirmed campaigns ask for, in order. -/
def allCampaignOrders (P : Primitives) (T : TextTools) : List BlockOrder :=
  (d.campaigns.filter Campaign.confirmed).flatMap (d.campaignOrders P T)

def blockCampaigns (P : Primitives) (T : TextTools) : Detector :=
  d.wantAll (d.allCampaignOrders P T)

/-! #### Correcting them -/

/-- The regulars that a block caught at home. -/
def regularsCaught (longWindow : List Event) (key : String) : List String :=
  ((longWindow.filter (fun e =>
    e.matched = some key && d.isKnown e.sender && d.atHome e)).map Event.sender).dedup

/-- A campaign block that keeps catching regulars. -/
def wronglyBlocks (longWindow : List Event) (key : String) (b : Block) : Bool :=
  b.source = .campaign && b.body.isOpinion &&
    campaignRegulars ≤ (d.regularsCaught longWindow key).length

/-- Hold a key off. -/
def suppress (key : String) (until_ : ℚ) : Detector :=
  { d with suppressed := d.suppressed.set key until_ }

/-- `_correct_campaigns`: stop such blocks and hold their keys off for a day. -/
def correctCampaigns (longWindow : List Event) (now : ℚ) : Detector :=
  d.blocks.entries.foldl (fun acc entry =>
    if d.wronglyBlocks longWindow entry.1 entry.2 then
      (acc.dropBlock entry.1).suppress entry.1 (now + suppressSeconds)
    else acc) d

end Detector

end RtfmEv.Spam
