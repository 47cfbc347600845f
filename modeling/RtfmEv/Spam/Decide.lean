import RtfmEv.Spam.Learning

/-!
# Turning what was seen into blocks (`SpamDetector.decide`)

One call looks for campaigns, duplicates, repeats, repeaters, rotating repeaters,
links and floods, in this order, and asks for a block for each; then expired
blocks go and old knowledge is forgotten. Only a campaign correction and a changed
links setting remove a block before that.
-/

namespace RtfmEv.Spam

open RtfmEv.Lib

abbrev linkHoldSeconds : ℕ := 3600
abbrev minRepeatChars : ℕ := 8
abbrev autoLockdownWindow : ℕ := 120
abbrev autoLockdownNames : ℕ := 12
abbrev autoLockdownHops : ℕ := 6
abbrev autoLockdownSeconds : ℕ := 900

namespace Detector

variable (d : Detector)

/-- The messages of the last seconds. -/
def eventsSince (start : ℚ) : List Event := d.events.filter (fun e => start ≤ e.ts)

/-! ### Duplicates -/

/-- `_stopped`: held back by an enforced block that is no duplicate suppression. -/
def stopped (e : Event) : Bool :=
  (d.matchedBlock e).any (fun b => b.source ≠ .dedupe && !b.observe)

def rulePiece (text : String) : String :=
  let length := d.tunables.textRuleChars
  let piece := middlePiece text length
  if piece.toList.length < minDuplicateChars then middlePiece text length false else piece

/-- The newest of some copies. -/
def latestOf (events : List Event) (start : ℚ) : ℚ := (events.map Event.ts).foldl max start

/-- Whose message it is that copies repeat: nobody's when several people sent it. -/
def ownerOf (reason : String) (copies : List Event) : Option String :=
  if reason = "duplicate" || ((copies.map Event.sender).dedup).length = 1 then
    copies.head?.map Event.sender
  else none

/-- `hold`: the block that holds back repeats of copies, oldest first. -/
def holdOrder (P : Primitives) (body : BlockBody) (reason : String) (copies : List Event) :
    Option BlockOrder :=
  match copies with
  | [] => none
  | first :: _ =>
    let only := decide (d.tunables.dedupeScope = .same)
    let owner := ownerOf reason copies
    if only && owner.isNone then none
    else
      let sender := if d.tunables.dedupeScope = .everyone then none else owner
      let key := match body with
        | .words ws => wordsKey P
            (match sender with
              | some name => if only && name ≠ "" then name :: ws else ws
              | none => ws)
        | .text s => textKey P (if only then sender.getD "None" ++ "|" ++ s else s)
        | _ => ""
      some
        { key := key, body := body, reason := reason, source := .dedupe,
          channel := some first.channel, ttl := some d.tunables.dedupeSeconds,
          fromTs := some (latestOf copies first.ts), sender := sender, senderOnly := only }

/-- Each name on its own, where only its own repeats count. -/
def dedupeSlot (e : Event) : Option String :=
  if d.tunables.dedupeScope = .same then some e.sender else none

/-- The orders for one message that was sent again with small changes. -/
def resentOrders (P : Primitives) (T : TextTools) (copies : List Event) : List BlockOrder :=
  let originals := Detector.textSort ((copies.map Event.text).dedup)
  if originals.length < 2 then []
  else
    let (common, words) := d.shared T originals
    (common.toList.filterMap (fun s => d.holdOrder P (.text s) "resent_changed" copies)) ++
      words.toList.filterMap (fun ws => d.holdOrder P (.words ws) "resent_changed" copies)

/-- The piece that a duplicate rule matches, if the message is long enough. -/
def duplicatePiece (T : TextTools) (e : Event) : Option String :=
  let content := longestPiece (T.stripMentions e.text)
  if content.toList.length < d.tunables.dedupeMinChars then none
  else
    let piece := d.rulePiece content
    if piece.toList.length < minDuplicateChars then none else some piece

/-- Messages whose copies count. -/
def usableCopies (recent : List Event) : List Event :=
  recent.filter (fun e => !e.exempt && !e.released && !d.allowSenders.contains e.sender &&
    !d.stopped e)

/-- `_block_duplicates`: what copies are held back. -/
def duplicateOrders (P : Primitives) (T : TextTools) (recent : List Event) (judged : Option ℕ)
    (freshSeconds : ℚ) : List BlockOrder :=
  let usable := d.usableCopies recent
  let variants := groupBy (fun e => (e.norm, d.dedupeSlot e)) (usable.filter (fun e =>
    6 * d.tunables.dedupeMinChars ≤ 10 * e.norm.toList.length))
  let exact := groupBy Prod.fst (usable.filterMap (fun e =>
    (d.duplicatePiece T e).map (fun piece => ((piece, d.dedupeSlot e), e))))
  variants.flatMap (fun group => d.resentOrders P T group.2) ++
    exact.filterMap (fun group =>
      let copies := group.2.map Prod.snd
      let pending := copies.head?.any (fun first =>
        judged = some first.id || d.clock - first.ts < freshSeconds)
      if d.tunables.dedupeScope ≠ .others && copies.length = 1 && pending then none
      else d.holdOrder P (.text group.1.1) "duplicate" copies)

/-! ### Repeats -/

/-- What one name repeats. -/
def repeatedContent (T : TextTools) (e : Event) : Option String :=
  if e.exempt || e.released || d.allowSenders.contains e.sender || e.sender = "" ||
      e.sender = "?" then none
  else
    let content := strip (longestPiece (T.stripMentions e.text))
    if content.toList.length < minRepeatChars then none else some content

/-- `_block_repeats`: one name sending the same message over and over. -/
def repeatOrders (P : Primitives) (T : TextTools) (recent : List Event) : List BlockOrder :=
  let copies := groupBy Prod.fst (recent.filterMap (fun e =>
    (d.repeatedContent T e).map (fun content =>
      ((e.sender, e.channel, T.normalise content), (e, content)))))
  copies.filterMap (fun group =>
    if group.2.length ≤ d.tunables.repeatMax then none
    else
      (group.2.getLast?).map (fun last =>
        let piece := d.rulePiece last.2.2
        { key := "repeat:" ++ digest P (group.1.1 ++ "|" ++ piece)
          body := .text piece
          reason := "repeat"
          source := .repeat
          channel := some group.1.2.1
          ttl := some d.tunables.repeatBlockSeconds
          fromTs := some last.2.1.ts
          sender := some group.1.1
          senderOnly := true }))

/-! ### Repeaters -/

/-- Different senders of some messages. -/
def senderCount (events : List Event) : ℕ := ((events.map Event.sender).dedup).length

/-- A name that has only just turned up. -/
def newSender (now : ℚ) (e : Event) : Bool :=
  (d.senders.get? e.sender).any (fun history => history.count ≤ 2 &&
    now - d.tunables.windowSeconds ≤ history.first) && !d.familiar e.sender

/-- The signal that a repeater gives first, if any. -/
def hopSignal (window longWindow : List Event) (now : ℚ) (hop : String) : Option String :=
  let here := window.filter (fun e => e.firstHop = hop)
  let random := senderCount (here.filter Event.random)
  let new := senderCount (here.filter (d.newSender now))
  let campaign := senderCount (here.filter (fun e => (d.campaignOf e).any Campaign.confirmed))
  let randomLong := senderCount (longWindow.filter (fun e => e.random && e.firstHop = hop))
  if d.tunables.hopRandomSenders ≤ random then some "hop_random"
  else if d.tunables.hopNewSenders ≤ new then some "hop_new"
  else if d.tunables.hopCampaignSenders ≤ campaign then some "hop_campaign"
  else if d.tunables.hopRandomSendersLong ≤ randomLong then some "hop_random_long"
  else none

/-- `_block_repeaters`. -/
def repeaterOrders (window longWindow : List Event) (now : ℚ) : List BlockOrder :=
  let hops := (groupBy Event.firstHop (longWindow.filter Event.random ++ window)).map Prod.fst
  hops.filterMap (fun hop =>
    if hop = direct || d.hopAllowed hop then none
    else
      (d.hopSignal window longWindow now hop).map (fun reason =>
        { key := "hop:" ++ hop
          body := .hop hop
          reason := reason
          source := .hop
          ttl := some d.tunables.hopBlockTtlSeconds }))

/-- One learnt route of a blocked repeater. -/
def learnPath (e : Event) : Detector :=
  if e.path = [] then d
  else
    match d.blocks.get? ("hop:" ++ e.firstHop) with
    | none => d
    | some b =>
      if d.hopMode b ≠ .exactPaths || !b.channel.all (fun c => c = e.channel) ||
          b.paths.contains (joinPath e.path) || b.ignoredPaths.contains (joinPath e.path) ||
          d.tunables.maxPathsPerHop ≤ b.paths.length then d
      else d.setBlock ("hop:" ++ e.firstHop) { b with paths := b.paths ++ [joinPath e.path] }

def learnPaths (events : List Event) : Detector := events.foldl learnPath d

/-! ### Rotation -/

/-- A message of a never-seen first repeater that looks like spam. -/
def rotationEvidence (e : Event) : Bool :=
  e.path ≠ [] && !d.knownOrigin e.firstHop && !d.established e.sender &&
    (e.random || e.campaign.isSome)

/-- Onward routes that are tied to a blocked repeater. -/
def linkedSuffixes : List (List String) :=
  d.blockList.flatMap (fun b =>
    if b.body.isHop then b.paths.map (fun path => (splitText '>' path).drop 1) else [])

/-- The rotation blocks that are asked for. -/
def rotationOrders (window : List Event) : List BlockOrder :=
  (groupBy (fun e : Event => e.path.drop 1) (window.filter d.rotationEvidence)).filterMap
    (fun group =>
      let linked := d.linkedSuffixes.contains group.1
      let origins := ((group.2.map Event.firstHop).dedup).length
      if (if linked then 2 else d.tunables.rotateFirstHops) ≤ origins &&
          2 ≤ senderCount group.2 then
        some
          { key := "suffix:" ++ joinPath group.1
            body := .suffix group.1
            reason := if linked then "rotation_linked" else "rotation"
            source := .rotation }
      else none)

/-- A trusted person on a blocked route: let their repeater through. -/
def allowOriginOf (e : Event) : Detector :=
  if !d.allowSenders.contains e.sender || e.path = [] then d
  else
    let key := "suffix:" ++ joinPath (e.path.drop 1)
    match d.blocks.get? key with
    | none => d
    | some b =>
      if b.userAllowed.contains e.firstHop then d
      else d.setBlock key { b with userAllowed := b.userAllowed ++ [e.firstHop] }

def blockRotation (window : List Event) : Detector :=
  window.foldl allowOriginOf (d.wantAll (d.rotationOrders window))

/-! ### Floods and links -/

/-- `_auto_lockdown`. -/
def lockdownOrders (window : List Event) (now : ℚ) : List BlockOrder :=
  let recent := window.filter (fun e => now - autoLockdownWindow ≤ e.ts && e.random &&
    e.firstHop ≠ direct && !d.familiar e.sender)
  if (d.blocks.get? lockdownKey).isNone && autoLockdownNames ≤ senderCount recent &&
      autoLockdownHops ≤ ((recent.map Event.firstHop).dedup).length then
    [{ key := lockdownKey
       body := .lockdown
       reason := "auto_lockdown"
       source := .autoLockdown
       ttl := some autoLockdownSeconds }]
  else []

/-- The links block goes when its setting changed. -/
def dropOldLinks : Detector :=
  if (d.blocks.get? linksKey).any (fun b => b.linksMode ≠ some d.tunables.holdLinks) then
    d.dropBlock linksKey
  else d

/-- The last sign of a campaign. -/
def latestCampaign : ℚ :=
  match (d.blockList.filter (fun b => b.source = .campaign && b.body.isOpinion)).map
      (fun b => max b.created (b.lastHit.getD 0)) with
  | [] => 0
  | first :: rest => rest.foldl max first

def linkOrders (now : ℚ) : List BlockOrder :=
  match d.tunables.holdLinks with
  | .always =>
    [{ key := linksKey, body := .links linkMarkers, reason := "links_always", source := .links,
       linksMode := some .always, ttl := some permanentSeconds }]
  | .campaign =>
    if now - linkHoldSeconds < d.latestCampaign then
      [{ key := linksKey, body := .links linkMarkers, reason := "links_campaign",
         source := .links, linksMode := some .campaign, ttl := some linkHoldSeconds,
         fromTs := some d.latestCampaign }]
    else []
  | .off => []

def holdLinks (now : ℚ) : Detector :=
  let d := d.dropOldLinks
  d.wantAll (d.linkOrders now)

/-! ### One call -/

/-- A step that is switched on or off. -/
def stepIf (on : Bool) (f : Detector → Detector) : Detector := if on then f d else d

def longStart (now : ℚ) : ℚ := now - d.tunables.longWindowSeconds

def blockDuplicates (P : Primitives) (T : TextTools) (judged : Option ℕ) (freshSeconds now : ℚ) :
    Detector :=
  d.wantAll (d.duplicateOrders P T
    (d.eventsSince (max (d.longStart now) (now - d.tunables.dedupeSeconds))) judged freshSeconds)

def blockRepeats (P : Primitives) (T : TextTools) (now : ℚ) : Detector :=
  d.wantAll (d.repeatOrders P T
    (d.eventsSince (max (d.longStart now) (now - d.tunables.repeatWindowSeconds))))

def windowEvents (now : ℚ) : List Event := d.eventsSince (now - d.tunables.windowSeconds)

def longEvents (now : ℚ) : List Event := d.eventsSince (d.longStart now)

def blockRepeaters (now : ℚ) : Detector :=
  d.wantAll (d.repeaterOrders (d.windowEvents now) (d.longEvents now) now)

def autoLockdown (now : ℚ) : Detector := d.wantAll (d.lockdownOrders (d.windowEvents now) now)

/-- Expired blocks go, and keys that were held off long enough come back. -/
def expire (now : ℚ) : Detector :=
  { d with
    blocks := d.blocks.eraseIf (fun entry => entry.2.expires ≤ now)
    suppressed := d.suppressed.eraseIf (fun entry => entry.2 ≤ now) }

/-- The message that a backend is about to judge counts as caught by a new block. -/
def rematch (e : Option Event) : Detector :=
  match e with
  | none => d
  | some e =>
    let current := (d.events.find? (fun other => other.id = e.id)).getD e
    if current.matched.isSome then d else d.matchEvent current

/-- The blocks that follow from campaigns. -/
def decideCampaigns (P : Primitives) (T : TextTools) (now : ℚ) : Detector :=
  (d.withCampaigns now).stepIf d.tunables.enableTextRules (fun d => d.blockCampaigns P T)

/-- Every other step that asks for blocks. -/
def decideOthers (P : Primitives) (T : TextTools) (judged : Option Event) (freshSeconds now : ℚ) :
    Detector :=
  let tun := d.tunables
  let d := d.stepIf tun.dedupeEnabled
    (fun d => d.blockDuplicates P T (judged.map Event.id) freshSeconds now)
  let d := d.stepIf tun.repeatGuard (fun d => d.blockRepeats P T now)
  let d := d.stepIf tun.enableHopRules (fun d => d.blockRepeaters now)
  let d := d.learnPaths (d.longEvents now)
  let d := d.settle (d.longEvents now) now
  let d := d.stepIf tun.enableRotationGuard (fun d => d.blockRotation (d.windowEvents now))
  let d := d.holdLinks now
  d.stepIf tun.autoLockdown (fun d => d.autoLockdown now)

def decide (P : Primitives) (T : TextTools) (judged : Option Event) (freshSeconds : ℚ) :
    Detector :=
  let now := d.clock
  let d := d.decideCampaigns P T now
  let d := d.correctCampaigns (d.longEvents now) now
  let d := d.decideOthers P T judged freshSeconds now
  ((d.expire now).forgetOld now).rematch judged

end Detector

end RtfmEv.Spam
