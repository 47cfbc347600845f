import RtfmEv.Spam.Decide

/-!
# Settings, stored state and user actions (`SpamDetector.configure`, `load`, `action`)

A user action either changes the detector or is refused with a text, and then
nothing changed. Actions that only change lists for review or the overview leave
the modelled state as it is.
-/

namespace RtfmEv.Spam

open RtfmEv.Lib

abbrev maxLockdownMinutes : ℕ := 24 * 60
abbrev manualTextMinChars : ℕ := 12
abbrev knownBeforeVersion2 : ℕ := 3

/-- Stored state of the right shape. -/
structure StoredState where
  version : Option ℤ := none
  blocks : List (String × Block) := []
  suppressed : List (String × ℚ) := []
  known : List (String × KnownEntry) := []
  homes : List (String × List (String × ℕ)) := []
  routes : List (String × RouteRecord) := []
  relays : List (String × ℚ) := []
  senders : List (String × ℚ × ℚ × ℕ) := []

/-- The user actions. Their bodies are not checked, so a number of seconds need not be whole. -/
inductive Action
  | unblock (key : String) (suppressSeconds : ℚ)
  | lockdown (minutes : ℚ)
  | blockHop (hop : String) (ttlSeconds : Option ℚ) («match» channel : Option String)
  | blockText (text channel : String) (ttlSeconds : Option ℚ)
  | markSpam (text channel : String) (ttlSeconds : Option ℚ) (sender : String)
  | notSpam (sender : String) (matched : Option String)
  | watchAgain
  | extend (key : String) (seconds : ℚ) (permanent : Bool)
  | blockAction (key : String) (observe : Bool)
  | hopMode (key : String) («match» : Option String)
  | forgetPath (key path : String)
  | allowOrigin (key hop : String)
  | unallowOrigin (key hop : String)
  | allowHop (hop : String)
  | unallowHop (hop : String)
  | forgetKnown (name : String)
  | allowSender (sender : String)
  | unallowSender (sender : String)
  | allowText (text : String)
  | unallowText (text : String)
  | clearAuto
  | clearSuppressed
  | clearHeld
  | clearMessages
  | forgetSource (hop : String)
  | resetLearned

/-- `_HOP_MODES`. -/
def hopMatchOf (name : String) : Option HopMatch :=
  if name = "contains_known" then some .containsKnown
  else if name = "exact_paths" then some .exactPaths
  else if name = "contains" then some .contains
  else if name = "starts_at" then some .startsAt
  else none

/-- `normalise_hop`: one to three bytes in upper-case hexadecimal. -/
def normaliseHop (T : TextTools) (value : String) : Option String :=
  let hop := T.upper (strip value)
  let hop := removePrefixText hop "0X"
  if hop.toList.all isUpperHexDigit ∧
      (hop.toList.length = 2 ∨ hop.toList.length = 4 ∨ hop.toList.length = 6) then some hop
  else none

/-- `_REPEAT_SOURCES`. -/
def BlockSource.onlyRepeats : BlockSource → Bool
  | .dedupe => true
  | .repeat => true
  | _ => false

/-- The texts that an action is refused with. -/
inductive Refusal
  | badHop
  | noSuchBlock
  | lockdownTooLong
  | unknownMode
  | channelNotProtected
  | textTooShort
  | knownSender (sender : String)
  | atMostAWeek
  | nameNotListed
  | emptyName
  | allowedTextTooShort
  deriving DecidableEq

def Refusal.text : Refusal → String
  | .badHop => "a repeater hash is 2, 4 or 6 hex characters, e.g. 27"
  | .noSuchBlock => "That block no longer exists"
  | .lockdownTooLong => "A lockdown can last at most 24 hours"
  | .unknownMode => "Unknown matching mode"
  | .channelNotProtected => "That channel is not protected"
  | .textTooShort => "Use at least 12 characters of the spam message: " ++
      "Spam Guard blocks spam messages, not single words or names"
  | .knownSender sender => sender ++
      " is someone Spam Guard knows, so it does not block what they say. " ++
      "If they keep repeating it, the repeat guard already slows that down"
  | .atMostAWeek => "Blocks on message text, and repeater blocks that also stop people " ++
      "Spam Guard knows, last at most 7 days"
  | .nameNotListed => "That name is not on the list"
  | .emptyName => "Enter a name"
  | .allowedTextTooShort => "Enter at least 3 characters"

namespace Detector

variable (d : Detector)

/-! ### Settings -/

/-- `_cap` for every block. -/
def capAll : Detector :=
  { d with
    blocks := ⟨d.blocks.entries.map (fun entry => (entry.1, d.cap entry.2)), by
      have hkeys := d.blocks.nodup
      rwa [List.map_map, show Prod.fst ∘ (fun entry : String × Block => (entry.1, d.cap entry.2)) =
        Prod.fst from rfl]⟩ }

/-- Duplicate blocks made for another scope hold back the wrong people. -/
def dropDedupe : Detector :=
  { d with blocks := d.blocks.eraseIf (fun entry => entry.2.source = .dedupe) }

def configure (config : SpamConfig) : Detector :=
  let previous := d.tunables.dedupeScope
  let d := { d with config := config }
  let d := d.stepIf (Decidable.decide (previous ≠ d.tunables.dedupeScope)) dropDedupe
  { d.capAll with
    allowHops := config.allowHops.dedup
    allowSenders := config.allowSenders.dedup
    allowTexts := config.allowTexts.dedup }

/-! ### Stored state -/

/-- `load`: expired blocks are dropped and the others capped. -/
def load (s : StoredState) : Detector :=
  let known := (dictOf s.known).entries
  let known := if s.version.all (fun version => version < 2) then
      known.map (fun entry =>
        (entry.1, { entry.2 with genuine := max entry.2.genuine knownBeforeVersion2 }))
    else known
  { d with
    blocks := dictOf (s.blocks.filter (fun entry => d.clock < entry.2.expires))
    suppressed := dictOf (s.suppressed.filter (fun entry => d.clock < entry.2))
    known := dictOf known
    homes := dictOf (s.homes.map (fun entry => (entry.1, dictOf entry.2)))
    routes := dictOf s.routes
    relays := dictOf s.relays
    senders := dictOf (s.senders.map (fun entry =>
      (entry.1, { first := entry.2.1, last := entry.2.2.1, count := entry.2.2.2 }))) : Detector
    }.capAll

/-! ### Blocks -/

/-- `_existing`, for a block of any kind. -/
def existing (key : String) : Except Refusal Block :=
  match d.blocks.get? key with
  | none => .error .noSuchBlock
  | some b => .ok b

/-- `_existing(key, "hop")`. -/
def existingHop (key : String) : Except Refusal Block :=
  match d.blocks.get? key with
  | none => .error .noSuchBlock
  | some b => if b.body.isHop then .ok b else .error .noSuchBlock

/-- `_existing(key, "suffix")`. -/
def existingSuffix (key : String) : Except Refusal Block :=
  match d.blocks.get? key with
  | none => .error .noSuchBlock
  | some b => if b.body.isSuffix then .ok b else .error .noSuchBlock

def unsuppress (key : String) : Detector := { d with suppressed := d.suppressed.erase key }

def doUnblock (key : String) (seconds : ℚ) : Detector :=
  let held := (d.dropBlock key).suppress key (d.clock + seconds)
  match d.blocks.get? key with
  | none => held
  | some b =>
    if b.source.onlyRepeats then (d.dropBlock key).release b
    else if b.source = .lockdown then d.dropBlock key
    else held

def doLockdown (minutes : ℚ) : Except Refusal Detector :=
  if minutes > maxLockdownMinutes then .error .lockdownTooLong
  else
    let ended := d.blocks.get? lockdownKey
    let d := d.dropBlock lockdownKey
    if minutes ≤ 0 then
      .ok (if ended.any (fun b => b.source = .autoLockdown) then
          d.suppress lockdownKey (d.clock + suppressSeconds)
        else d)
    else
      .ok ((d.unsuppress lockdownKey).addBlock
        { key := lockdownKey, body := .lockdown, reason := "lockdown", source := .lockdown,
          ttl := some (minutes * 60) })

/-- The channel that a repeater block is for. -/
def hopScope (T : TextTools) (channel : Option String) : Except Refusal (Option String) :=
  match channel with
  | none => .ok none
  | some channel =>
    if channel = "" then .ok none
    else if d.config.channels.any (fun c => c.key = T.upper (strip channel)) then
      .ok (some (T.upper (strip channel)))
    else .error .channelNotProtected

def doBlockHop (T : TextTools) (hop : String) (ttlSeconds : Option ℚ)
    («match» channel : Option String) : Except Refusal Detector := do
  match normaliseHop T hop with
  | none => .error .badHop
  | some hopHash =>
    if «match».any (fun mode => (hopMatchOf mode).isNone) then .error .unknownMode
    else
      match d.hopScope T channel with
      | .error refusal => .error refusal
      | .ok scope =>
        let key := "hop:" ++ hopHash
        let d := { d.unsuppress key with
          allowHops := d.allowHops.filter (fun a => !hopsRelated a hopHash) }
        let d := (d.dropBlock key).addBlock
          { key := key, body := .hop hopHash, reason := "manual", source := .manual,
            channel := scope, ttl := ttlSeconds,
            «match» := «match».bind hopMatchOf }
        .ok (d.learnPaths d.events)

def manualText (P : Primitives) (T : TextTools) (text channel reason : String)
    (ttl : Option ℚ) : Except Refusal Detector :=
  if text.toList.length < manualTextMinChars then .error .textTooShort
  else
    let key := textKey P text
    .ok (((d.unsuppress key).dropBlock key).addBlock
      { key := key, body := .text text, reason := reason, source := .manual,
        channel := some (T.upper channel), ttl := ttl })

def doMarkSpam (P : Primitives) (T : TextTools) (text channel : String) (ttl : Option ℚ)
    (sender : String) : Except Refusal Detector :=
  if sender ≠ "" && (d.allowSenders.contains sender || d.isKnown sender) then
    .error (.knownSender sender)
  else
    let length := max d.tunables.textRuleChars manualTextMinChars
    let piece := middlePiece text length
    let piece := if piece.toList.length < manualTextMinChars then middlePiece text length false
      else piece
    d.manualText P T piece channel "marked_spam" ttl

def addIfNew (names : List String) (name : String) : List String :=
  if names.contains name then names else names ++ [name]

def doNotSpam (sender : String) (matched : Option String) : Detector :=
  let d := if sender = "" then d
    else { d with allowSenders := addIfNew d.allowSenders sender }
  match matched with
  | none => d
  | some key =>
    if (d.blocks.get? key).any (fun b => b.body.isOpinion) && key ≠ "" then
      (d.dropBlock key).suppress key (d.clock + suppressSeconds)
    else d

/-- A block that the user extends: a duplicate block becomes the user's own. -/
def extendedBlock (b : Block) (seconds : ℚ) (permanent : Bool) : Block :=
  let expires := if permanent then d.clock + permanentSeconds
    else max b.expires d.clock + seconds
  let b := d.cap { b with expires := expires }
  if b.source = .dedupe then { b with source := .manual } else b

def doExtend (key : String) (seconds : ℚ) (permanent : Bool) : Except Refusal Detector :=
  match d.existing key with
  | .error refusal => .error refusal
  | .ok b =>
    if permanent && d.weekAtMost b then .error .atMostAWeek
    else .ok (d.setBlock key (d.extendedBlock b seconds permanent))

def doBlockAction (key : String) (observe : Bool) : Except Refusal Detector :=
  (d.existing key).map (fun b => d.setBlock key { b with observe := observe })

def doHopMode (key : String) («match» : Option String) : Except Refusal Detector :=
  match d.existingHop key with
  | .error refusal => .error refusal
  | .ok b =>
    if «match».any (fun mode => (hopMatchOf mode).isNone) then .error .unknownMode
    else
      let d := d.setBlock key (d.cap { b with «match» := «match».bind hopMatchOf })
      .ok (d.learnPaths d.events)

def doForgetPath (key path : String) : Except Refusal Detector :=
  (d.existingHop key).map (fun b =>
    if b.paths.contains path then
      d.setBlock key
        { b with paths := b.paths.erase path, ignoredPaths := b.ignoredPaths ++ [path] }
    else d)

def doAllowOrigin (T : TextTools) (key hop : String) : Except Refusal Detector :=
  match d.existingSuffix key with
  | .error refusal => .error refusal
  | .ok b =>
    match normaliseHop T hop with
    | none => .error .badHop
    | some hopHash => .ok (d.setBlock key { b with userAllowed := addIfNew b.userAllowed hopHash })

def doUnallowOrigin (T : TextTools) (key hop : String) : Except Refusal Detector :=
  match d.existingSuffix key with
  | .error refusal => .error refusal
  | .ok b =>
    match normaliseHop T hop with
    | none => .error .badHop
    | some hopHash => .ok (d.setBlock key { b with userAllowed := b.userAllowed.erase hopHash })

/-! ### Exceptions -/

def doAllowHop (T : TextTools) (hop : String) : Except Refusal Detector :=
  match normaliseHop T hop with
  | none => .error .badHop
  | some hopHash =>
    .ok { d with
      allowHops := addIfNew d.allowHops hopHash
      blocks := d.blocks.eraseIf (fun entry =>
        match entry.2.body with
        | .hop h => hopsRelated h hopHash
        | _ => false) }

def doUnallowHop (T : TextTools) (hop : String) : Detector :=
  { d with allowHops := d.allowHops.filter (· ≠ T.upper (strip hop)) }

def doForgetKnown (name : String) : Except Refusal Detector :=
  if (d.known.get? name).isNone && !d.allowSenders.contains name then .error .nameNotListed
  else
    .ok { d with
      known := d.known.erase name
      homes := d.homes.erase name
      allowSenders := d.allowSenders.filter (· ≠ name) }

def doAllowSender (sender : String) : Except Refusal Detector :=
  if strip sender = "" then .error .emptyName
  else .ok { d with allowSenders := addIfNew d.allowSenders sender }

def doUnallowSender (sender : String) : Detector :=
  { d with allowSenders := d.allowSenders.filter (· ≠ sender) }

def doAllowText (T : TextTools) (text : String) : Except Refusal Detector :=
  let text := strip text
  if text.toList.length < 3 then .error .allowedTextTooShort
  else
    .ok { d with
      allowTexts := addIfNew d.allowTexts text
      blocks := d.blocks.eraseIf (fun entry =>
        match entry.2.body with
        | .text s => textContains (T.casefold s) (T.casefold text)
        | _ => false) }

def doUnallowText (text : String) : Detector :=
  { d with allowTexts := d.allowTexts.filter (· ≠ strip text) }

/-! ### Clearing -/

/-- One block of `_do_clear_auto`. -/
def clearOne (entry : String × Block) : Detector :=
  if entry.2.source = .manual ∨ entry.2.source = .lockdown then d
  else if entry.2.source.onlyRepeats then (d.dropBlock entry.1).release entry.2
  else (d.dropBlock entry.1).suppress entry.1 (d.clock + suppressSeconds)

def doClearAuto : Detector := d.blocks.entries.foldl clearOne d

def doResetLearned : Detector := { d.load {} with events := [], campaigns := [] }

/-- `action`. -/
def act (P : Primitives) (T : TextTools) : Action → Except Refusal Detector
  | .unblock key seconds => .ok (d.doUnblock key seconds)
  | .lockdown minutes => d.doLockdown minutes
  | .blockHop hop ttl mode channel => d.doBlockHop T hop ttl mode channel
  | .blockText text channel ttl => d.manualText P T (strip text) channel "manual" ttl
  | .markSpam text channel ttl sender => d.doMarkSpam P T text channel ttl sender
  | .notSpam sender matched => .ok (d.doNotSpam sender matched)
  | .watchAgain => .ok d
  | .extend key seconds permanent => d.doExtend key seconds permanent
  | .blockAction key observe => d.doBlockAction key observe
  | .hopMode key mode => d.doHopMode key mode
  | .forgetPath key path => d.doForgetPath key path
  | .allowOrigin key hop => d.doAllowOrigin T key hop
  | .unallowOrigin key hop => d.doUnallowOrigin T key hop
  | .allowHop hop => d.doAllowHop T hop
  | .unallowHop hop => .ok (d.doUnallowHop T hop)
  | .forgetKnown name => d.doForgetKnown name
  | .allowSender sender => d.doAllowSender sender
  | .unallowSender sender => .ok (d.doUnallowSender sender)
  | .allowText text => d.doAllowText T text
  | .unallowText text => .ok (d.doUnallowText text)
  | .clearAuto => .ok d.doClearAuto
  | .clearSuppressed => .ok { d with suppressed := .empty }
  | .clearHeld => .ok d
  | .clearMessages => .ok d
  | .forgetSource _ => .ok d
  | .resetLearned => .ok d.doResetLearned

end Detector

/-! ### Calls -/

/-- A call on the detector. -/
inductive Call
  | configure (config : SpamConfig)
  | ingest (message : Detector.Message)
  | decide (judged : Option Event) (freshSeconds : ℚ)
  | load (state : StoredState)
  | action (a : Action)

/-- The detector after a call at a time. A refused action changes nothing. -/
def Detector.call (P : Primitives) (T : TextTools) (d : Detector) (now : ℚ) (c : Call) :
    Detector :=
  let d := { d with clock := now }
  match c with
  | .configure config => d.configure config
  | .ingest message => d.ingest T message
  | .decide judged freshSeconds => d.decide P T judged freshSeconds
  | .load state => d.load state
  | .action a => (d.act P T a).toOption.getD d

/-- A new detector (`SpamDetector.__init__`). -/
def Detector.start (config : SpamConfig) (now : ℚ) : Detector :=
  { config := config
    clock := now
    allowHops := config.allowHops.dedup
    allowSenders := config.allowSenders.dedup
    allowTexts := config.allowTexts.dedup }

/-- The detectors that calls lead to, while the clock does not run backwards. -/
inductive Reachable (P : Primitives) (T : TextTools) : Detector → Prop
  | start (config : SpamConfig) (now : ℚ) : Reachable P T (Detector.start config now)
  | call {d : Detector} (h : Reachable P T d) {now : ℚ} (hnow : d.clock ≤ now) (c : Call) :
      Reachable P T (d.call P T now c)

end RtfmEv.Spam
