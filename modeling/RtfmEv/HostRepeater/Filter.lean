import RtfmEv.HostRepeater.Decision
import RtfmEv.Lib.OrderedDict

/-!
# Rate limiters (`app/services/host_repeater_engine.py`)

The fixed-window limiter of the packet filter, the per-origin advert window and
the per-source advert token bucket.
-/

namespace RtfmEv.HostRepeater

open RtfmEv.Lib

/-- Fixed window with an optional linear soft cutoff. -/
structure DmcLimiter where
  limit : ℕ
  secs : ℕ
  soft : ℕ := 0
  start : ℚ := 0
  count : ℕ := 0

def DmcLimiter.allow (l : DmcLimiter) (now : ℚ) (rnd : ℕ) : DmcLimiter × Bool :=
  if l.limit = 0 then (l, true)
  else
    let l := if now < l.start + l.secs then { l with count := l.count + 1 }
      else { l with start := now, count := 1 }
    if l.soft = 0 ∨ l.soft ≥ l.limit then (l, decide (l.count ≤ l.limit))
    else if l.count ≤ l.soft then (l, true)
    else if l.count > l.limit then (l, false)
    else
      let threshold := 256 * (l.limit - l.count) / (l.limit - l.soft)
      (l, decide (rnd < threshold))

abbrev dmcAdvertCacheSize : ℕ := 256
abbrev dmcAdvertKeyLen : ℕ := 4

/-- Each origin's flood advert passes once per window, in a ring that overwrites
its oldest entry once full. -/
structure AdvertOriginWindow where
  hours : ℕ
  /-- keys with the time each was last let through -/
  ring : List (Bytes × ℚ) := []
  head : ℕ := 0

def AdvertOriginWindow.allow (w : AdvertOriginWindow) (key : Bytes) (now : ℚ) :
    AdvertOriginWindow × Bool :=
  if w.hours = 0 then (w, true)
  else
    let key := key.take dmcAdvertKeyLen
    let window : ℚ := w.hours * 3600
    match w.ring.findIdx? (fun e => e.1 = key) with
    | some i =>
      if now - ((w.ring[i]?).elim 0 Prod.snd) < window then (w, false)
      else ({ w with ring := w.ring.set i (key, now) }, true)
    | none =>
      if w.ring.length < dmcAdvertCacheSize then
        ({ w with ring := w.ring ++ [(key, now)] }, true)
      else
        ({ w with ring := w.ring.set w.head (key, now)
                  head := (w.head + 1) % dmcAdvertCacheSize }, true)

def AdvertOriginWindow.clear (w : AdvertOriginWindow) : AdvertOriginWindow :=
  { w with ring := [], head := 0 }

abbrev advertLimiterMaxKeys : ℕ := 10000
abbrev advertLimiterRetentionSeconds : ℚ := 604800

/-- Tokens, last refill and last allowed advert of one key. -/
structure AdvertBucket where
  tokens : ℚ
  lastRefill : ℚ
  lastSeen : ℚ

/-- One token bucket per advertising key plus a minimum interval. -/
structure AdvertLimiter where
  capacity : ℚ
  refillTokens : ℚ
  refillSeconds : ℚ
  minInterval : ℚ
  state : OrderedDict Bytes AdvertBucket := OrderedDict.empty
  allowed : ℕ := 0
  dropped : ℕ := 0
  lastCleanup : ℚ := 0

namespace AdvertLimiter

def cleanup (l : AdvertLimiter) (now : ℚ) : AdvertLimiter :=
  if now - l.lastCleanup < 3600 then l
  else
    { l with lastCleanup := now
             state := l.state.eraseIf (fun e =>
               now - max e.2.lastRefill e.2.lastSeen > advertLimiterRetentionSeconds) }

/-- The bucket of a key, created full or refilled, as the youngest entry. -/
def bucketOf (l : AdvertLimiter) (key : Bytes) (now : ℚ) : AdvertLimiter × AdvertBucket :=
  match l.state.get? key with
  | none =>
    let b : AdvertBucket := ⟨l.capacity, now, -1⟩
    ({ l with state := (l.state.set key b).trim advertLimiterMaxKeys }, b)
  | some b =>
    let elapsed := now - b.lastRefill
    let b := if elapsed ≥ l.refillSeconds then
        let intervals : ℤ := ⌊elapsed / l.refillSeconds⌋
        { b with tokens := min l.capacity (b.tokens + intervals * l.refillTokens)
                 lastRefill := b.lastRefill + intervals * l.refillSeconds }
      else b
    ({ l with state := (l.state.moveToEnd key).set key b }, b)

def allow (l : AdvertLimiter) (key : Bytes) (now : ℚ) : AdvertLimiter × Bool :=
  let (l, b) := (l.cleanup now).bucketOf key now
  if l.minInterval > 0 ∧ b.lastSeen ≥ 0 ∧ now - b.lastSeen < l.minInterval then
    ({ l with dropped := l.dropped + 1 }, false)
  else if b.tokens < 1 then ({ l with dropped := l.dropped + 1 }, false)
  else
    ({ l with state := l.state.set key { b with tokens := b.tokens - 1, lastSeen := now }
              allowed := l.allowed + 1 }, true)

end AdvertLimiter

/-!
## The packet filter (`app/services/host_repeater_engine.py`)

`dmcFilter` judges a flood packet: hash size, path prefixes, hops, per-origin
advert window, group-text checks and rate limiter, in that order. Everything it
may change is in a `FilterState`, so the rest of the engine is untouched by
construction.
-/

open RtfmEv.Lib RtfmEv.PathUtils

abbrev dmcPublicChannelHash : ℕ := 0x11
abbrev dmcInvalidTimestampWindow : ℤ := 604800
abbrev dmcClockSetAfter : ℤ := 1767225600

def dmcAclTypes : List ℕ := [ptReq, ptResponse, ptTxtMsg, ptAnonReq, ptPath]

/-- The key of the stock public channel. -/
def publicChannelKey : Bytes :=
  [0x8B, 0x33, 0x87, 0xE9, 0xC5, 0xCD, 0xEA, 0x6A, 0xC9, 0xE5, 0xED, 0xBA, 0xA1, 0x15, 0xCD, 0x72]

/-! #### Counters -/

/-- `counter[key] = counter.get(key, 0) + amount`. -/
def bump {κ : Type} [DecidableEq κ] (counter : OrderedDict κ ℕ) (key : κ) (amount : ℕ := 1) :
    OrderedDict κ ℕ := counter.set key ((counter.get? key).getD 0 + amount)

inductive MalformedReason
  | short
  | time
  | empty
  | utf8
  deriving DecidableEq

structure FilterCounters where
  hops : OrderedDict String ℕ := OrderedDict.empty
  rate : OrderedDict String ℕ := OrderedDict.empty
  channel : OrderedDict String ℕ := OrderedDict.empty
  hashSize : List ℕ := [0, 0, 0, 0]
  hashType : OrderedDict String ℕ := OrderedDict.empty
  malformed : MalformedReason → ℕ := fun _ => 0
  advert : ℕ := 0
  path : OrderedDict String ℕ := OrderedDict.empty
  sender : OrderedDict String ℕ := OrderedDict.empty
  senderPass : OrderedDict String ℕ := OrderedDict.empty
  text : OrderedDict String ℕ := OrderedDict.empty
  textPass : OrderedDict String ℕ := OrderedDict.empty
  age : ℕ := 0
  sources : OrderedDict ℕ ℕ := OrderedDict.empty
  airMs : ℚ := 0
  dryrunHits : ℕ := 0

/-- The two rule lists of the group-text checks. -/
inductive RuleKind
  | sender
  | text
  deriving DecidableEq

/-- The part of the engine that the packet filter works on. -/
structure FilterState where
  limiters : ℕ → Option DmcLimiter
  advertWindow : AdvertOriginWindow
  /-- throttle state per rule list and pattern -/
  ruleLast : OrderedDict (RuleKind × String) ℚ := OrderedDict.empty
  counters : FilterCounters := {}
  rng : Random

/-! #### Message content -/

/-- A clock below this has not been set. -/
def dmcClockSet (now : ℚ) : Bool := pyInt now ≥ dmcClockSetAfter

/-- The bytes before the first zero byte. -/
def untilZero (b : Bytes) : Bytes := b.takeWhile (· ≠ 0)

/-- The malformed reason of a decrypted message, `none` when it is valid. -/
def dmcMessageInvalid (P : Primitives) (data : Bytes) (now : ℚ) : Option MalformedReason :=
  if data.length ≤ 5 then some .short
  else
    let timestamp : ℤ := fromBytesLE (slice data 0 4)
    if timestamp = 0 ∨
        (dmcClockSet now ∧ |timestamp - pyInt now| > dmcInvalidTimestampWindow) then some .time
    else if ((data[4]?).elim 0 UInt8.toNat) >>> 2 ≠ 0 then none
    else
      let text := untilZero (data.drop 5)
      if text = [] then some .empty
      else if P.isUtf8 text then none
      else some .utf8

/-- A channel's secret: the public key, or the first half of the name's hash. -/
def dmcChannelSecret (P : Primitives) (name : String) : Bytes :=
  if name = "Public" then publicChannelKey else (P.sha256 (encodeUtf8 name)).take 16

/-- The channel hash byte that a group text carries. -/
def dmcChannelHash (P : Primitives) (secret : Bytes) : ℕ :=
  ((P.sha256 secret).head?).elim 0 UInt8.toNat

/-- The plaintext of a group payload, empty on a MAC failure. -/
def dmcDecrypt (P : Primitives) (secret payload : Bytes) : Bytes :=
  let mac := slice payload 1 3
  let ciphertext := payload.drop 3
  if ciphertext = [] ∨ ciphertext.length % 16 ≠ 0 then []
  else if (P.hmacSha256 (secret ++ List.replicate 16 0) ciphertext).take 2 ≠ mac then []
  else P.aesEcbDecrypt secret ciphertext

/-- The first place at which `needle` stands in `hay`. -/
def findSub (needle : Bytes) : Bytes → Option ℕ
  | [] => if needle = [] then some 0 else none
  | b :: bs =>
    if needle.isPrefixOf (b :: bs) then some 0 else (findSub needle bs).map (· + 1)

/-- Sender and text of a plain group text. -/
def dmcParseGroupText (data : Bytes) : Option (Bytes × Bytes) :=
  if data.length < 6 ∨ ((data[4]?).elim 0 UInt8.toNat) >>> 2 ≠ 0 then none
  else
    let body := untilZero (data.drop 5)
    match findSub [0x3A, 0x20] body with
    | none => none
    | some index => if index = 0 then none else some (body.take index, body.drop (index + 2))

/-- Exact, or a leading part when the pattern ends in `*`. -/
def dmcMatchName (pattern : String) (sender : Bytes) : Bool :=
  let raw := encodeUtf8 pattern
  if raw.getLast? = some 0x2A then raw.dropLast.isPrefixOf sender else sender == raw

/-- Anywhere in the text, or at its start when the pattern starts with `^`. -/
def dmcMatchText (pattern : String) (text : Bytes) : Bool :=
  let raw := encodeUtf8 pattern
  if raw.head? = some 0x5E then raw.length > 1 && raw.tail.isPrefixOf text
  else (findSub raw text).isSome

/-- The path entries of `hashSize` bytes each. -/
def pathEntries (path : Bytes) (hashSize : ℕ) : List Bytes :=
  (List.range (path.length / hashSize)).map
    (fun i => slice path (i * hashSize) ((i + 1) * hashSize))

/-- The first prefix that starts a path entry and is not longer than one. -/
def dmcPathMatch (path : Bytes) (hashSize : ℕ) (prefixes : List Bytes) : Option ℕ :=
  if hashSize = 0 then none
  else
    prefixes.findIdx? (fun p =>
      p ≠ [] && p.length ≤ hashSize && (pathEntries path hashSize).any (fun e => p.isPrefixOf e))

/-! #### Rules and checks -/

/-- `_evaluate_rules`: the pattern of the first rule that decides to drop. -/
def evaluateFilterRules (kind : RuleKind) (isMatch : String → Bool) (now : ℚ) (roll : ℕ) :
    List FilterRule → FilterState → FilterState × Option String
  | [], st => (st, none)
  | rule :: rules, st =>
    if !isMatch rule.pattern then evaluateFilterRules kind isMatch now roll rules st
    else if rule.prob < 100 ∧ roll ≥ rule.prob then
      evaluateFilterRules kind isMatch now roll rules st
    else if rule.secs > 0 then
      let key := (kind, rule.pattern)
      let passes := match st.ruleLast.get? key with
        | none => true
        | some last => decide (now - last ≥ rule.secs)
      if passes then
        let c := st.counters
        let c := match kind with
          | .sender => { c with senderPass := bump c.senderPass rule.pattern }
          | .text => { c with textPass := bump c.textPass rule.pattern }
        evaluateFilterRules kind isMatch now roll rules
          { st with ruleLast := st.ruleLast.set key now, counters := c }
      else (st, some rule.pattern)
    else (st, some rule.pattern)

/-- The two lower-case digits of `{:02x}`. -/
def hex02 (b : UInt8) : String := String.ofList (hexByte b)

/-- Sender rules, then text rules, on one roll for both lists. -/
def dmcContentRules (s : HostRepeaterSettings) (sender text : Bytes) (now : ℚ)
    (st : FilterState) : FilterState × Option DropReason :=
  let (roll, rng) := st.rng.randrange 100
  let st := { st with rng := rng }
  match evaluateFilterRules .sender (fun p => dmcMatchName p sender) now roll
      s.filterSenderRules st with
  | (st, some pattern) =>
    ({ st with counters := { st.counters with sender := bump st.counters.sender pattern } },
      some .filterSender)
  | (st, none) =>
    match evaluateFilterRules .text (fun p => dmcMatchText p text) now roll
        s.filterTextRules st with
    | (st, some pattern) =>
      ({ st with counters := { st.counters with text := bump st.counters.text pattern } },
        some .filterText)
    | (st, none) => (st, none)

/-- The age limit and the content rules, on a decrypted message. -/
def dmcAgeAndRules (s : HostRepeaterSettings) (secret : Option Bytes) (data : Bytes)
    (now whenS : ℚ) (st : FilterState) : FilterState × Option DropReason :=
  let wantRules := !s.filterSenderRules.isEmpty || !s.filterTextRules.isEmpty
  let stamp : ℤ := fromBytesLE (slice data 0 4)
  if secret.isSome ∧ s.filterAgeMinutes > 0 ∧ data.length ≥ 4 ∧ dmcClockSet whenS ∧
      |pyInt whenS - stamp| > s.filterAgeMinutes * 60 then
    ({ st with counters := { st.counters with age := st.counters.age + 1 } }, some .filterAge)
  else if secret.isSome ∧ wantRules ∧ data ≠ [] then
    match dmcParseGroupText data with
    | none => (st, none)
    | some (sender, text) => dmcContentRules s sender text now st
  else (st, none)

/-- `_dmc_group_text`: channel block, malformed scan, age limit, content rules.
`clock` is the wall clock that is read when no time is given. -/
def dmcGroupText (P : Primitives) (s : HostRepeaterSettings) (watched : List (ℕ × Bytes))
    (payload : Bytes) (now : ℚ) (wallNow : Option ℚ) (clock : ℚ) (st : FilterState) :
    FilterState × Option DropReason :=
  let c := st.counters
  let countMalformed := fun (r : MalformedReason) =>
    { st with counters := { c with malformed :=
      fun r' => if r' = r then c.malformed r' + 1 else c.malformed r' } }
  match payload with
  | [] => (countMalformed .short, some .filterMalformed)
  | first :: _ =>
    if payload.length ≤ 1 + cipherMacSize then (countMalformed .short, some .filterMalformed)
    else
      let channel := hex02 first
      if s.filterChannels.any (fun e => e.hash == channel) then
        ({ st with counters := { c with channel := bump c.channel channel } },
          some .filterChannel)
      else
        let wantMalformed := s.filterMalformed && first.toNat == dmcPublicChannelHash
        let wantRules := !s.filterSenderRules.isEmpty || !s.filterTextRules.isEmpty
        let secret := if wantRules || s.filterAgeMinutes > 0 then watched.lookup first.toNat
          else none
        if !wantMalformed && secret.isNone then (st, none)
        else
          let whenS := wallNow.getD clock
          let data := dmcDecrypt P (secret.getD publicChannelKey) payload
          match (if wantMalformed then dmcMessageInvalid P data whenS else none) with
          | some r => (countMalformed r, some .filterMalformed)
          | none => dmcAgeAndRules s secret data now whenS st

/-- The originator's hash byte where the payload carries one. -/
def dmcSrcHash (ptype : ℕ) (payload : Bytes) : Option ℕ :=
  if ptype = ptAdvert then (payload[0]?).map UInt8.toNat
  else if dmcAclTypes.contains ptype then (payload[1]?).map UInt8.toNat
  else none

/-- `PAYLOAD_TYPE_NAMES.get(ptype, f"TYPE_{ptype}")`. -/
def payloadTypeName (ptype : ℕ) : String :=
  (payloadTypeNames[ptype]?).getD ("TYPE_" ++ toString ptype)

/-- A packet from or to a bypassed identity is not filtered. -/
def aclBypassed (ptype : ℕ) (payload : Bytes) (facts : RxFacts) : Bool :=
  match payload with
  | a :: b :: _ =>
    dmcAclTypes.contains ptype &&
      (facts.aclHashes.contains a.toNat || facts.aclHashes.contains b.toNat)
  | _ => false

/-- The per-type rate limiter, the last check. -/
def dmcRateCheck (ptype : ℕ) (src : Option ℕ) (now : ℚ) (st : FilterState) :
    FilterState × Option DropReason :=
  match st.limiters ptype with
  | none => (st, none)
  | some limiter =>
    let (rnd, rng) := st.rng.randrange 256
    let (limiter, allowed) := limiter.allow now rnd
    let st := { st with rng := rng, limiters := Function.update st.limiters ptype (some limiter) }
    if allowed then (st, none)
    else
      let c := st.counters
      let sources := src.elim c.sources (bump c.sources ·)
      ({ st with counters := { c with rate := bump c.rate (payloadTypeName ptype)
                                      sources := sources } }, some .filterRate)

/-- The advert window, the group-text checks and the rate limiter. -/
def dmcStatefulChecks (P : Primitives) (s : HostRepeaterSettings) (watched : List (ℕ × Bytes))
    (env : ParsedPacketEnvelope) (src : Option ℕ) (now : ℚ) (wallNow : Option ℚ) (clock : ℚ)
    (st : FilterState) : FilterState × Option DropReason :=
  let ptype := env.payloadType
  let payload := env.payload
  let (window, passed) :=
    if ptype = ptAdvert ∧ payload.length ≥ dmcAdvertKeyLen then
      st.advertWindow.allow (payload.take dmcAdvertKeyLen) now
    else (st.advertWindow, true)
  let st := { st with advertWindow := window }
  if !passed then
    let c := st.counters
    let sources := src.elim c.sources (bump c.sources ·)
    ({ st with counters := { c with advert := c.advert + 1, sources := sources } },
      some .filterAdvert)
  else if ptype = ptGrpTxt then
    match dmcGroupText P s watched payload now wallNow clock st with
    | (st, some reason) => (st, some reason)
    | (st, none) => dmcRateCheck ptype src now st
  else dmcRateCheck ptype src now st

/-- `_dmc_filter`: the reason to drop a flood packet, or `none` to pass it. -/
def dmcFilter (P : Primitives) (s : HostRepeaterSettings) (watched : List (ℕ × Bytes))
    (pathPrefixes : List Bytes) (env : ParsedPacketEnvelope) (facts : RxFacts) (now : ℚ)
    (wallNow : Option ℚ) (clock : ℚ) (st : FilterState) : FilterState × Option DropReason :=
  let ptype := env.payloadType
  let payload := env.payload
  let name := payloadTypeName ptype
  if aclBypassed ptype payload facts then (st, none)
  else
    let src := dmcSrcHash ptype payload
    let c := st.counters
    let sources := src.elim c.sources (bump c.sources ·)
    if env.hashSize < s.filterMinHashBytes then
      let slot := min env.hashSize 4 - 1
      ({ st with counters :=
          { c with hashSize := c.hashSize.modify slot (· + 1)
                   hashType := bump c.hashType name
                   sources := sources } }, some .filterHash)
    else
      match dmcPathMatch env.path env.hashSize pathPrefixes with
      | some slot =>
        ({ st with counters :=
            { c with path := bump c.path ((s.filterPaths[slot]?).getD "")
                     sources := sources } }, some .filterPath)
      | none =>
        if ptype < payloadTypeNames.length ∧ env.hopCount ≥ (s.filterTypes ptype).hopsMax then
          ({ st with counters := { c with hops := bump c.hops name, sources := sources } },
            some .filterHops)
        else dmcStatefulChecks P s watched env src now wallNow clock st

end RtfmEv.HostRepeater
