import RtfmEv.HostRepeater.Filter
import RtfmEv.HostRepeater.Policy

/-!
# The forwarding engine (`app/services/host_repeater_engine.py`)

`decide` judges one received frame: parse, policy, the firmware's direct or
flood rules with the seen table, the packet filter, the advert bucket, the size
limit and the duty window. It returns the engine after the call and the
decision. The clock readings and the random draws are inputs.
-/

namespace RtfmEv.HostRepeater

open RtfmEv.Lib RtfmEv.PathUtils

abbrev dcGateIntervalSeconds : ℚ := 10
abbrev dcGateRecoverJitterSeconds : ℚ := 30
abbrev scoreDelayMinMs : ℚ := 50

/-- The engine state. -/
structure ForwardingEngine where
  settings : HostRepeaterSettings
  publicKey : Option Bytes
  radio : Option RadioParams
  seen : OrderedDict String ℚ := OrderedDict.empty
  duty : DutyWindow := {}
  budget : AirtimeBudget := {}
  gateLevel : ℕ := 0
  gateNext : Option ℚ := none
  depths : List (String × ℕ) := []
  maxDepth : ℕ := 0
  policyState : PolicyState := {}
  managedBefore : List PolicyRule := []
  managedAfter : List PolicyRule := []
  filter : FilterState
  advertLimiter : AdvertLimiter
  watched : List (ℕ × Bytes) := []
  pathPrefixes : List Bytes := []
  pendingDryrun : Option DropReason := none

/-- One call of `decide`. `clock` is the wall clock that is read when `wallNow`
is not given. -/
structure RxCall where
  raw : Bytes
  facts : RxFacts := {}
  now : ℚ
  wallNow : Option ℚ := none
  clock : ℚ := 0

/-! ### Construction and configuration -/

/-- Steps from a region up to the wildcard, at most one for each region. -/
def climbParents (regions : List RegionConfig) : ℕ → Option String → ℕ
  | _, none => 0
  | 0, some _ => 0
  | fuel + 1, some parent =>
    match regions.find? (fun r => r.name = parent) with
    | none => 0
    | some r => 1 + climbParents regions fuel r.parent

/-- Depth per region, wildcard children at 1. -/
def regionDepths (regions : List RegionConfig) : List (String × ℕ) :=
  regions.map (fun r => (r.name, 1 + climbParents regions regions.length r.parent))

def buildLimiters (s : HostRepeaterSettings) (code : ℕ) : Option DmcLimiter :=
  if code < payloadTypeNames.length then
    let t := s.filterTypes code
    some { limit := t.rateLimit, secs := t.rateSecs, soft := t.soft }
  else none

def buildAdvertLimiter (s : HostRepeaterSettings) : AdvertLimiter where
  capacity := s.advertBucketCapacity
  refillTokens := s.advertRefillTokens
  refillSeconds := s.advertRefillIntervalSeconds
  minInterval := s.advertMinIntervalSeconds

/-- The keys the content checks may read, the first one for each hash byte. -/
def buildWatched (P : Primitives) (s : HostRepeaterSettings) : List (ℕ × Bytes) :=
  ("Public" :: s.filterWatch).foldl (fun secrets name =>
    let secret := dmcChannelSecret P name
    let h := dmcChannelHash P secret
    if (secrets.lookup h).isSome then secrets else secrets ++ [(h, secret)]) []

def hexValue (c : Char) : ℕ := if c.isDigit then c.toNat - 48 else c.toNat - 55

/-- `bytes.fromhex` of upper-case digits. -/
def fromHexChars : List Char → Bytes
  | a :: b :: cs => UInt8.ofNat (16 * hexValue a + hexValue b) :: fromHexChars cs
  | _ => []

/-- Throttle state of the rules that are still configured. -/
def liveRuleLast (s : HostRepeaterSettings) (last : OrderedDict (RuleKind × String) ℚ) :
    OrderedDict (RuleKind × String) ℚ :=
  last.eraseIf (fun e => !match e.1 with
    | (.sender, p) => (s.filterSenderRules.map FilterRule.pattern).contains p
    | (.text, p) => (s.filterTextRules.map FilterRule.pattern).contains p)

namespace ForwardingEngine

def buildRegionTree (e : ForwardingEngine) : ForwardingEngine :=
  let depths := regionDepths e.settings.regions
  let maxDepth := (depths.map Prod.snd).foldl max 0
  let level := if e.settings.dcGateEnabled then e.gateLevel else 0
  { e with
    depths := depths
    maxDepth := maxDepth
    gateNext := if e.settings.dcGateEnabled then e.gateNext else none
    gateLevel := min level maxDepth }

def buildFilterContent (P : Primitives) (e : ForwardingEngine) : ForwardingEngine :=
  { e with
    watched := buildWatched P e.settings
    pathPrefixes := e.settings.filterPaths.map (fun p => fromHexChars p.toList)
    filter := { e.filter with ruleLast := liveRuleLast e.settings e.filter.ruleLast } }

/-- `__init__`. -/
def new (P : Primitives) (settings : HostRepeaterSettings) (publicKey : Option Bytes)
    (radio : Option RadioParams) (rng : Random) : ForwardingEngine :=
  buildFilterContent P (buildRegionTree
    { settings := settings
      publicKey := publicKey
      radio := radio
      filter :=
        { limiters := buildLimiters settings
          advertWindow := { hours := settings.filterAdvertHours }
          rng := rng }
      advertLimiter := buildAdvertLimiter settings })

/-- `configure(settings=...)`. -/
def configureSettings (P : Primitives) (e : ForwardingEngine) (s : HostRepeaterSettings) :
    ForwardingEngine :=
  buildFilterContent P
    { buildRegionTree { e with settings := s } with
      filter := { e.filter with
        limiters := buildLimiters s
        advertWindow := { e.filter.advertWindow with hours := s.filterAdvertHours } }
      advertLimiter := buildAdvertLimiter s }

/-- `configure(public_key=...)`: a new identity forgets what was seen. -/
def configurePublicKey (e : ForwardingEngine) (key : Bytes) : ForwardingEngine :=
  if e.publicKey = some key then e
  else { e with publicKey := some key, seen := OrderedDict.empty }

/-- `configure`: each argument is optional. -/
def configure (P : Primitives) (e : ForwardingEngine) (settings : Option HostRepeaterSettings)
    (publicKey : Option Bytes) (radio : Option RadioParams) : ForwardingEngine :=
  let e := settings.elim e (e.configureSettings P)
  let e := publicKey.elim e e.configurePublicKey
  match radio with
  | none => e
  | some radio => { e with radio := some radio }

def setManagedRules (e : ForwardingEngine) (before after : List PolicyRule) : ForwardingEngine :=
  { e with managedBefore := before, managedAfter := after }

def resetState (e : ForwardingEngine) : ForwardingEngine :=
  { e with
    seen := OrderedDict.empty
    duty := {}
    advertLimiter := buildAdvertLimiter e.settings
    policyState := {}
    filter := { e.filter with
      limiters := buildLimiters e.settings
      advertWindow := e.filter.advertWindow.clear
      ruleLast := OrderedDict.empty } }

def resetFilterCounters (e : ForwardingEngine) : ForwardingEngine :=
  { e with filter := { e.filter with counters := {} } }

/-! ### Duty-cycle region gating -/

def syncBudget (e : ForwardingEngine) (now : ℚ) : ForwardingEngine :=
  let limit := subBandDutyLimit (e.radio.bind RadioParams.freqMhz)
  { e with budget := e.budget.configure (limit.map (· / 100)) now }

/-- The overdue gate checks in order. Each one advances the next check by at
least the interval, which bounds their number. -/
def gateLoop (now : ℚ) : ℕ → ForwardingEngine → ℚ → ForwardingEngine
  | 0, e, next => { e with gateNext := some next }
  | fuel + 1, e, next =>
    if next > now then { e with gateNext := some next }
    else
      let threshold := e.settings.dcGateThreshold
      let recover := threshold - e.settings.dcGateHysteresis
      let (budget, duty) := e.budget.usedPercent next
      let e := { e with budget := budget }
      let overCap := duty.any (fun d => d > (threshold : ℤ))
      let under := duty.any (fun d => d < (recover : ℤ))
      let (e, step) : ForwardingEngine × ℚ :=
        if overCap then
          ({ e with gateLevel := if e.gateLevel < e.maxDepth then e.gateLevel + 1
              else e.gateLevel }, dcGateIntervalSeconds)
        else if under && e.gateLevel > 0 then
          let (jitter, rng) := e.filter.rng.uniform 0 dcGateRecoverJitterSeconds
          ({ e with gateLevel := e.gateLevel - 1, filter := { e.filter with rng := rng } },
            dcGateIntervalSeconds + jitter)
        else (e, dcGateIntervalSeconds)
      let next := next + step
      if e.gateLevel = 0 ∧ !overCap then
        -- without new airtime the reading only falls, so nothing changes until now
        { e with gateNext := some (if next ≤ now then now + dcGateIntervalSeconds else next) }
      else gateLoop now fuel e next

def gateCatchUp (e : ForwardingEngine) (now : ℚ) : ForwardingEngine :=
  let e := e.syncBudget now
  if !e.settings.dcGateEnabled then { e with gateLevel := 0, gateNext := none }
  else
    let next := e.gateNext.getD now
    gateLoop now (⌊(now - next) / dcGateIntervalSeconds⌋ + 1).toNat e next

def wildcardGated (e : ForwardingEngine) : Bool := e.gateLevel ≥ 1 && e.maxDepth > 0

def regionGated (e : ForwardingEngine) (name : String) : Bool :=
  let depth := (e.depths.lookup name).getD 0
  e.gateLevel ≥ 2 && depth ≤ e.gateLevel - 1 && depth < e.maxDepth &&
    some name != e.settings.homeRegion

def addOwnTx (e : ForwardingEngine) (now airtimeMs : ℚ) : ForwardingEngine :=
  let e := e.gateCatchUp now
  if airtimeMs > 0 then { e with budget := e.budget.consume now airtimeMs } else e

end ForwardingEngine

/-! ### The seen table -/

/-- `_was_seen`: an expired entry is forgotten. -/
def wasSeen (seen : OrderedDict String ℚ) (ttl : ℕ) (key : String) (now : ℚ) :
    OrderedDict String ℚ × Bool :=
  match seen.get? key with
  | none => (seen, false)
  | some ts => if now - ts > ttl then (seen.erase key, false) else (seen, true)

def markSeen (seen : OrderedDict String ℚ) (key : String) (now : ℚ) : OrderedDict String ℚ :=
  seen.touch key now seenTableMax

/-! ### Adverts and regions -/

abbrev advertHeaderSize : ℕ := 100
abbrev advertMaxAppDataSize : ℕ := 32

/-- `verify_advert_signature` of `app/decoder.py`. -/
def verifyAdvertSignature (P : Primitives) (payload : Bytes) : Bool :=
  if payload.length < advertHeaderSize then false
  else
    let publicKey := slice payload 0 32
    let signature := slice payload 36 advertHeaderSize
    let appDataLen := min (payload.length - advertHeaderSize) advertMaxAppDataSize
    let message := slice payload 0 36 ++
      slice payload advertHeaderSize (advertHeaderSize + appDataLen)
    P.verifyKey publicKey message signature

/-- `normalize_region_scope` of `app/region_scope.py`. -/
def normalizeRegionScope (scope : String) : String :=
  let stripped := strip scope
  if ["", "0", "*"].contains stripped then ""
  else if textStartsWith stripped "#" then stripped
  else "#" ++ stripped

/-- `compute_transport_code` of `app/region_resolver.py`. -/
def computeTransportCode (P : Primitives) (regionName : String) (payloadType : ℕ)
    (payload : Bytes) : Option ℕ :=
  let normalized := normalizeRegionScope regionName
  if normalized = "" then none
  else
    let key := (P.sha256 (encodeUtf8 normalized)).take 16
    let digest := P.hmacSha256 key (UInt8.ofNat (payloadType % 256) :: payload)
    let code := fromBytesLE (digest.take 2)
    some (if code = 0 then 1 else if code = 0xFFFF then 0xFFFE else code)

/-- The listed regions in order: pass at the first open match, else remember why
the first match was blocked. -/
def regionBlock (P : Primitives) (e : ForwardingEngine) (env : ParsedPacketEnvelope) (code : ℕ) :
    List RegionConfig → Option DropReason → Option DropReason
  | [], blocked => some (blocked.getD .unknownRegion)
  | r :: rs, blocked =>
    if computeTransportCode P r.name env.payloadType env.payload ≠ some code then
      regionBlock P e env code rs blocked
    else if r.denyFlood then regionBlock P e env code rs (some (blocked.getD .regionDenied))
    else if e.regionGated r.name then
      regionBlock P e env code rs (some (blocked.getD .regionGated))
    else none

def regionBlockReason (P : Primitives) (e : ForwardingEngine) (env : ParsedPacketEnvelope) :
    Option DropReason :=
  match env.transportCodes with
  | none => some .unknownRegion
  | some codes => regionBlock P e env codes.1 e.settings.regions none

/-- `LOOP_MAX_COUNTERS`: how often our hash may already be in the path. -/
def loopMaxCounter (mode : LoopDetectMode) (hashSize : ℕ) : ℕ :=
  match mode, hashSize with
  | .minimal, 1 => 4
  | .minimal, 2 => 2
  | .moderate, 1 => 2
  | _, _ => 1

/-! ### Decisions -/

/-- What a relayed frame looks like on its way out. -/
structure Forwarding where
  forwarded : Bytes
  kind : ForwardKind
  priority : ℕ
  delayMs : Option ℚ

def ForwardingEngine.ourHash (e : ForwardingEngine) (size : ℕ) : Bytes :=
  (e.publicKey.getD []).take size

/-- The SNR of a reception in quarter dB, as a signed byte. -/
def snrByte (facts : RxFacts) : UInt8 :=
  UInt8.ofNat ((max (-128) (min 127 (pyInt (facts.snr.getD 0 * 4)))) % 256).toNat

/-- The TRACE branch of `_decide_direct`: the path byte counts bytes of SNR
readings, our hash is looked up in the payload. -/
def decideTrace (e : ForwardingEngine) (raw : Bytes) (env : ParsedPacketEnvelope)
    (facts : RxFacts) (pktHash : String) (now : ℚ) :
    ForwardingEngine × Except DropReason Forwarding :=
  if env.pathByte ≥ maxPathSize then (e, .error .pathFull)
  else if env.payload.length < 9 then (e, .error .malformed)
  else
    let pathSz := ((env.payload[8]?).elim 0 UInt8.toNat) &&& 0x03
    let hashes := env.payload.drop 9
    let offset := env.pathByte <<< pathSz
    let width := 1 <<< pathSz
    if offset ≥ hashes.length then (e, .error .traceEnd)
    else if slice hashes offset (offset + width) ≠ (e.ourHash width).take width then
      (e, .error .notNextHop)
    else
      let (seen, dup) := wasSeen e.seen e.settings.seenTtlSeconds pktHash now
      if dup then ({ e with seen := seen }, .error .duplicate)
      else
        let e := { e with seen := markSeen seen pktHash now }
        let forwarded := headerAndCodes raw env ++ [UInt8.ofNat (env.pathByte + 1)] ++ env.path ++
          [snrByte facts] ++ env.payload
        (e, .ok ⟨forwarded, .trace, 5, none⟩)

def decideDirect (P : Primitives) (e : ForwardingEngine) (raw : Bytes)
    (env : ParsedPacketEnvelope) (facts : RxFacts) (pktHash : String) (now : ℚ) :
    ForwardingEngine × Except DropReason Forwarding :=
  let ttl := e.settings.seenTtlSeconds
  let head := headerAndCodes raw env
  if env.payloadType = ptTrace then decideTrace e raw env facts pktHash now
  else if env.payloadType = ptControl ∧ ((env.payload[0]?).elim 0 UInt8.toNat) &&& 0x80 ≠ 0 then
    (e, .error .controlZeroHop)
  else if env.hopCount = 0 then
    -- delivered to whoever heard it, only marked seen
    ({ e with seen := markSeen e.seen pktHash now }, .error .zeroHop)
  else
    let size := env.hashSize
    if env.path.take size ≠ e.ourHash size then (e, .error .notNextHop)
    else
      let rest := env.path.drop size
      let newPathByte := UInt8.ofNat (encodePathByte size (env.hopCount - 1))
      let ackHeader := UInt8.ofNat (ptAck <<< 2 ||| routeDirect)
      if env.payloadType = ptMultipart then
        let first := (env.payload[0]?).elim 0 UInt8.toNat
        if env.payload.length < 5 ∨ first &&& 0x0F ≠ ptAck then (e, .error .multipartUnsupported)
        else
          let inner := env.payload.drop 1
          let key := packetHash P ptMultipart inner
          let (seen, dup) := wasSeen e.seen ttl key now
          if dup then ({ e with seen := seen }, .error .duplicate)
          else
            let e := { e with seen := markSeen seen key now }
            let remaining := first >>> 4
            let forwarded := [ackHeader, newPathByte] ++ rest ++ inner
            (e, .ok ⟨forwarded, .multipartAck, 0,
              some ((remaining + 1) * multipartAckSpacingMs : ℕ)⟩)
      else
        let (seen, dup) := wasSeen e.seen ttl pktHash now
        if dup then ({ e with seen := seen }, .error .duplicate)
        else
          let e := { e with seen := markSeen seen pktHash now }
          if env.payloadType = ptAck then
            let forwarded := [ackHeader, newPathByte] ++ rest ++ env.payload
            (e, .ok ⟨forwarded, .ack, 0, some 0⟩)
          else
            let forwarded := head ++ [newPathByte] ++ rest ++ env.payload
            (e, .ok ⟨forwarded, .direct, 0, none⟩)

/-- The type and length checks before the seen table. -/
def floodPrecheck (e : ForwardingEngine) (ptype : ℕ) (payload : Bytes) : Option DropReason :=
  if !floodForwardedTypes.contains ptype then some .typeNotForwarded
  else if ptype = ptAck ∧ payload.length < 4 then some .malformed
  else if peerTypes.contains ptype ∧ payload.length ≤ 2 + cipherMacSize then some .malformed
  else if ptype = ptAnonReq ∧ payload.length ≤ 1 + pubKeySize + 2 then some .malformed
  else if (ptype = ptGrpTxt ∨ ptype = ptGrpData) ∧ payload.length ≤ 3 then some .malformed
  else if ptype = ptAdvert then
    if payload.length < pubKeySize + 4 + signatureSize then some .malformed
    else if payload.take pubKeySize = (e.publicKey.getD []).take pubKeySize then some .ownOrigin
    else none
  else none

/-- How many path entries are our hash. -/
def ownHashCount (e : ForwardingEngine) (env : ParsedPacketEnvelope) : ℕ :=
  let size := env.hashSize
  ((List.range env.hopCount).filter
    (fun i => slice env.path (i * size) ((i + 1) * size) = e.ourHash size)).length

/-- The repeater gates after the seen table: signature, own traffic, regions,
hop limits, loop detection and the path cap. -/
def floodGates (P : Primitives) (e : ForwardingEngine) (env : ParsedPacketEnvelope)
    (facts : RxFacts) : Option DropReason :=
  let s := e.settings
  let ptype := env.payloadType
  let hops := env.hopCount
  let unscoped := !isScoped env.transportCodes
  if ptype = ptAdvert ∧ !verifyAdvertSignature P env.payload then some .badSignature
  else if facts.ownOrigin then some .ownOrigin
  else if facts.forUs then some .forUs
  else if unscoped ∧ !s.unscopedFloodAllow then some .unscopedDenied
  else if unscoped ∧ e.wildcardGated then some .regionGated
  else
    match (if unscoped then none else regionBlockReason P e env) with
    | some reason => some reason
    | none =>
      if hops ≥ s.floodMax ∨ (unscoped ∧ hops ≥ s.floodMaxUnscoped) ∨
          (ptype = ptAdvert ∧ hops ≥ s.floodMaxAdvert) then some .floodMax
      else if s.loopDetect ≠ .off ∧
          ownHashCount e env ≥ loopMaxCounter s.loopDetect env.hashSize then some .loop
      else if hops ≥ 63 ∨ (hops + 1) * env.hashSize > maxPathSize then some .pathFull
      else none

/-- The packet filter stage: in dry-run a hit is counted and the flood carries on. -/
def filterStage (P : Primitives) (e : ForwardingEngine) (env : ParsedPacketEnvelope)
    (c : RxCall) : ForwardingEngine × Option DropReason :=
  let s := e.settings
  if !s.filterEnabled then (e, none)
  else
    let (f, reason) := dmcFilter P s e.watched e.pathPrefixes env c.facts c.now c.wallNow c.clock
      e.filter
    let e := { e with filter := f }
    match reason with
    | none => (e, none)
    | some reason =>
      if !s.filterDryrun then (e, some reason)
      else
        let saved := e.radio.elim 0
          (fun radio => loraAirtimeMs (c.raw.length + env.hashSize) radio s.preambleSymbols)
        let counters := { e.filter.counters with
          dryrunHits := e.filter.counters.dryrunHits + 1
          airMs := e.filter.counters.airMs + saved }
        ({ e with pendingDryrun := some reason
                  filter := { e.filter with counters := counters } }, none)

/-- The per-source advert bucket. -/
def advertStage (e : ForwardingEngine) (env : ParsedPacketEnvelope) (now : ℚ) :
    ForwardingEngine × Option DropReason :=
  if env.payloadType = ptAdvert ∧ e.settings.advertLimiterEnabled then
    let (limiter, allowed) := e.advertLimiter.allow (env.payload.take pubKeySize) now
    let e := { e with advertLimiter := limiter }
    if allowed then (e, none) else (e, some .advertRate)
  else (e, none)

/-- The frame with our hash appended to its path. -/
def floodFrame (e : ForwardingEngine) (raw : Bytes) (env : ParsedPacketEnvelope) : Bytes :=
  headerAndCodes raw env ++ [UInt8.ofNat (encodePathByte env.hashSize (env.hopCount + 1))] ++
    env.path ++ e.ourHash env.hashSize ++ env.payload

def decideFlood (P : Primitives) (e : ForwardingEngine) (env : ParsedPacketEnvelope)
    (pktHash : String) (c : RxCall) : ForwardingEngine × Except DropReason Forwarding :=
  match floodPrecheck e env.payloadType env.payload with
  | some reason => (e, .error reason)
  | none =>
    let (seen, dup) := wasSeen e.seen e.settings.seenTtlSeconds pktHash c.now
    if dup then ({ e with seen := seen }, .error .duplicate)
    else
      let e := { e with seen := markSeen seen pktHash c.now }
      match floodGates P e env c.facts with
      | some reason => (e, .error reason)
      | none =>
        match filterStage P e env c with
        | (e, some reason) => (e, .error reason)
        | (e, none) =>
          match advertStage e env c.now with
          | (e, some reason) => (e, .error reason)
          | (e, none) => (e, .ok ⟨floodFrame e c.raw env, .flood, env.hopCount + 1, none⟩)

def isFloodRoute (route : ℕ) : Bool := route = routeFlood || route = routeTransportFlood

def policyFields (env : ParsedPacketEnvelope) (facts : RxFacts) : PolicyFields :=
  let text := fun (s : Option String) => s.elim PyValue.none PyValue.str
  let number := fun (n : ℕ) => PyValue.int n
  let pathHashes := if env.payloadType ≠ ptTrace then
      (pathEntries env.path env.hashSize).map (fun b => String.ofList (toHex b))
    else []
  fun
  | .routeType => number env.routeType
  | .payloadType => number env.payloadType
  | .payloadLength => number env.payload.length
  | .pathHashSize => number env.hashSize
  | .hopCount => number env.hopCount
  | .rssi => facts.rssi.elim .none .int
  | .snr => facts.snr.elim .none .float
  | .channelHash =>
    if env.payloadType = ptGrpTxt ∨ env.payloadType = ptGrpData then
      text ((env.payload.head?).map hex02)
    else .none
  | .channelSender => text facts.channelSender
  | .channelMessageBody => text facts.channelMessageBody
  | .channelDecryptable => .bool facts.channelDecryptable
  | .pathHashes => .list (pathHashes.map .str)
  | .transportCode0 => env.transportCodes.elim .none (fun c => number c.1)
  | .transportCode1 => env.transportCodes.elim .none (fun c => number c.2)
  | .payloadHex => .str (String.ofList (toHex env.payload))
  | .channelName => text facts.channelName
  | .region =>
    if !isFloodRoute env.routeType then .none
    else if !isScoped env.transportCodes then .str "unscoped"
    else text facts.region
  | .pathFirst => text pathHashes.head?
  | .pathLast => text pathHashes.getLast?
  | .pathString => .str (">".intercalate pathHashes)

/-- The part of a decision that every answer about a parsed frame shares. -/
structure RxContext where
  env : ParsedPacketEnvelope
  pktHash : String
  rxLen : ℕ
  score : Option ℚ
  policy : Option PolicyDecision := none

def RxContext.policyAction (x : RxContext) : Option PolicyAction :=
  x.policy.bind (fun p => if p.matched then some p.action else none)

def RxContext.policyRuleId (x : RxContext) : Option String :=
  x.policy.bind (fun p => if p.matched then p.ruleId else none)

/-- The airtime that the retransmit of a targeted drop would have used. -/
def savedAirtime (e : ForwardingEngine) (x : RxContext) (reason : DropReason) : Option ℚ :=
  if reason.savesAirtime then
    e.radio.map (fun radio =>
      let sentLen := if isFloodRoute x.env.routeType then x.rxLen + x.env.hashSize
        else max 1 (x.rxLen - x.env.hashSize)
      loraAirtimeMs sentLen radio e.settings.preambleSymbols)
  else none

/-- The inner `drop` of `decide`. -/
def dropDecision (e : ForwardingEngine) (x : RxContext) (reason : DropReason) :
    ForwardingEngine × Decision :=
  let saved := savedAirtime e x reason
  let e := if reason.isFilter then
      let counters := { e.filter.counters with
        airMs := e.filter.counters.airMs + saved.getD 0 }
      { e with filter := { e.filter with counters := counters } }
    else e
  (e, { forward := false
        reason := .drop reason
        packetHash := x.pktHash
        payloadType := some x.env.payloadType
        routeType := some x.env.routeType
        hopCount := some x.env.hopCount
        rxLen := x.rxLen
        policyAction := x.policyAction
        policyRuleId := x.policyRuleId
        policyPasses := x.policy.elim [] PolicyDecision.passes
        savedAirtimeMs := saved
        score := x.score })

/-- The random retransmit delay, unless the forward kind fixes it, under the cap. -/
def forwardDelay (e : ForwardingEngine) (x : RxContext) (f : Forwarding) (airtime : ℚ) :
    ForwardingEngine × ℚ :=
  let s := e.settings
  let cap : ℚ := s.maxTxDelayMs
  match f.delayMs with
  | some d => (e, min d cap)
  | none =>
    let factor := if f.kind = .flood then s.txDelayFactor else s.directTxDelayFactor
    let (r, rng) := e.filter.rng.randrange 5001
    let delay : ℚ := airtime * factor * (r / 1000)
    let delay := match x.score with
      | some score =>
        if s.useScoreForTx ∧ delay ≥ scoreDelayMinMs then delay * max (1 / 5) (1 - score)
        else delay
      | none => delay
    ({ e with filter := { e.filter with rng := rng } }, min delay cap)

/-- The end of `decide`: size limit, delay, duty window and budget. -/
def transmitStage (e : ForwardingEngine) (radio : RadioParams) (x : RxContext) (f : Forwarding)
    (now : ℚ) : ForwardingEngine × Decision :=
  let dryrun := e.pendingDryrun
  if f.forwarded.length > maxRawSendLen then dropDecision e x .tooLarge
  else
    let airtime := loraAirtimeMs f.forwarded.length radio e.settings.preambleSymbols
    let (e, delay) := forwardDelay e x f airtime
    let (duty, used) := e.duty.used now
    -- the window is only read, and so only pruned, while the cap is enforced
    let e := if e.settings.dutyCycleEnforced then { e with duty := duty } else e
    if e.settings.dutyCycleEnforced ∧ used + airtime > e.settings.maxAirtimePerMinuteMs then
      dropDecision e x .dutyCycle
    else
      let e := { e with
        duty := e.duty.append now airtime (loraAirtimeMs_nonneg _ _ _)
        budget := e.budget.consume now airtime }
      (e, { forward := true
            reason := .kind f.kind
            packetHash := x.pktHash
            payloadType := some x.env.payloadType
            routeType := some x.env.routeType
            hopCount := some x.env.hopCount
            rxLen := x.rxLen
            forwarded := some f.forwarded
            priority := some f.priority
            delayMs := some delay
            airtimeMs := some airtime
            policyAction := x.policyAction
            policyRuleId := x.policyRuleId
            policyPasses := x.policy.elim [] PolicyDecision.passes
            score := x.score
            filterDryrun := dryrun })

/-- The direct or the flood rules, by route type. -/
def routeStage (P : Primitives) (e : ForwardingEngine) (env : ParsedPacketEnvelope)
    (pktHash : String) (c : RxCall) : ForwardingEngine × Except DropReason Forwarding :=
  if env.routeType = routeDirect ∨ env.routeType = routeTransportDirect then
    decideDirect P e c.raw env c.facts pktHash c.now
  else decideFlood P e env pktHash c

/-- `decide` on a parsed frame. -/
def decideEnvelope (P : Primitives) (e : ForwardingEngine) (env : ParsedPacketEnvelope)
    (c : RxCall) : ForwardingEngine × Decision :=
  let pktHash := packetHash P env.payloadType env.payload
    (if env.payloadType = ptTrace then some env.pathByte else none)
  let score := e.radio.bind (fun radio => packetScore c.facts.snr radio.sf c.raw.length)
  let x : RxContext := { env := env, pktHash := pktHash, rxLen := c.raw.length, score := score }
  let e := { e with pendingDryrun := none }
  if env.payloadVersion ≠ payloadVer1 then dropDecision e x .unsupportedVersion
  else if (e.publicKey.getD []).length < 3 then dropDecision e x .noIdentity
  else
    match e.radio with
    | none => dropDecision e x .noRadio
    | some radio =>
      let e := e.gateCatchUp c.now
      let (policyState, policy) := evaluateLayers P e.managedBefore e.settings.policy
        e.managedAfter (policyFields env c.facts) pktHash c.now e.policyState
      let e := { e with policyState := policyState }
      let x := { x with policy := some policy }
      if policy.action = .drop then dropDecision e x .policyDrop
      else
        match routeStage P e env pktHash c with
        | (e, .error reason) => dropDecision e x reason
        | (e, .ok f) => transmitStage e radio x f c.now

/-- `ForwardingEngine.decide`. -/
def decide (P : Primitives) (e : ForwardingEngine) (c : RxCall) : ForwardingEngine × Decision :=
  match parsePacketEnvelope c.raw with
  | none =>
    (e, { forward := false
          reason := .drop .malformed
          packetHash := ""
          payloadType := none
          routeType := none
          hopCount := none
          rxLen := c.raw.length })
  | some env => decideEnvelope P e env c

end RtfmEv.HostRepeater
