import Mathlib.Data.Rat.Floor
import RtfmEv.Lib.Text

/-!
# Host repeater settings (`app/services/host_repeater_settings.py`)

The settings document is validated as one unit before anything reads it. A
`SettingsDocument` is the data of such a document; `HostRepeaterSettings` adds
the ranges and the tree checks of the validators as fields, so only a document
that was accepted can be given to the engine. Fields that no modelled function
reads are left out.
-/

namespace RtfmEv.HostRepeater

open RtfmEv.Lib

inductive LoopDetectMode
  | off
  | minimal
  | moderate
  | strict
  deriving DecidableEq

inductive PolicyAction
  | allow
  | drop
  | logOnly
  deriving DecidableEq

/-- Which stream of matches shares a rule's throttle budget. -/
inductive ThrottleKey
  | rule
  | sender
  | channel
  | pathFirst
  deriving DecidableEq

/-- The packet fields a policy condition can name. -/
inductive PolicyField
  | routeType
  | payloadType
  | payloadLength
  | pathHashSize
  | hopCount
  | rssi
  | snr
  | channelHash
  | channelSender
  | channelMessageBody
  | channelDecryptable
  | pathHashes
  | transportCode0
  | transportCode1
  | payloadHex
  | channelName
  | region
  | pathFirst
  | pathLast
  | pathString
  deriving DecidableEq

inductive PolicyOperator
  | equals
  | notEquals
  | greaterThan
  | greaterOrEqual
  | lessThan
  | lessOrEqual
  | contains
  | isIn
  | intersects
  | startsWith
  | endsWith
  | matchesRegex
  deriving DecidableEq

/-- A dynamically typed value, as packet fields and rule values hold them. -/
inductive PyValue
  | none
  | bool (b : Bool)
  | int (n : ℤ)
  | float (x : ℚ)
  | str (s : String)
  | list (xs : List PyValue)

/-- A rule condition: the empty one, a conjunction, a disjunction or a test. -/
inductive Condition
  | empty
  | all (cs : List Condition)
  | any (cs : List Condition)
  | test (field : PolicyField) (op : PolicyOperator) (value : PyValue)

abbrev maxRegexLength : ℕ := 128
abbrev maxPolicyRules : ℕ := 100
abbrev maxRegions : ℕ := 32
abbrev maxRegionName : ℕ := 30
abbrev maxFilterChannels : ℕ := 16
abbrev maxFilterPaths : ℕ := 8
abbrev maxFilterRules : ℕ := 8
abbrev maxFilterWatch : ℕ := 4

/-- Named value groups a rule can refer to as `@group.name`. -/
structure PolicyObjects where
  channelHashGroups : List (String × List String) := []
  pubkeyGroups : List (String × List String) := []

/-- Rule outcome, with its optional probability and throttle gates. -/
structure PolicyRuleThen where
  action : PolicyAction
  prob : Option ℕ := none
  throttleSeconds : Option ℕ := none
  throttleKey : ThrottleKey := .rule

structure PolicyRule where
  id : String
  name : String := ""
  enabled : Bool := true
  condition : Condition
  «then» : PolicyRuleThen

structure PolicyConfig where
  enabled : Bool := false
  defaultAction : PolicyAction := .allow
  rules : List PolicyRule := []
  objects : PolicyObjects := {}

/-! ### Policy conditions -/

/-- `@group.name`: a letter group name, a dot and a name on one line. -/
def objectRef (s : String) : Option (String × String) :=
  match s.toList with
  | '@' :: rest =>
    let isGroupChar := fun c : Char => ('a' ≤ c && c ≤ 'z') || c == '_'
    let group := rest.takeWhile isGroupChar
    match rest.dropWhile isGroupChar with
    | '.' :: tail =>
      let name := if tail.getLast? = some '\n' then tail.dropLast else tail
      if group = [] ∨ name = [] ∨ '\n' ∈ name then none
      else some (String.ofList group, String.ofList name)
    | _ => none
  | _ => none

/-- The list that `@group.name` stands for. -/
def PolicyObjects.lookup (o : PolicyObjects) (group name : String) : Option (List String) :=
  if group = "channel_hash_groups" then o.channelHashGroups.lookup name
  else if group = "pubkey_groups" then o.pubkeyGroups.lookup name
  else none

/-- The values a list may hold. -/
def PyValue.isScalar : PyValue → Bool
  | .str _ => true
  | .int _ => true
  | .float _ => true
  | .bool _ => true
  | .none => false
  | .list _ => false

/-- The value check of one test. Whether a pattern compiles is up to the engine
that runs it and is not part of this check. -/
def valueOk (objects : PolicyObjects) (op : PolicyOperator) (value : PyValue) : Bool :=
  match op, value with
  | .matchesRegex, .str s => s.toList ≠ [] && s.toList.length ≤ maxRegexLength
  | .matchesRegex, _ => false
  | _, .str s =>
    match objectRef s with
    | none => true
    | some (group, name) => (objects.lookup group name).isSome
  | _, .list xs => xs.all PyValue.isScalar
  | _, _ => true

mutual

/-- `_validate_condition`: at most four levels, no empty groups, legal values. -/
def validateCondition (objects : PolicyObjects) : Condition → ℕ → Bool
  | .empty, _ => false
  | .all cs, depth => depth ≤ 4 && !cs.isEmpty && validateConditions objects cs (depth + 1)
  | .any cs, depth => depth ≤ 4 && !cs.isEmpty && validateConditions objects cs (depth + 1)
  | .test _ op value, depth => depth ≤ 4 && valueOk objects op value

def validateConditions (objects : PolicyObjects) : List Condition → ℕ → Bool
  | [], _ => true
  | c :: cs, depth => validateCondition objects c depth && validateConditions objects cs depth

end

/-- A whole rule condition: the empty one is allowed at the top. -/
def ruleConditionOk (objects : PolicyObjects) : Condition → Bool
  | .empty => true
  | c => validateCondition objects c 1

/-- Probabilities are percentages, throttle windows positive, keys need a window. -/
def PolicyRuleThen.ok (t : PolicyRuleThen) : Bool :=
  t.prob.all (fun p => 1 ≤ p && p ≤ 100) &&
    t.throttleSeconds.all (fun w => 1 ≤ w && w ≤ 65535) &&
    (t.throttleKey = .rule || t.throttleSeconds.isSome)

/-- The rule checks of `PolicyConfig`. -/
def PolicyConfig.ok (p : PolicyConfig) : Bool :=
  p.rules.length ≤ maxPolicyRules && decide ((p.rules.map PolicyRule.id).Nodup) &&
    p.rules.all (fun r => ruleConditionOk p.objects r.condition && r.then.ok)

/-- Per payload type limits of the packet filter. -/
structure DmcTypeLimits where
  hopsMax : ℕ
  rateLimit : ℕ
  rateSecs : ℕ
  soft : ℕ := 0
  hopsMax_le : hopsMax ≤ 64 := by decide
  rateLimit_le : rateLimit ≤ 65535 := by decide
  rateSecs_pos : 1 ≤ rateSecs := by decide
  rateSecs_le : rateSecs ≤ 86400 := by decide
  soft_le : soft ≤ 65535 := by decide

/-- The names of the payload types, by code. -/
def payloadTypeNames : List String :=
  ["REQ", "RESPONSE", "TXT_MSG", "ACK", "ADVERT", "GRP_TXT", "GRP_DATA", "ANON_REQ", "PATH",
    "TRACE", "MULTIPART", "CONTROL"]

/-- The stock limits, which every document is merged over. -/
def defaultFilterTypes (code : ℕ) : DmcTypeLimits :=
  match code with
  | 2 => { hopsMax := 8, rateLimit := 20, rateSecs := 60 }
  | 4 => { hopsMax := 8, rateLimit := 10, rateSecs := 60 }
  | 5 => { hopsMax := 32, rateLimit := 20, rateSecs := 60 }
  | _ => { hopsMax := 8, rateLimit := 5, rateSecs := 60 }

/-- The characters of a region name. -/
def isRegionNameChar (c : Char) : Bool := "-$0123456789".toList.contains c || 0x41 ≤ c.toNat

def isRegionName (name : String) : Bool :=
  !name.toList.isEmpty && name.toList.all isRegionNameChar

/-- One entry of the region map; no parent means a child of the wildcard. -/
structure RegionConfig where
  name : String
  parent : Option String := none
  denyFlood : Bool := false
  name_ok : isRegionName name ∧ name.toList.length ≤ maxRegionName := by decide
  parent_ok : ∀ p ∈ parent, isRegionName p ∧ p.toList.length ≤ maxRegionName := by decide

/-- Is `s` one byte as two lower-case hexadecimal digits? -/
def isHexByte (s : String) : Bool :=
  s.toList.length == 2 && s.toList.all (fun c => "0123456789abcdef".toList.contains c)

/-- One entry of the channel blocklist. -/
structure BlockedChannel where
  hash : String
  hash_ok : isHexByte hash := by decide

/-- One sender or text rule of the packet filter. -/
structure FilterRule where
  pattern : String
  secs : ℕ := 0
  prob : ℕ := 100
  pattern_ok : pattern.toList ≠ [] ∧ pattern.toList.all (fun c => !isSpaceChar c) := by decide
  secs_le : secs ≤ 65535 := by decide
  prob_pos : 1 ≤ prob := by decide
  prob_le : prob ≤ 100 := by decide

/-- Follow the parents of a region, at most `fuel` of them, refusing a parent
that is not listed and one that was already passed. -/
def parentChainOk (regions : List RegionConfig) : ℕ → List String → Option String → Bool
  | _, _, none => true
  | 0, _, some _ => false
  | fuel + 1, seen, some parent =>
    match regions.find? (fun r => r.name = parent) with
    | none => false
    | some r => !seen.contains parent && parentChainOk regions fuel (parent :: seen) r.parent

/-- `_check_region_tree`: distinct names, listed parents, no loops, a listed home. -/
def checkRegionTree (regions : List RegionConfig) (home : Option String) : Bool :=
  decide ((regions.map RegionConfig.name).Nodup) &&
    regions.all (fun r => parentChainOk regions (regions.length + 1) [r.name] r.parent) &&
    home.all (fun h => (regions.map RegionConfig.name).contains h)

/-- One to four bytes as upper-case hexadecimal digits. -/
def isHexPrefix (s : String) : Bool :=
  [2, 4, 6, 8].contains s.toList.length &&
    s.toList.all (fun c => "0123456789ABCDEF".toList.contains c)

/-- The data of a settings document. -/
structure SettingsDocument where
  adminEnabled : Bool := false
  shadowEnabled : Bool := false
  autoRearmAfterReconnect : Bool := false
  txDelayFactor : ℚ := 1
  directTxDelayFactor : ℚ := 1 / 2
  maxTxDelayMs : ℕ := 5000
  maxForwardLatencyMs : ℕ := 5000
  preambleSymbols : ℕ := 16
  useScoreForTx : Bool := false
  dutyCycleEnforced : Bool := true
  maxAirtimePerMinuteMs : ℕ := 3600
  floodMax : ℕ := 64
  floodMaxUnscoped : ℕ := 64
  floodMaxAdvert : ℕ := 8
  loopDetect : LoopDetectMode := .minimal
  unscopedFloodAllow : Bool := true
  regions : List RegionConfig := []
  homeRegion : Option String := none
  seenTtlSeconds : ℕ := 3600
  filterEnabled : Bool := false
  filterMinHashBytes : ℕ := 1
  filterMalformed : Bool := false
  /-- the merged limits, by payload type code -/
  filterTypes : ℕ → DmcTypeLimits := defaultFilterTypes
  filterChannels : List BlockedChannel := []
  filterDryrun : Bool := false
  filterAdvertHours : ℕ := 0
  filterPaths : List String := []
  filterSenderRules : List FilterRule := []
  filterTextRules : List FilterRule := []
  filterWatch : List String := []
  filterAgeMinutes : ℕ := 0
  advertLimiterEnabled : Bool := false
  advertBucketCapacity : ℕ := 2
  advertRefillTokens : ℕ := 1
  advertRefillIntervalSeconds : ℕ := 36000
  advertMinIntervalSeconds : ℕ := 3600
  dcGateEnabled : Bool := false
  dcGateThreshold : ℕ := 70
  dcGateHysteresis : ℕ := 10
  armMinSubBandPercent : ℚ := 1
  maxPendingForwards : ℕ := 20
  maxInFlight : ℕ := 2
  policy : PolicyConfig := {}

/-- A settings document that the validators accepted. -/
structure HostRepeaterSettings extends SettingsDocument where
  txDelayFactor_nonneg : 0 ≤ txDelayFactor := by decide +kernel
  txDelayFactor_le : txDelayFactor ≤ 10 := by decide +kernel
  directTxDelayFactor_nonneg : 0 ≤ directTxDelayFactor := by decide +kernel
  directTxDelayFactor_le : directTxDelayFactor ≤ 10 := by decide +kernel
  maxTxDelayMs_le : maxTxDelayMs ≤ 30000 := by decide
  maxForwardLatencyMs_ge : 100 ≤ maxForwardLatencyMs := by decide
  maxForwardLatencyMs_le : maxForwardLatencyMs ≤ 60000 := by decide
  preambleSymbols_ge : 6 ≤ preambleSymbols := by decide
  preambleSymbols_le : preambleSymbols ≤ 65535 := by decide
  maxAirtimePerMinuteMs_le : maxAirtimePerMinuteMs ≤ 60000 := by decide
  floodMax_le : floodMax ≤ 64 := by decide
  floodMaxUnscoped_le : floodMaxUnscoped ≤ 64 := by decide
  floodMaxAdvert_le : floodMaxAdvert ≤ 64 := by decide
  regions_length : regions.length ≤ maxRegions := by decide
  regionTree : checkRegionTree regions homeRegion := by decide
  seenTtlSeconds_ge : 300 ≤ seenTtlSeconds := by decide
  seenTtlSeconds_le : seenTtlSeconds ≤ 86400 := by decide
  filterMinHashBytes_ge : 1 ≤ filterMinHashBytes := by decide
  filterMinHashBytes_le : filterMinHashBytes ≤ 3 := by decide
  filterChannels_length : filterChannels.length ≤ maxFilterChannels := by decide
  filterAdvertHours_le : filterAdvertHours ≤ 720 := by decide
  filterPaths_length : filterPaths.length ≤ maxFilterPaths := by decide
  filterPaths_ok : filterPaths.all isHexPrefix := by decide
  filterPaths_nodup : filterPaths.Nodup := by decide
  filterSenderRules_length : filterSenderRules.length ≤ maxFilterRules := by decide
  filterSenderRules_nodup : (filterSenderRules.map FilterRule.pattern).Nodup := by decide
  filterTextRules_length : filterTextRules.length ≤ maxFilterRules := by decide
  filterTextRules_nodup : (filterTextRules.map FilterRule.pattern).Nodup := by decide
  filterTextRules_ok : ∀ r ∈ filterTextRules, r.pattern ≠ "^" := by decide
  filterWatch_length : filterWatch.length ≤ maxFilterWatch := by decide
  filterWatch_ok : ∀ w ∈ filterWatch, w.toList.head? = some '#' ∧ 2 ≤ w.toList.length ∧
    w.toList.all (fun c => !isSpaceChar c) := by decide
  filterWatch_nodup : filterWatch.Nodup := by decide
  filterAgeMinutes_le : filterAgeMinutes ≤ 10080 := by decide
  advertBucketCapacity_ge : 1 ≤ advertBucketCapacity := by decide
  advertBucketCapacity_le : advertBucketCapacity ≤ 100 := by decide
  advertRefillTokens_ge : 1 ≤ advertRefillTokens := by decide
  advertRefillTokens_le : advertRefillTokens ≤ 100 := by decide
  advertRefillIntervalSeconds_ge : 60 ≤ advertRefillIntervalSeconds := by decide
  advertRefillIntervalSeconds_le : advertRefillIntervalSeconds ≤ 604800 := by decide
  advertMinIntervalSeconds_le : advertMinIntervalSeconds ≤ 86400 := by decide
  dcGateThreshold_ge : 1 ≤ dcGateThreshold := by decide
  dcGateThreshold_le : dcGateThreshold ≤ 100 := by decide
  dcGateHysteresis_le : dcGateHysteresis ≤ 50 := by decide
  armMinSubBandPercent_ge : 1 / 10 ≤ armMinSubBandPercent := by decide +kernel
  armMinSubBandPercent_le : armMinSubBandPercent ≤ 100 := by decide +kernel
  maxPendingForwards_ge : 1 ≤ maxPendingForwards := by decide
  maxPendingForwards_le : maxPendingForwards ≤ 200 := by decide
  maxInFlight_ge : 1 ≤ maxInFlight := by decide
  maxInFlight_le : maxInFlight ≤ 16 := by decide
  policy_ok : policy.ok := by decide

/-- The stock document. -/
def HostRepeaterSettings.default : HostRepeaterSettings := {}

/-! ### Sub-bands -/

/-- Low and high end in MHz and duty-cycle percent of each sub-band. -/
def euSubBands : List (ℚ × ℚ × ℚ) :=
  [(863, 865, 1 / 10), (865, 868, 1), (868, 8686 / 10, 1), (8687 / 10, 8692 / 10, 1 / 10),
    (8694 / 10, 86965 / 100, 10), (8697 / 10, 870, 1)]

/-- Duty-cycle percent for a frequency of the 863-870 MHz band, else `none`. -/
def subBandDutyLimit (freqMhz : Option ℚ) : Option ℚ :=
  match freqMhz with
  | none => none
  | some f =>
    match euSubBands.find? (fun b => b.1 ≤ f ∧ f ≤ b.2.1) with
    | some b => some b.2.2
    | none => if 863 ≤ f ∧ f ≤ 870 then some (1 / 10) else none

theorem subBandDutyLimit_pos {f : Option ℚ} {limit : ℚ} (h : subBandDutyLimit f = some limit) :
    0 < limit := by
  unfold subBandDutyLimit at h
  split at h
  · cases h
  split at h
  · rename_i b hb
    have hmem := List.mem_of_find?_eq_some hb
    have hall : ∀ b ∈ euSubBands, (0 : ℚ) < b.2.2 := by decide +kernel
    obtain rfl := Option.some.inj h
    exact hall b hmem
  split at h
  · obtain rfl := Option.some.inj h
    norm_num
  · cases h

end RtfmEv.HostRepeater
