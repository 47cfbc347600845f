import RtfmEv.HostRepeater.Settings
import RtfmEv.Lib.SlidingWindow
import RtfmEv.Primitives
import RtfmEv.PathUtils

/-!
# Airtime and duty cycle (`app/services/host_repeater_engine.py`)

The LoRa time on air of a frame, the reception score, the rolling duty window
and the transmit budget. Times are seconds and airtimes milliseconds, all exact
rationals.
-/

namespace RtfmEv.HostRepeater

open RtfmEv.Lib

/-- Current modulation. The radio link only builds one with a positive
bandwidth. -/
@[ext]
structure RadioParams where
  freqMhz : Option ℚ
  bwKhz : ℚ
  sf : ℕ
  cr : ℕ
  bwKhz_nonneg : 0 ≤ bwKhz := by decide +kernel
  deriving DecidableEq

/-- Accept 5..8 (denominator) or 1..4 (index). -/
def codingRateDenominator (cr : ℕ) : ℕ :=
  if 1 ≤ cr ∧ cr ≤ 4 then cr + 4 else max 5 (min 8 cr)

/-- LoRa time on air in ms, explicit header and CRC on. -/
def loraAirtimeMs (length : ℕ) (radio : RadioParams) (preambleSymbols : ℕ) : ℚ :=
  let sf := max 5 (min 12 radio.sf)
  let bwHz := if radio.bwKhz * 1000 = 0 then 250000 else radio.bwKhz * 1000
  let crDenom := codingRateDenominator radio.cr
  let symbolS : ℚ := 2 ^ sf / bwHz
  let lowDr := symbolS * 1000 ≥ 16
  let syncSymbols : ℚ := if sf ≤ 6 then 25 / 4 else 17 / 4
  let sfCoeff2 : ℤ := if sf ≤ 6 then 0 else 8
  let bits : ℤ := 8 * length + 16 - 4 * sf + sfCoeff2 + 20
  let denom : ℤ := if lowDr then 4 * (sf - 2) else 4 * sf
  let payloadSymbols : ℤ := 8 + ⌈(max bits 0 : ℚ) / denom⌉ * crDenom
  (preambleSymbols + syncSymbols + payloadSymbols) * symbolS * 1000

theorem loraAirtimeMs_nonneg (length : ℕ) (radio : RadioParams) (preambleSymbols : ℕ) :
    0 ≤ loraAirtimeMs length radio preambleSymbols := by
  have hsf : (5 : ℕ) ≤ max 5 (min 12 radio.sf) := le_max_left _ _
  have hbw : (0 : ℚ) ≤ if radio.bwKhz * 1000 = 0 then 250000 else radio.bwKhz * 1000 := by
    split
    · norm_num
    · exact mul_nonneg radio.bwKhz_nonneg (by norm_num)
  simp only [loraAirtimeMs]
  generalize max 5 (min 12 radio.sf) = sf at hsf ⊢
  generalize (if radio.bwKhz * 1000 = 0 then 250000 else radio.bwKhz * 1000) = bw at hbw ⊢
  have hsym : (0 : ℚ) ≤ 2 ^ sf / bw := div_nonneg (by positivity) hbw
  have hsync : (0 : ℚ) ≤ if sf ≤ 6 then 25 / 4 else 17 / 4 := by split <;> norm_num
  have hden : (0 : ℤ) ≤ if (2 ^ sf / bw : ℚ) * 1000 ≥ 16 then 4 * ((sf : ℤ) - 2) else 4 * sf := by
    split <;> omega
  have hceil : ∀ x : ℤ, (0 : ℤ) ≤ ⌈(max x 0 : ℚ) / ((if (2 ^ sf / bw : ℚ) * 1000 ≥ 16 then
      4 * ((sf : ℤ) - 2) else 4 * sf : ℤ) : ℚ)⌉ := by
    intro x
    apply Int.ceil_nonneg
    exact div_nonneg (le_max_right _ _) (by exact_mod_cast hden)
  refine mul_nonneg (mul_nonneg (add_nonneg (add_nonneg (Nat.cast_nonneg _) hsync) ?_) hsym)
    (by norm_num)
  have hprod := mul_nonneg (hceil (8 * length + 16 - 4 * sf + (if sf ≤ 6 then 0 else 8) + 20))
    (Int.natCast_nonneg (codingRateDenominator radio.cr))
  have hsum := add_nonneg (show (0 : ℤ) ≤ 8 by norm_num) hprod
  exact_mod_cast hsum

/-- The reception floor in dB of a spreading factor. -/
def snrThresholdBySf (sf : ℕ) : Option ℚ :=
  match sf with
  | 7 => some (-15 / 2)
  | 8 => some (-10)
  | 9 => some (-25 / 2)
  | 10 => some (-15)
  | 11 => some (-35 / 2)
  | 12 => some (-20)
  | _ => none

/-- Reception quality in `[0, 1]`, `none` when SNR or SF is unknown. -/
def packetScore (snr : Option ℚ) (sf : ℕ) (length : ℕ) : Option ℚ :=
  match snr, snrThresholdBySf sf with
  | some snr, some floor =>
    if snr < floor then some 0
    else
      let success := (snr - floor) / 10
      let penalty := 1 - (length : ℚ) / 256
      some (max 0 (min 1 (success * penalty)))
  | _, _ => none

/-! ### The rolling duty window -/

abbrev dutyWindowSeconds : ℚ := 60

/-- Time and airtime of the forwards still held. No airtime is negative. -/
structure DutyWindow where
  entries : List (ℚ × ℚ) := []
  nonneg : ∀ e ∈ entries, 0 ≤ e.2 := by simp

namespace DutyWindow

/-- The window without the entries that have left it. -/
def pruned (d : DutyWindow) (now : ℚ) : DutyWindow :=
  ⟨prune dutyWindowSeconds now d.entries,
    fun e he => d.nonneg e (List.dropWhile_suffix _ |>.subset he)⟩

/-- `used`: prune, then the airtime still held. -/
def used (d : DutyWindow) (now : ℚ) : DutyWindow × ℚ :=
  (d.pruned now, ((d.pruned now).entries.map Prod.snd).sum)

def append (d : DutyWindow) (now airtime : ℚ) (h : 0 ≤ airtime) : DutyWindow :=
  ⟨d.entries ++ [(now, airtime)], by
    intro e he
    rcases List.mem_append.mp he with he | he
    · exact d.nonneg e he
    · obtain rfl := List.mem_singleton.mp he
      exact h⟩

end DutyWindow

/-! ### The transmit budget -/

abbrev budgetWindowMs : ℚ := 3600000

/-- `BUDGET_WINDOW_MS * duty` ms, refilled at `duty`. -/
structure AirtimeBudget where
  duty : Option ℚ := none
  tokensMs : ℚ := 0
  last : Option ℚ := none

namespace AirtimeBudget

def maxMs (b : AirtimeBudget) : ℚ :=
  match b.duty with
  | none => 0
  | some duty => budgetWindowMs * duty

/-- A new duty starts with a full bucket. -/
def configure (b : AirtimeBudget) (duty : Option ℚ) (now : ℚ) : AirtimeBudget :=
  if duty ≠ b.duty then
    { duty := duty, tokensMs := ({ b with duty := duty } : AirtimeBudget).maxMs, last := some now }
  else b

def refill (b : AirtimeBudget) (now : ℚ) : AirtimeBudget :=
  match b.last with
  | none => { b with last := some now }
  | some last =>
    match b.duty with
    | none => b
    | some duty =>
      -- a duty of zero is falsy, like no duty
      if now > last ∧ duty ≠ 0 then
        { b with tokensMs := min b.maxMs (b.tokensMs + (now - last) * 1000 * duty)
                 last := some now }
      else b

def consume (b : AirtimeBudget) (now airtimeMs : ℚ) : AirtimeBudget :=
  let b := b.refill now
  { b with tokensMs := max 0 (b.tokensMs - airtimeMs) }

/-- Percent of the bucket in use, `none` without a budget. -/
def usedPercent (b : AirtimeBudget) (now : ℚ) : AirtimeBudget × Option ℤ :=
  if b.maxMs = 0 then (b, none)
  else
    let b := b.refill now
    let used := 1 - b.tokensMs / b.maxMs
    (b, some (max 0 (min 100 (pyInt (used * 100 + 1 / 2)))))

end AirtimeBudget

/-!
## Facts and decisions (`app/services/host_repeater_engine.py`)

The packet constants, what the host knows about a received frame, and what the
engine answers.
-/

open RtfmEv.Lib RtfmEv.PathUtils

abbrev routeTransportFlood : ℕ := 0
abbrev routeFlood : ℕ := 1
abbrev routeDirect : ℕ := 2
abbrev routeTransportDirect : ℕ := 3

abbrev ptReq : ℕ := 0x00
abbrev ptResponse : ℕ := 0x01
abbrev ptTxtMsg : ℕ := 0x02
abbrev ptAck : ℕ := 0x03
abbrev ptAdvert : ℕ := 0x04
abbrev ptGrpTxt : ℕ := 0x05
abbrev ptGrpData : ℕ := 0x06
abbrev ptAnonReq : ℕ := 0x07
abbrev ptPath : ℕ := 0x08
abbrev ptTrace : ℕ := 0x09
abbrev ptMultipart : ℕ := 0x0A
abbrev ptControl : ℕ := 0x0B

/-- Payload types that are flood-routed at all. -/
def floodForwardedTypes : List ℕ :=
  [ptAck, ptPath, ptReq, ptResponse, ptTxtMsg, ptAnonReq, ptGrpTxt, ptGrpData, ptAdvert]

/-- Types whose payload starts with destination and source hash. -/
def peerTypes : List ℕ := [ptPath, ptReq, ptResponse, ptTxtMsg]

abbrev maxRawSendLen : ℕ := 174
abbrev payloadVer1 : ℕ := 0
abbrev cipherMacSize : ℕ := 2
abbrev pubKeySize : ℕ := 32
abbrev signatureSize : ℕ := 64
abbrev multipartAckSpacingMs : ℕ := 300
abbrev seenTableMax : ℕ := 1000

inductive ForwardKind
  | flood
  | direct
  | trace
  | ack
  | multipartAck
  deriving DecidableEq

inductive DropReason
  | malformed
  | unsupportedVersion
  | noIdentity
  | noRadio
  | policyDrop
  | typeNotForwarded
  | zeroHop
  | notNextHop
  | traceEnd
  | controlZeroHop
  | multipartUnsupported
  | duplicate
  | ownOrigin
  | badSignature
  | forUs
  | unscopedDenied
  | unknownRegion
  | regionDenied
  | regionGated
  | floodMax
  | loop
  | pathFull
  | filterHash
  | filterPath
  | filterHops
  | filterAdvert
  | filterChannel
  | filterMalformed
  | filterAge
  | filterSender
  | filterText
  | filterRate
  | advertRate
  | tooLarge
  | dutyCycle
  deriving DecidableEq

/-- The reasons of the packet filter. -/
def DropReason.isFilter : DropReason → Bool
  | .filterHash => true
  | .filterPath => true
  | .filterHops => true
  | .filterAdvert => true
  | .filterChannel => true
  | .filterMalformed => true
  | .filterAge => true
  | .filterSender => true
  | .filterText => true
  | .filterRate => true
  | _ => false

/-- Drops whose airtime counts as saved. -/
def DropReason.savesAirtime (r : DropReason) : Bool :=
  r = .policyDrop || r.isFilter || r = .advertRate

/-- The reason text of a decision: how it forwards, or why it drops. -/
inductive Reason
  | kind (k : ForwardKind)
  | drop (r : DropReason)
  deriving DecidableEq

/-- What the host pipeline knows about a frame besides its bytes. -/
structure RxFacts where
  snr : Option ℚ := none
  rssi : Option ℤ := none
  forUs : Bool := false
  ownOrigin : Bool := false
  region : Option String := none
  aclHashes : List ℕ := []
  channelDecryptable : Bool := false
  channelSender : Option String := none
  channelMessageBody : Option String := none
  channelName : Option String := none

structure Decision where
  forward : Bool
  reason : Reason
  packetHash : String
  payloadType : Option ℕ
  routeType : Option ℕ
  hopCount : Option ℕ
  rxLen : ℕ
  forwarded : Option Bytes := none
  priority : Option ℕ := none
  delayMs : Option ℚ := none
  airtimeMs : Option ℚ := none
  policyAction : Option PolicyAction := none
  policyRuleId : Option String := none
  policyPasses : List String := []
  savedAirtimeMs : Option ℚ := none
  score : Option ℚ := none
  filterDryrun : Option DropReason := none

/-- The lower-case hexadecimal text of the first eight digest bytes over the
payload type, the path byte of a TRACE, and the payload. -/
def packetHash (P : Primitives) (payloadType : ℕ) (payload : Bytes)
    (pathByte : Option ℕ := none) : String :=
  let trace := match pathByte with
    | some b => if payloadType = ptTrace then [UInt8.ofNat b] else []
    | none => []
  String.ofList ((toHex (P.sha256 (UInt8.ofNat payloadType :: trace ++ payload))).take 16)

def encodePathByte (hashSize hopCount : ℕ) : ℕ := (hashSize - 1) <<< 6 ||| (hopCount &&& 0x3F)

/-- Header byte plus the transport block when present, unchanged. -/
def headerAndCodes (raw : Bytes) (env : ParsedPacketEnvelope) : Bytes :=
  raw.take (if env.transportCodes.isSome then 5 else 1)

end RtfmEv.HostRepeater
