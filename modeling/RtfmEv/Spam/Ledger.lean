import RtfmEv.Lib.Run
import RtfmEv.Lib.Table
import RtfmEv.Spam.Actions

/-!
# What the detector counts and reports (`_outcome`, `_count`, `_collect_flags`)

Beside its blocks the detector keeps counters for each hour in which a message
settled, and the messages that it has reported as spam or as repeats. They follow
from the detector and never change what it decides. What `decide` returns is left
out, and what only the pages of the hours read.
-/

namespace RtfmEv.Spam

open RtfmEv.Lib

abbrev historyHours : ℕ := 8 * 24
abbrev maxFlagged : ℕ := 5000

inductive Outcome
  | clean
  | stopped
  | letThrough
  | held
  deriving DecidableEq

/-- Spam, whether it was stopped or not. -/
def Outcome.isSpam : Outcome → Bool
  | .stopped => true
  | .letThrough => true
  | _ => false

structure ChannelCounts where
  messages : ℕ := 0
  stopped : ℕ := 0
  letThrough : ℕ := 0

/-- The counters of an hour. -/
structure Hour where
  messages : ℕ := 0
  stopped : ℕ := 0
  letThrough : ℕ := 0
  heldGenuine : ℕ := 0
  airtimeMs : ℚ := 0
  hops : OrderedDict String ℕ := .empty
  last : OrderedDict String ℚ := .empty
  channels : OrderedDict String ChannelCounts := .empty

/-- What a message carries for the reports. -/
structure Note where
  messageId : Option ℕ := none
  malformed : Bool := false
  spam : Bool := false
  duplicate : Bool := false

namespace Detector

variable (d : Detector)

/-- Blocks that hold people back rather than a text. -/
def peopleKind (b : Block) : Bool := !b.body.isOpinion

def outcome (e : Event) : Outcome :=
  let spammy := e.random || (d.campaignOf e).any Campaign.strong
  if e.matched.any (fun key => key ≠ "") then
    if (d.matchedBlock e).any peopleKind && !spammy then .held else .stopped
  else if spammy then .letThrough
  else .clean

/-! ### The steps of `decide` around `_settle` -/

/-- The detector in which `decide` settles messages. -/
def beforeSettle (P : Primitives) (T : TextTools) (judged : Option Event) (freshSeconds : ℚ) :
    Detector :=
  let now := d.clock
  let d := d.decideCampaigns P T now
  let d := d.correctCampaigns (d.longEvents now) now
  let tun := d.tunables
  let d := d.stepIf tun.dedupeEnabled
    (fun d => d.blockDuplicates P T (judged.map Event.id) freshSeconds now)
  let d := d.stepIf tun.repeatGuard (fun d => d.blockRepeats P T now)
  let d := d.stepIf tun.enableHopRules (fun d => d.blockRepeaters now)
  d.learnPaths (d.longEvents now)

/-- The steps after it, up to the match of the message that is judged. -/
def afterSettle (tun : SpamTunables) (now : ℚ) : Detector :=
  let d := d.stepIf tun.enableRotationGuard (fun d => d.blockRotation (d.windowEvents now))
  let d := d.holdLinks now
  let d := d.stepIf tun.autoLockdown (fun d => d.autoLockdown now)
  (d.expire now).forgetOld now

/-- The detector in which `decide` matches the message that is judged. -/
def beforeRematch (P : Primitives) (T : TextTools) (judged : Option Event) (freshSeconds : ℚ) :
    Detector :=
  let now := d.clock
  let corrected := (d.decideCampaigns P T now).correctCampaigns
    ((d.decideCampaigns P T now).longEvents now) now
  let before := d.beforeSettle P T judged freshSeconds
  (before.settle (before.longEvents now) now).afterSettle corrected.tunables now

theorem decide_eq (P : Primitives) (T : TextTools) (judged : Option Event) (freshSeconds : ℚ) :
    d.decide P T judged freshSeconds =
      (d.beforeRematch P T judged freshSeconds).rematch judged := rfl

/-- The detector in which `ingest` matches a message. -/
def heard (T : TextTools) (m : Message) : Detector :=
  { d with
    senders := d.countSender (d.eventOf T m)
    events := d.events ++ [d.eventOf T m]
    nextEvent := d.nextEvent + 1 }

theorem ingest_eq (T : TextTools) (m : Message) :
    d.ingest T m = ((d.heard T m).matchEvent (d.eventOf T m)).trimEvents := rfl

/-- What a match says about the message. -/
def matchNote (e : Event) (note : Note) : Note :=
  match d.catching e with
  | none => note
  | some b =>
    { note with
      duplicate := b.source = .dedupe || b.source = .repeat
      spam :=
        if b.body.isOpinion then b.source = .campaign || b.source = .manual
        else if b.body.isHop || b.body.isSuffix then e.random
        else note.spam }

end Detector

/-- The detector with its counters and reports. -/
structure Ledger where
  detector : Detector
  hours : OrderedDict ℤ Hour := .empty
  flagged : List ℕ := []
  duplicated : List ℕ := []
  notes : Table ℕ Note := .empty

namespace Ledger

/-! ### Hours -/

/-- The start of the hour of a message. -/
def hourOf (ts : ℚ) : ℤ := ⌊ts / 3600⌋ * 3600

def countChannel (o : Outcome) (c : ChannelCounts) : ChannelCounts :=
  { messages := c.messages + 1
    stopped := if o = .stopped then c.stopped + 1 else c.stopped
    letThrough := if o = .letThrough then c.letThrough + 1 else c.letThrough }

/-- One more message in an hour. -/
def countOutcome (o : Outcome) (e : Event) (hour : Hour) : Hour :=
  { messages := hour.messages + 1
    stopped := if o = .stopped then hour.stopped + 1 else hour.stopped
    letThrough := if o = .letThrough then hour.letThrough + 1 else hour.letThrough
    heldGenuine := if o = .held then hour.heldGenuine + 1 else hour.heldGenuine
    airtimeMs := hour.airtimeMs
    hops :=
      if o.isSpam then hour.hops.set e.firstHop ((hour.hops.get? e.firstHop).getD 0 + 1)
      else hour.hops
    last :=
      if o.isSpam then
        hour.last.set e.firstHop (max ((hour.last.get? e.firstHop).getD 0) e.ts)
      else hour.last
    channels :=
      hour.channels.set e.channel
        (countChannel o ((hour.channels.get? e.channel).getD {})) }

/-- The newest hours are kept. -/
def prune (hours : OrderedDict ℤ Hour) : OrderedDict ℤ Hour :=
  if historyHours + 8 < hours.size then
    let stale := (hours.keys.insertionSort (· ≤ ·)).take (hours.size - historyHours)
    hours.eraseIf (fun entry => stale.contains entry.1)
  else hours

/-- `_count`. Old hours are pruned only for spam. -/
def count (d : Detector) (e : Event) (hours : OrderedDict ℤ Hour) : OrderedDict ℤ Hour :=
  let o := d.outcome e
  let hours := hours.set (hourOf e.ts) (countOutcome o e ((hours.get? (hourOf e.ts)).getD {}))
  if o.isSpam then prune hours else hours

/-- The message settles now. -/
def settles (now : ℚ) (e : Event) : Bool := !(e.settled || decide (now - e.ts < settleSeconds))

/-- The counters after some messages settled. -/
def countAll (now : ℚ) (d : Detector) : List Event → OrderedDict ℤ Hour → OrderedDict ℤ Hour
  | [], hours => hours
  | e :: rest, hours =>
    countAll now (d.settleOne now e) rest (if settles now e then count d e hours else hours)

/-! ### Reports -/

/-- Add messages that were not reported yet, and forget the oldest. -/
def report (reported : List ℕ) (ids : List ℕ) : List ℕ :=
  let all := ids.foldl (fun reported id => if id ∈ reported then reported else reported ++ [id])
    reported
  all.drop (all.length - maxFlagged)

/-- What makes `_collect_flags` report a message. -/
def flags (d : Detector) (e : Event) (note : Note) : Bool :=
  let trusted := d.allowSenders.contains e.sender
  note.spam || ((d.campaignOf e).any Campaign.confirmed && !trusted) ||
    (note.malformed && d.tunables.malformedSignal && !e.exempt && !trusted)

def noteOf (s : Ledger) (e : Event) : Note := (s.notes.get e.id).getD {}

def collectFlags (events : List Event) (s : Ledger) : Ledger :=
  { s with
    flagged := report s.flagged ((events.filter (fun e => flags s.detector e (s.noteOf e))).filterMap
      (fun e => (s.noteOf e).messageId)) }

def collectDuplicates (events : List Event) (s : Ledger) : Ledger :=
  { s with
    duplicated := report s.duplicated ((events.filter (fun e => (s.noteOf e).duplicate)).filterMap
      (fun e => (s.noteOf e).messageId)) }

/-! ### Calls -/

def ingest (T : TextTools) (m : Detector.Message) (messageId : Option ℕ) (s : Ledger) : Ledger :=
  let e := s.detector.eventOf T m
  let note := { messageId := messageId, malformed := m.malformed : Note }
  { s with
    detector := s.detector.ingest T m
    notes := s.notes.set e.id ((s.detector.heard T m).matchNote e note) }

/-- The note of the message that is judged, when `decide` matches it. -/
def rematchNote (d : Detector) (judged : Option Event) (s : Ledger) : Table ℕ Note :=
  match judged with
  | none => s.notes
  | some e =>
    let current := (d.events.find? (fun other => other.id = e.id)).getD e
    if current.matched.isSome then s.notes
    else s.notes.set current.id (d.matchNote current (s.noteOf current))

def decide (P : Primitives) (T : TextTools) (judged : Option Event) (freshSeconds : ℚ)
    (s : Ledger) : Ledger :=
  let now := s.detector.clock
  let before := s.detector.beforeSettle P T judged freshSeconds
  let decided := s.detector.decide P T judged freshSeconds
  let s := { s with
    hours := countAll now before (before.longEvents now) s.hours
    notes := s.rematchNote (s.detector.beforeRematch P T judged freshSeconds) judged
    detector := decided }
  (s.collectFlags (decided.longEvents now)).collectDuplicates (decided.longEvents now)

/-- `round(x, 1)`. -/
def roundTenth (x : ℚ) : ℚ :=
  let down := ⌊x * 10⌋
  let rest := x * 10 - down
  (if rest < 1 / 2 ∨ (rest = 1 / 2 ∧ down % 2 = 0) then (down : ℚ) else (down : ℚ) + 1) / 10

def addAirtime (ts airtimeMs : ℚ) (s : Ledger) : Ledger :=
  let hour := (s.hours.get? (hourOf ts)).getD {}
  { s with
    hours := s.hours.set (hourOf ts)
      { hour with airtimeMs := roundTenth (hour.airtimeMs + airtimeMs) } }

/-- A detector that has seen nothing. -/
def start (config : SpamConfig) (now : ℚ) : Ledger := { detector := Detector.start config now }

end Ledger

/-- The calls, with the time at which they are made. -/
inductive LedgerOp
  | ingest (now : ℚ) (m : Detector.Message) (messageId : Option ℕ)
  | decide (now : ℚ) (judged : Option Event) (freshSeconds : ℚ)
  | addAirtime (ts airtimeMs : ℚ)

/-- The clock does not go back. -/
def Ledger.at? (s : Ledger) (now : ℚ) : Option Ledger :=
  if s.detector.clock ≤ now then some { s with detector := { s.detector with clock := now } }
  else none

def LedgerOp.apply (P : Primitives) (T : TextTools) (s : Ledger) : LedgerOp → Option Ledger
  | .ingest now m messageId => (s.at? now).map (Ledger.ingest T m messageId)
  | .decide now judged freshSeconds => (s.at? now).map (Ledger.decide P T judged freshSeconds)
  | .addAirtime ts airtimeMs => some (s.addAirtime ts airtimeMs)

abbrev LedgerEvent := Lib.Event Ledger LedgerOp

def LedgerStep (P : Primitives) (T : TextTools) (s : Ledger) (op : LedgerOp) (s' : Ledger) : Prop :=
  op.apply P T s = some s'

end RtfmEv.Spam
