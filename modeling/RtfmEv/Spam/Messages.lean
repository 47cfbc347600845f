import RtfmEv.Spam.Ledger

/-!
# What a step does to the messages

Most steps of a call leave the messages in the window as they are. Looking for campaigns and
matching change what is noted on them, and settling marks them. A message without these notes
is its core, and everything but settling keeps the cores in their order.
-/

namespace RtfmEv.Spam

open RtfmEv.Lib

/-- A message without what campaigns and matches note on it. -/
def Event.core (e : Event) : Event :=
  { e with matched := none, forgivable := false, campaign := none }

theorem Event.core_campaign (e : Event) (campaign : Option ℕ) :
    ({ e with campaign := campaign } : Event).core = e.core := rfl

namespace Detector

/-- The same messages, settings and clock. -/
structure SameEvents (d d' : Detector) : Prop where
  events : d'.events = d.events
  nextEvent : d'.nextEvent = d.nextEvent
  config : d'.config = d.config
  clock : d'.clock = d.clock

/-- The same messages apart from their notes. -/
structure SameMessages (d d' : Detector) : Prop where
  cores : d'.events.map Event.core = d.events.map Event.core
  nextEvent : d'.nextEvent = d.nextEvent
  config : d'.config = d.config
  clock : d'.clock = d.clock

namespace SameEvents

variable (d : Detector) (e : Event)

theorem refl : SameEvents d d := ⟨rfl, rfl, rfl, rfl⟩

theorem trans {d d' d'' : Detector} (h : SameEvents d d') (h' : SameEvents d' d'') :
    SameEvents d d'' where
  events := h'.events.trans h.events
  nextEvent := h'.nextEvent.trans h.nextEvent
  config := h'.config.trans h.config
  clock := h'.clock.trans h.clock

theorem messages {d d' : Detector} (h : SameEvents d d') : SameMessages d d' where
  cores := by rw [h.events]
  nextEvent := h.nextEvent
  config := h.config
  clock := h.clock

theorem foldl {α : Type} {f : Detector → α → Detector} (hf : ∀ d x, SameEvents d (f d x))
    (xs : List α) (d : Detector) : SameEvents d (xs.foldl f d) := by
  induction xs generalizing d with
  | nil => exact refl d
  | cons x xs ih => exact (hf d x).trans (ih _)

theorem stepIf {f : Detector → Detector} (hf : ∀ d, SameEvents d (f d)) (on : Bool)
    (d : Detector) : SameEvents d (d.stepIf on f) := by
  cases on with
  | true => exact hf d
  | false => exact refl d

/-! ### Orders and blocks -/

theorem want (o : BlockOrder) : SameEvents d (d.want o) := by
  unfold Detector.want addBlock
  split_ifs
  · exact refl d
  · exact refl d
  · cases d.blocks.get? o.key with
    | none => exact ⟨rfl, rfl, rfl, rfl⟩
    | some b =>
      show SameEvents d (if _ then d.setBlock o.key _ else d)
      split_ifs
      · exact ⟨rfl, rfl, rfl, rfl⟩
      · exact refl d

theorem wantAll (orders : List BlockOrder) : SameEvents d (d.wantAll orders) :=
  foldl want orders d

theorem correctCampaigns (longWindow : List Event) (now : ℚ) :
    SameEvents d (d.correctCampaigns longWindow now) := by
  apply foldl
  intro acc entry
  split_ifs
  · exact ⟨rfl, rfl, rfl, rfl⟩
  · exact refl acc

theorem learnPath : SameEvents d (d.learnPath e) := by
  unfold Detector.learnPath
  split_ifs
  · exact refl d
  · cases d.blocks.get? ("hop:" ++ e.firstHop) with
    | none => exact refl d
    | some b =>
      show SameEvents d (if _ then d else d.setBlock _ _)
      split_ifs
      · exact refl d
      · exact ⟨rfl, rfl, rfl, rfl⟩

theorem recordHome : SameEvents d (d.recordHome e) := by
  unfold Detector.recordHome
  split_ifs
  · exact refl d
  · exact ⟨rfl, rfl, rfl, rfl⟩

theorem learnSender : SameEvents d (d.learnSender e) := by
  unfold Detector.learnSender
  split_ifs
  · exact refl d
  · exact refl d
  · exact ⟨rfl, rfl, rfl, rfl⟩

theorem learnRoute : SameEvents d (d.learnRoute e) := by
  unfold Detector.learnRoute
  split_ifs
  · exact refl d
  · exact ⟨rfl, rfl, rfl, rfl⟩

theorem allowOriginOf : SameEvents d (d.allowOriginOf e) := by
  unfold Detector.allowOriginOf
  split_ifs
  · exact refl d
  · extract_lets key
    cases d.blocks.get? key with
    | none => exact refl d
    | some b =>
      show SameEvents d (if _ then d else d.setBlock _ _)
      split_ifs
      · exact refl d
      · exact ⟨rfl, rfl, rfl, rfl⟩

theorem holdLinks (now : ℚ) : SameEvents d (d.holdLinks now) := by
  have hdrop : SameEvents d d.dropOldLinks := by
    unfold dropOldLinks
    split_ifs
    · exact ⟨rfl, rfl, rfl, rfl⟩
    · exact refl d
  exact hdrop.trans (wantAll _ _)

theorem hitBlock (b : Block) (ts : ℚ) : SameEvents d (d.hitBlock b ts) := by
  unfold Detector.hitBlock
  cases d.blocks.entries.find? (fun entry => entry.2 = b) with
  | none => exact refl d
  | some entry => exact ⟨rfl, rfl, rfl, rfl⟩

theorem afterSettle (tun : SpamTunables) (now : ℚ) :
    SameEvents d (d.afterSettle tun now) := by
  unfold Detector.afterSettle
  extract_lets rotation links floods
  have hrotation : SameEvents d rotation :=
    stepIf (fun d => (wantAll d _).trans (foldl allowOriginOf _ _)) _ _
  have hlinks : SameEvents rotation links := holdLinks rotation now
  have hfloods : SameEvents links floods := stepIf (fun d => wantAll d _) _ _
  have hexpired : SameEvents floods ((floods.expire now).forgetOld now) := ⟨rfl, rfl, rfl, rfl⟩
  exact ((hrotation.trans hlinks).trans hfloods).trans hexpired

end SameEvents

namespace SameMessages

variable (d : Detector)

theorem refl : SameMessages d d := ⟨rfl, rfl, rfl, rfl⟩

theorem trans {d d' d'' : Detector} (h : SameMessages d d') (h' : SameMessages d' d'') :
    SameMessages d d'' where
  cores := h'.cores.trans h.cores
  nextEvent := h'.nextEvent.trans h.nextEvent
  config := h'.config.trans h.config
  clock := h'.clock.trans h.clock

theorem of_events {d : Detector} {f : Event → Event} (hf : ∀ e : Event, (f e).core = e.core) :
    SameMessages d { d with events := d.events.map f } := by
  refine ⟨?_, rfl, rfl, rfl⟩
  show (d.events.map f).map Event.core = _
  rw [List.map_map]
  apply List.map_congr_left
  intro e _
  rw [Function.comp_apply]
  exact hf e

theorem withCampaigns (now : ℚ) : SameMessages d (d.withCampaigns now) := by
  refine ⟨?_, rfl, rfl, rfl⟩
  show (d.events.map _).map Event.core = _
  rw [List.map_map]
  apply List.map_congr_left
  intro e _
  rw [Function.comp_apply]
  split
  · exact Event.core_campaign e _
  · rfl

theorem matchEvent (e : Event) : SameMessages d (d.matchEvent e) := by
  unfold Detector.matchEvent
  cases d.catching e with
  | none => exact refl d
  | some b =>
    have hupdate : SameMessages d (d.updateEvent e.id (d.caughtEvent b)) := by
      apply of_events
      intro e'
      split_ifs <;> rfl
    exact hupdate.trans (SameEvents.hitBlock _ b e.ts).messages

theorem rematch (judged : Option Event) : SameMessages d (d.rematch judged) := by
  unfold Detector.rematch
  cases judged with
  | none => exact refl d
  | some e =>
    show SameMessages d (if _ then d else _)
    split_ifs
    · exact refl d
    · exact matchEvent d _

theorem beforeSettle (P : Primitives) (T : TextTools) (judged : Option Event)
    (freshSeconds : ℚ) : SameMessages d (d.beforeSettle P T judged freshSeconds) := by
  unfold Detector.beforeSettle
  extract_lets now campaigns corrected tun duplicates repeats repeaters
  have hcampaigns : SameMessages d campaigns :=
    (withCampaigns d now).trans (SameEvents.stepIf (fun d => .wantAll d _) _ _).messages
  have hcorrected : SameEvents campaigns corrected := .correctCampaigns _ _ _
  have hduplicates : SameEvents corrected duplicates := .stepIf (fun d => .wantAll d _) _ _
  have hrepeats : SameEvents duplicates repeats := .stepIf (fun d => .wantAll d _) _ _
  have hrepeaters : SameEvents repeats repeaters := .stepIf (fun d => .wantAll d _) _ _
  have hlearnt : SameEvents repeaters (repeaters.learnPaths (repeaters.longEvents now)) :=
    .foldl .learnPath _ _
  exact hcampaigns.trans
    ((((hcorrected.trans hduplicates).trans hrepeats).trans hrepeaters).trans hlearnt).messages

end SameMessages

/-! ### Settling -/

/-- One message is marked, if it settles. -/
theorem settleOne_events (d : Detector) (now : ℚ) (e : Event) :
    (d.settleOne now e).events =
      if Ledger.settles now e then
        d.events.map (fun other => if other.id = e.id then { other with settled := true } else other)
      else d.events := by
  have hsettles : Ledger.settles now e =
      !(e.settled || Decidable.decide (now - e.ts < settleSeconds)) := rfl
  unfold settleOne
  by_cases h : (e.settled || Decidable.decide (now - e.ts < settleSeconds)) = true
  · rw [if_pos h, hsettles, h, if_neg (by decide)]
  · rw [if_neg h, hsettles, Bool.eq_false_of_not_eq_true h, if_pos (by decide),
      (SameEvents.learnRoute _ e).events, (SameEvents.learnSender _ e).events,
      (SameEvents.recordHome _ e).events]
    rfl

theorem settleOne_rest (d : Detector) (now : ℚ) (e : Event) :
    (d.settleOne now e).nextEvent = d.nextEvent ∧ (d.settleOne now e).config = d.config ∧
      (d.settleOne now e).clock = d.clock := by
  unfold settleOne
  split_ifs
  · exact ⟨rfl, rfl, rfl⟩
  · have hlearnt := ((SameEvents.recordHome
      (d.updateEvent e.id (fun e => { e with settled := true })) e).trans
        (SameEvents.learnSender _ e)).trans (SameEvents.learnRoute _ e)
    exact ⟨hlearnt.nextEvent, hlearnt.config, hlearnt.clock⟩

/-- **Settling marks the messages that settle.** -/
theorem settle_events (d : Detector) (events : List Event) (now : ℚ) :
    (d.settle events now).events = d.events.map (fun other =>
      if events.any (fun e => Ledger.settles now e && e.id == other.id) then
        { other with settled := true }
      else other) := by
  unfold settle
  induction events generalizing d with
  | nil =>
    show d.events = d.events.map (fun other => other)
    rw [List.map_id']
  | cons e events ih =>
    rw [List.foldl_cons, ih, settleOne_events]
    by_cases hsettles : Ledger.settles now e = true
    · rw [if_pos hsettles, List.map_map]
      apply List.map_congr_left
      intro other _
      rw [Function.comp_apply, List.any_cons, hsettles, Bool.true_and]
      by_cases hid : other.id = e.id
      · have hbeq : (e.id == other.id) = true := by
          rw [hid]
          exact beq_self_eq_true _
        rw [if_pos hid, hbeq, Bool.true_or, if_pos rfl]
        split <;> rfl
      · have hbeq : (e.id == other.id) = false := by
          rw [beq_eq_false_iff_ne]
          exact fun heq => hid heq.symm
        rw [if_neg hid, hbeq, Bool.false_or]
    · rw [if_neg hsettles]
      apply List.map_congr_left
      intro other _
      rw [List.any_cons, Bool.eq_false_of_not_eq_true hsettles, Bool.false_and, Bool.false_or]

theorem settle_rest (d : Detector) (events : List Event) (now : ℚ) :
    (d.settle events now).nextEvent = d.nextEvent ∧ (d.settle events now).config = d.config ∧
      (d.settle events now).clock = d.clock := by
  unfold settle
  induction events generalizing d with
  | nil => exact ⟨rfl, rfl, rfl⟩
  | cons e events ih =>
    obtain ⟨hnext, hconfig, hclock⟩ := ih (d.settleOne now e)
    obtain ⟨hnext', hconfig', hclock'⟩ := d.settleOne_rest now e
    exact ⟨hnext.trans hnext', hconfig.trans hconfig', hclock.trans hclock'⟩

end Detector

/-!
## The numbers of an hour (`_settle`, `_outcome`, `_count`, `DecideResult.settled`)

A message that settles is counted in its hour and, if it is stored, reported in the result of
the call. Here the detector with its counters is run with any readings of the clock, which may
be set back. The numbers of an hour are compared with the messages that settled.
-/

/-- How one stored message was counted when it settled. -/
structure SettledOutcome where
  messageId : ℕ
  outcome : Outcome
  /-- the source of the block that caught it, if that block was still there -/
  block : Option BlockSource
  enforced : Bool
  deriving DecidableEq

/-- The detector with its counters, the caller's marks on its messages, the outcomes that are
waiting for a result, and the outcomes in the result of the last call. -/
structure Accounts where
  ledger : Ledger
  enforced : List ℕ := []
  settled : List SettledOutcome := []
  result : List SettledOutcome := []

/-- A message that settles, with how it counts. -/
structure Settlement where
  event : Event
  messageId : Option ℕ
  outcome : Outcome
  block : Option BlockSource
  enforced : Bool

/-- What is reported of it. -/
def Settlement.report (r : Settlement) : Option SettledOutcome :=
  r.messageId.map (fun id => ⟨id, r.outcome, r.block, r.enforced⟩)

/-- The hour that it counts in. -/
def Settlement.hour (r : Settlement) : ℤ := Ledger.hourOf r.event.ts

namespace Accounts

/-! #### Calls -/

/-- One message as it settles in some state of the detector. -/
def settlement (s : Accounts) (d : Detector) (e : Event) : Settlement where
  event := e
  messageId := (s.ledger.noteOf e).messageId
  outcome := d.outcome e
  block := (d.matchedBlock e).map Block.source
  enforced := s.enforced.contains e.id

/-- `_settled` after some messages settled. -/
def settleAll (s : Accounts) (now : ℚ) : Detector → List Event → List SettledOutcome →
    List SettledOutcome
  | _, [], settled => settled
  | d, e :: rest, settled =>
    settleAll s now (d.settleOne now e) rest
      (if Ledger.settles now e then settled ++ (s.settlement d e).report.toList else settled)

/-- `decide`; what it settled goes into its result. -/
def decide (P : Primitives) (T : TextTools) (judged : Option Event) (freshSeconds : ℚ)
    (s : Accounts) : Accounts :=
  let now := s.ledger.detector.clock
  let before := s.ledger.detector.beforeSettle P T judged freshSeconds
  { s with
    ledger := s.ledger.decide P T judged freshSeconds
    settled := []
    result := s.settleAll now before (before.longEvents now) s.settled }

/-- A reading of the clock. -/
def at_ (s : Accounts) (now : ℚ) : Accounts :=
  { s with
    ledger := { s.ledger with detector := { s.ledger.detector with clock := now } }
    result := [] }

def mark (s : Accounts) (id : ℕ) (enforced : Bool) : Accounts :=
  { s with
    enforced := if enforced then id :: s.enforced else s.enforced.filter (· ≠ id)
    result := [] }

/-- A detector that has seen nothing. -/
def start (config : SpamConfig) (now : ℚ) : Accounts := { ledger := Ledger.start config now }

end Accounts

/-- The calls, with the clock's reading, and the caller's mark that a block is enforced on a
message. -/
inductive AccountOp
  | ingest (now : ℚ) (m : Detector.Message) (messageId : Option ℕ)
  | decide (now : ℚ) (judged : Option Event) (freshSeconds : ℚ)
  | mark (id : ℕ) (enforced : Bool)

def AccountOp.apply (P : Primitives) (T : TextTools) (s : Accounts) : AccountOp → Option Accounts
  | .ingest now m messageId =>
    some { s.at_ now with ledger := (s.at_ now).ledger.ingest T m messageId }
  | .decide now judged freshSeconds => some ((s.at_ now).decide P T judged freshSeconds)
  | .mark id enforced => some (s.mark id enforced)

abbrev AccountEvent := Lib.Event Accounts AccountOp

def AccountStep (P : Primitives) (T : TextTools) (s : Accounts) (op : AccountOp)
    (s' : Accounts) : Prop := op.apply P T s = some s'

/-! #### What settles -/

/-- The messages that settle in a call, with how they count. -/
def settledIn (P : Primitives) (T : TextTools) (ev : AccountEvent) : List Settlement :=
  match ev.label with
  | .decide now judged freshSeconds =>
    let s := ev.pre.at_ now
    let before := s.ledger.detector.beforeSettle P T judged freshSeconds
    ((before.longEvents now).filter (Ledger.settles now)).map (s.settlement before)
  | _ => []

/-- The messages that settled in the calls so far, in their order. -/
def settledSoFar (P : Primitives) (T : TextTools) (h : List AccountEvent) : List Settlement :=
  h.flatMap (settledIn P T)

/-- The hours that are kept after one more message: its own is opened, and of too many the
newest stay, when the message is spam. -/
def keepHour (kept : List ℤ) (r : Settlement) : List ℤ :=
  let kept := if r.hour ∈ kept then kept else kept ++ [r.hour]
  if r.outcome.isSpam ∧ historyHours + 8 < kept.length then
    kept.filter (fun k =>
      !((kept.insertionSort (· ≤ ·)).take (kept.length - historyHours)).contains k)
  else kept

def keptHours (settled : List Settlement) : List ℤ := settled.foldl keepHour []

/-- The counters of an hour are those of some messages, and its tables add up to them. -/
structure Hour.Counts (hour : Hour) (settled : List Settlement) : Prop where
  messages : hour.messages = settled.length
  stopped : hour.stopped = settled.countP (fun r => r.outcome = .stopped)
  letThrough : hour.letThrough = settled.countP (fun r => r.outcome = .letThrough)
  heldGenuine : hour.heldGenuine = settled.countP (fun r => r.outcome = .held)
  channelMessages : hour.channels.total ChannelCounts.messages = hour.messages
  channelStopped : hour.channels.total ChannelCounts.stopped = hour.stopped
  channelLetThrough : hour.channels.total ChannelCounts.letThrough = hour.letThrough
  hops : hour.hops.total id = hour.stopped + hour.letThrough

/-! #### One more message -/

theorem Hour.counts_empty : ({} : Hour).Counts [] :=
  ⟨rfl, rfl, rfl, rfl, rfl, rfl, rfl, rfl⟩

theorem countP_concat_outcome (settled : List Settlement) (r : Settlement) (o : Outcome) :
    (settled ++ [r]).countP (fun r => r.outcome = o) =
      if r.outcome = o then settled.countP (fun r => r.outcome = o) + 1
      else settled.countP (fun r => r.outcome = o) := by
  rw [List.countP_append, List.countP_singleton]
  simp only [decide_eq_true_eq]
  split_ifs <;> rfl

/-- **One more message in an hour keeps its numbers right.** -/
theorem Hour.Counts.next {hour : Hour} {settled : List Settlement} (h : hour.Counts settled)
    (r : Settlement) :
    (Ledger.countOutcome r.outcome r.event hour).Counts (settled ++ [r]) := by
  have hchannel := fun f => OrderedDict.total_set f hour.channels r.event.channel
    (Ledger.countChannel r.outcome ((hour.channels.get? r.event.channel).getD {}))
  have hhop := OrderedDict.total_set id hour.hops r.event.firstHop
    ((hour.hops.get? r.event.firstHop).getD 0 + 1)
  have hprevious : ∀ f : ChannelCounts → ℕ, f {} = 0 →
      ((hour.channels.get? r.event.channel).map f).getD 0 =
        f ((hour.channels.get? r.event.channel).getD {}) := by
    intro f hf
    cases hour.channels.get? r.event.channel with
    | none => exact hf.symm
    | some counts => rfl
  have hpreviousHop : ((hour.hops.get? r.event.firstHop).map id).getD 0 =
      (hour.hops.get? r.event.firstHop).getD 0 := by
    rw [Option.map_id_fun, id]
  have hmessages := hchannel ChannelCounts.messages
  have hstopped := hchannel ChannelCounts.stopped
  have hlet := hchannel ChannelCounts.letThrough
  rw [hprevious _ rfl] at hmessages hstopped hlet
  rw [hpreviousHop] at hhop
  have hm := h.channelMessages
  have hs := h.channelStopped
  have hl := h.channelLetThrough
  have hh := h.hops
  refine ⟨?_, ?_, ?_, ?_, ?_, ?_, ?_, ?_⟩
  · show hour.messages + 1 = _
    rw [h.messages, List.length_append, List.length_singleton]
  · rw [countP_concat_outcome, ← h.stopped]
    rfl
  · rw [countP_concat_outcome, ← h.letThrough]
    rfl
  · rw [countP_concat_outcome, ← h.heldGenuine]
    rfl
  · show (hour.channels.set _ _).total ChannelCounts.messages = hour.messages + 1
    simp only [Ledger.countChannel] at hmessages ⊢
    omega
  · show (hour.channels.set _ _).total ChannelCounts.stopped =
      if r.outcome = .stopped then hour.stopped + 1 else hour.stopped
    simp only [Ledger.countChannel] at hstopped ⊢
    split_ifs at hstopped ⊢ <;> omega
  · show (hour.channels.set _ _).total ChannelCounts.letThrough =
      if r.outcome = .letThrough then hour.letThrough + 1 else hour.letThrough
    simp only [Ledger.countChannel] at hlet ⊢
    split_ifs at hlet ⊢ <;> omega
  · show (if r.outcome.isSpam then hour.hops.set _ _ else hour.hops).total id =
      (if r.outcome = .stopped then hour.stopped + 1 else hour.stopped) +
        (if r.outcome = .letThrough then hour.letThrough + 1 else hour.letThrough)
    simp only [id] at hhop
    cases r.outcome with
    | clean => exact hh
    | held => exact hh
    | stopped =>
      show (hour.hops.set _ _).total id = hour.stopped + 1 + hour.letThrough
      omega
    | letThrough =>
      show (hour.hops.set _ _).total id = hour.stopped + (hour.letThrough + 1)
      omega

end RtfmEv.Spam
