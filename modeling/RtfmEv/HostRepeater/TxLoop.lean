import RtfmEv.HostRepeater.Filter
import RtfmEv.Lib.TaskTable
import RtfmEv.Lib.Run

/-!
# The forward scheduler (`app/services/host_repeater_tx.py`)

The state of the armed mode with the tasks of the event loop, and the
operations that never give the event loop back: the arming checks, arming and
disarming, and the queue.
-/

namespace RtfmEv.HostRepeater

open RtfmEv.Lib

abbrev errCodeTableFull : ℤ := 3
abbrev lockRetrySeconds : ℚ := 25 / 1000
abbrev sendErrorWindow : ℕ := 50
abbrev sendErrorMinSamples : ℕ := 10
abbrev sendErrorRateDisarm : ℚ := 20 / 100
abbrev tableFullStreakDisarm : ℕ := 5
abbrev queueStuckSeconds : ℚ := 60
abbrev inFlightMarginMs : ℚ := 100
abbrev hourMs : ℚ := 3600000
abbrev rawSendMinVerCode : ℤ := 13

inductive ArmBlocker
  | envSwitchOff
  | adminSwitchOff
  | radioDisconnected
  | identityUnknown
  | rawSendUnsupported
  | firmwareRepeatOn
  | openhop
  | frequencyUnknown
  | subBandBelowMinimum
  | tempRadioSession
  deriving DecidableEq

inductive DisarmReason
  | user
  | radioDisconnected
  | firmwareRepeatOn
  | identityChanged
  | radioSettingsChanged
  | sendErrors
  | dutyCycleExceeded
  | queueStuck
  | shutdown
  deriving DecidableEq

structure ArmRefused where
  blockers : List ArmBlocker
  confirmMissing : Bool := false
  deriving DecidableEq

/-- Cached radio facts. -/
structure RadioSnapshot where
  connected : Bool
  publicKey : Option Bytes
  radio : Option RadioParams
  firmwareVerCode : Option ℤ
  deviceModel : Option String
  clientRepeat : Option Bool
  deriving DecidableEq

/-- `is_openhop` of `app/services/openhop.py`. -/
def isOpenhop (model : Option String) : Bool :=
  match model with
  | none => false
  | some m => textStartsWith (lowerAscii (strip m)) "openhop"

def RadioSnapshot.rawSendSupported (snap : RadioSnapshot) : Option Bool :=
  snap.firmwareVerCode.map (fun v => Decidable.decide (v ≥ rawSendMinVerCode))

/-- What the scheduler reads from its surroundings: the server switch, the
settings of the runtime and whether a temporary radio session is active. -/
structure Runtime where
  envEnabled : Bool
  settings : HostRepeaterSettings
  tempRadioSession : Bool

structure ForwardJob where
  forwarded : Bytes
  priority : ℕ
  arrival : ℚ
  sendAt : ℚ
  deadline : ℚ
  packetHash : String
  payloadType : String
  airtimeMs : ℚ
  lockRetries : ℕ := 0
  deriving DecidableEq

@[ext]
structure TxStats where
  sent : ℕ := 0
  sendErrors : ℕ := 0
  tableFull : ℕ := 0
  droppedQueueFull : ℕ := 0
  droppedTooLate : ℕ := 0
  droppedLockBusy : ℕ := 0
  droppedDisarmed : ℕ := 0
  lockRetries : ℕ := 0
  lastError : Option String := none
  lastSentAt : Option ℚ := none
  sentAirtimeMs : ℚ := 0

/-- Where a task gave the event loop back. The awaits of `_send` are inside a
tick, which goes on with the snapshot it was started with. -/
inductive TaskPhase
  | start
  | waiting
  | command (snap : RadioSnapshot) (job : ForwardJob)
  | lockSleep (snap : RadioSnapshot) (job : ForwardJob)
  deriving DecidableEq

/-- One job given to the radio: by a tick with which snapshot, and what the
repeater was armed with at that moment. -/
structure Handover where
  job : ForwardJob
  snap : RadioSnapshot
  armedKey : Option Bytes
  armedRadio : Option RadioParams

/-- The scheduler with `_task` and the tasks of the event loop in `loop`, the
tasks that a `stop` call is waiting for, and what the radio was given. -/
structure HostRepeaterTx where
  armed : Bool := false
  armedSince : Option ℚ := none
  disarmReason : Option DisarmReason := none
  stats : TxStats := {}
  armedKey : Option Bytes := none
  armedRadio : Option RadioParams := none
  pendingRearm : Bool := false
  queue : List ForwardJob := []
  inFlight : List ℚ := []
  errors : List Bool := []
  tableFullStreak : ℕ := 0
  queueFullSince : Option ℚ := none
  loop : TaskTable TaskPhase := {}
  stopping : List ℕ := []
  handed : List Handover := []

namespace HostRepeaterTx

/-! ### Preconditions -/

/-- Why arming is not possible right now. -/
def blockers (rt : Runtime) (snap : RadioSnapshot) : List ArmBlocker :=
  let freq := snap.radio.bind RadioParams.freqMhz
  let limit := subBandDutyLimit freq
  (if !rt.envEnabled then [.envSwitchOff] else []) ++
    (if !rt.settings.adminEnabled then [.adminSwitchOff] else []) ++
    (if !snap.connected then [.radioDisconnected] else []) ++
    (if snap.publicKey = none then [.identityUnknown] else []) ++
    (if snap.rawSendSupported ≠ some true then [.rawSendUnsupported] else []) ++
    (if snap.clientRepeat = some true then [.firmwareRepeatOn] else []) ++
    (if isOpenhop snap.deviceModel then [.openhop] else []) ++
    (match snap.radio, freq, limit with
      | some _, some _, some limit =>
        if limit < rt.settings.armMinSubBandPercent then [.subBandBelowMinimum] else []
      | _, _, _ => [.frequencyUnknown]) ++
    (if rt.tempRadioSession then [.tempRadioSession] else [])

/-- A server with both switches on. -/
def readyRuntime : Runtime where
  envEnabled := true
  settings := { HostRepeaterSettings.default with adminEnabled := true }
  tempRadioSession := false

theorem readyBandwidth_nonneg : (0 : ℚ) ≤ 625 / 10 := by decide +kernel

/-- A connected radio in the ten percent sub-band. -/
def readySnapshot : RadioSnapshot where
  connected := true
  publicKey := some (List.replicate 32 0xA1)
  radio := some ⟨some (869525 / 1000), 625 / 10, 8, 8, readyBandwidth_nonneg⟩
  firmwareVerCode := some 13
  deviceModel := none
  clientRepeat := some false

example : blockers readyRuntime readySnapshot = [] := by decide +kernel

/-! ### Tasks -/

/-- `_ensure_task`, inside a running event loop. -/
def ensureTask (s : HostRepeaterTx) : HostRepeaterTx := { s with loop := s.loop.ensure .start }

def stopTask (s : HostRepeaterTx) : HostRepeaterTx := { s with loop := s.loop.cancel }

/-! ### Arming -/

def arm (rt : Runtime) (confirm : Bool) (snap : RadioSnapshot) (wall : ℚ) (s : HostRepeaterTx) :
    Except ArmRefused HostRepeaterTx :=
  if blockers rt snap ≠ [] then .error { blockers := blockers rt snap }
  else if !confirm then .error { blockers := [], confirmMissing := true }
  else if s.armed then .ok s
  else .ok (ensureTask { s with
    pendingRearm := false
    armed := true
    armedSince := some wall
    disarmReason := none
    armedKey := snap.publicKey
    armedRadio := snap.radio
    errors := []
    tableFullStreak := 0
    queueFullSince := none })

/-- Stop forwarding now: pending jobs are dropped. -/
def disarm (reason : DisarmReason) (rearmWhenReconnected : Bool) (s : HostRepeaterTx) :
    HostRepeaterTx :=
  let s' := { s with
    armed := false
    armedSince := none
    armedKey := none
    armedRadio := none
    pendingRearm := rearmWhenReconnected
    stats := { s.stats with droppedDisarmed := s.stats.droppedDisarmed + s.queue.length }
    queue := []
    disarmReason := if s.armed ∨ reason = .user then some reason else s.disarmReason }
  if rearmWhenReconnected then ensureTask s' else stopTask s'

/-! ### Queue -/

/-- Queue a forward decision made while armed. -/
def enqueue (rt : Runtime) (d : Decision) (arrival now : ℚ) (s : HostRepeaterTx) :
    HostRepeaterTx :=
  match d.forwarded with
  | none => s
  | some forwarded =>
    if !s.armed ∨ !d.forward then s
    else
      let delayS := d.delayMs.getD 0 / 1000
      let job : ForwardJob :=
        { forwarded := forwarded
          priority := min 255 (d.priority.getD 0)
          arrival := arrival
          sendAt := arrival + delayS
          deadline := arrival + delayS + rt.settings.maxForwardLatencyMs / 1000
          packetHash := d.packetHash
          payloadType := d.payloadType.elim "UNKNOWN" payloadTypeName
          airtimeMs := d.airtimeMs.getD 0 }
      let cap := rt.settings.maxPendingForwards
      let dropped := s.queue.length + 1 - cap
      let queue := s.queue.drop dropped ++ [job]
      { s with
        stats := { s.stats with droppedQueueFull := s.stats.droppedQueueFull + dropped }
        queue := queue
        queueFullSince :=
          if queue.length ≥ cap then
            -- a time of zero is falsy and is replaced as well
            match s.queueFullSince with
            | some t => some (if t = 0 then now else t)
            | none => some now
          else none }

/-- A decision to forward one byte after a delay. -/
def oneByteDecision (delayMs : ℚ) : Decision where
  forward := true
  reason := .kind .flood
  packetHash := ""
  payloadType := none
  routeType := none
  hopCount := none
  rxLen := 1
  forwarded := some [0]
  delayMs := some delayMs

/-- The times behind `now` at which a raw send is assumed to be over. -/
def inFlightAt (times : List ℚ) (now : ℚ) : List ℚ := times.dropWhile (fun t => t ≤ now)

end HostRepeaterTx

/-!
## Ticks and tasks of the forward scheduler (`app/services/host_repeater_tx.py`)

`_send`, `_tick` and `_run` are cut at their awaits: a function here is what the
source does between two points at which it gives the event loop back, so
nothing else runs inside it. A send attempt carries what the radio lock and the
radio answered and the clock readings taken while they did. A stretch lists the
attempts it meets, in order.

The wake event only ends a wait early and is left out, since a wait may end at
any time here.
-/

/-- What the radio answered to a raw send. -/
inductive CommandResult
  | ok
  | error (code : Option ℤ)
  | raised (detail : String)
  | disconnected
  deriving DecidableEq

/-- One pass of the loop of `_send`: the lock is busy or the radio gone, or the
command is sent and answers at once or later. -/
inductive SendOutcome
  | busy
  | disconnected
  | answered (result : CommandResult)
  | pending
  deriving DecidableEq

/-- The outcome of a pass with the clock while it is handled, the wall clock,
and the clock after `_send` has returned. -/
structure SendAttempt where
  outcome : SendOutcome
  clock : ℚ
  wall : ℚ
  next : ℚ
  deriving DecidableEq

/-- A tick that gave the event loop back inside `_send`. -/
inductive Suspension
  | command (job : ForwardJob)
  | lockSleep (job : ForwardJob)
  deriving DecidableEq

def Suspension.phase (snap : RadioSnapshot) : Suspension → TaskPhase
  | .command job => .command snap job
  | .lockSleep job => .lockSleep snap job

/-- What resumes a task: the wait is over, the radio has answered, the lock
sleep is over, or the cancellation arrives. An exception that nothing inside
`_run` expects ends it as well. -/
inductive Resume
  | loop (rt : Runtime) (now wall : ℚ) (snap : RadioSnapshot) (attempts : List SendAttempt)
  | answer (rt : Runtime) (result : CommandResult) (clock wall next : ℚ)
      (attempts : List SendAttempt)
  | slept (rt : Runtime) (next : ℚ) (attempts : List SendAttempt)
  | cancelled
  | crash

namespace HostRepeaterTx

/-! #### Sending -/

/-- Append to the last send results, of which fifty are kept. -/
def pushError (errors : List Bool) (failed : Bool) : List Bool :=
  let l := errors ++ [failed]
  l.drop (l.length - sendErrorWindow)

/-- The counters of a failed send. -/
def countSendError (detail : String) (tableFull : Bool) (s : HostRepeaterTx) : HostRepeaterTx :=
  { s with
    stats := { s.stats with
      sendErrors := s.stats.sendErrors + 1
      lastError := some detail
      tableFull := s.stats.tableFull + (if tableFull then 1 else 0) }
    errors := pushError s.errors true
    tableFullStreak := if tableFull then s.tableFullStreak + 1 else 0 }

/-- The share of failures among the last sends. -/
def errorRate (errors : List Bool) : ℚ := (errors.count true : ℚ) / errors.length

def recordSendError (detail : String) (tableFull : Bool) (s : HostRepeaterTx) : HostRepeaterTx :=
  let s := s.countSendError detail tableFull
  if s.tableFullStreak ≥ tableFullStreakDisarm then s.disarm .sendErrors false
  else if s.errors.length ≥ sendErrorMinSamples ∧ errorRate s.errors > sendErrorRateDisarm then
    s.disarm .sendErrors false
  else s

/-- `_record_send_result` of a send that went well. -/
def recordSendOk (job : ForwardJob) (clock wall : ℚ) (s : HostRepeaterTx) : HostRepeaterTx :=
  { s with
    stats := { s.stats with
      sent := s.stats.sent + 1
      sentAirtimeMs := s.stats.sentAirtimeMs + job.airtimeMs
      lastSentAt := some wall }
    errors := pushError s.errors false
    tableFullStreak := 0
    inFlight := s.inFlight ++ [clock + (job.airtimeMs + inFlightMarginMs) / 1000] }

/-- The disarm of a send that finds the radio gone. -/
def disarmDisconnected (rt : Runtime) (s : HostRepeaterTx) : HostRepeaterTx :=
  s.disarm .radioDisconnected rt.settings.autoRearmAfterReconnect

/-- The end of `_send` once the command has answered. -/
def commandDone (rt : Runtime) (result : CommandResult) (job : ForwardJob) (clock wall : ℚ)
    (s : HostRepeaterTx) : HostRepeaterTx :=
  match result with
  | .ok => s.recordSendOk job clock wall
  | .error none => s.recordSendError "no response" false
  | .error (some code) =>
    s.recordSendError ("error_code=" ++ toString code) (code = errCodeTableFull)
  | .raised detail => s.recordSendError detail false
  | .disconnected => s.disarmDisconnected rt

/-- The radio gets a job. -/
def hand (snap : RadioSnapshot) (job : ForwardJob) (s : HostRepeaterTx) : HostRepeaterTx :=
  { s with handed := s.handed ++ [⟨job, snap, s.armedKey, s.armedRadio⟩] }

/-- One pass of the loop of `_send`. It returns, or it suspends. -/
def sendPass (rt : Runtime) (snap : RadioSnapshot) (a : SendAttempt) (job : ForwardJob)
    (s : HostRepeaterTx) : HostRepeaterTx × Option Suspension :=
  match a.outcome with
  | .busy =>
    let job := { job with lockRetries := job.lockRetries + 1 }
    let s := { s with stats := { s.stats with lockRetries := s.stats.lockRetries + 1 } }
    if a.clock + lockRetrySeconds > job.deadline then
      ({ s with stats := { s.stats with droppedLockBusy := s.stats.droppedLockBusy + 1 } }, none)
    else (s, some (.lockSleep job))
  | .disconnected => (s.disarmDisconnected rt, none)
  | .answered result => ((s.hand snap job).commandDone rt result job a.clock a.wall, none)
  | .pending => (s.hand snap job, some (.command job))

/-! #### A tick -/

def guard (now : ℚ) (snap : RadioSnapshot) (s : HostRepeaterTx) : Option DisarmReason :=
  if !snap.connected then some .radioDisconnected
  else if snap.clientRepeat = some true then some .firmwareRepeatOn
  else if snap.publicKey.isSome ∧ snap.publicKey ≠ s.armedKey then some .identityChanged
  else if snap.radio.isSome ∧ snap.radio ≠ s.armedRadio then some .radioSettingsChanged
  else if s.queueFullSince.any (fun t => Decidable.decide (now - t > queueStuckSeconds)) then
    some .queueStuck
  else none

/-- The end of a stretch that has met exactly the listed attempts. -/
def endStretch (attempts : List SendAttempt) (s : HostRepeaterTx) (susp : Option Suspension) :
    Option (HostRepeaterTx × Option Suspension) :=
  if attempts.isEmpty then some (s, susp) else none

/-- The due jobs of a tick in order, at most as many as there are. The result is
`none` when the attempts are not those that this stretch meets. -/
def tickLoop (rt : Runtime) (snap : RadioSnapshot) : ℕ → ℚ → List SendAttempt →
    HostRepeaterTx → Option (HostRepeaterTx × Option Suspension)
  | 0, _, attempts, s => endStretch attempts s none
  | fuel + 1, now, attempts, s =>
    match s.queue with
    | [] => endStretch attempts s none
    | job :: rest =>
      if s.armed ∧ job.sendAt ≤ now then
        let s := { s with queue := rest, queueFullSince := none }
        if now > job.deadline then
          tickLoop rt snap fuel now attempts
            { s with stats := { s.stats with droppedTooLate := s.stats.droppedTooLate + 1 } }
        else
          let s := { s with inFlight := inFlightAt s.inFlight now }
          if s.inFlight.length ≥ rt.settings.maxInFlight then
            -- the firmware still holds our previous forwards: retry on the next pass
            endStretch attempts { s with queue := job :: rest } none
          else
            match attempts with
            | [] => none
            | a :: attempts =>
              match s.sendPass rt snap a job with
              | (s, some susp) => endStretch attempts s (some susp)
              | (s, none) => tickLoop rt snap fuel a.next attempts s
      else endStretch attempts s none

/-- The loop of a tick over the queue as it is. -/
def runTickLoop (rt : Runtime) (snap : RadioSnapshot) (now : ℚ) (attempts : List SendAttempt)
    (s : HostRepeaterTx) : Option (HostRepeaterTx × Option Suspension) :=
  tickLoop rt snap s.queue.length now attempts s

/-- `_tick` up to its first suspension: guards, optional re-arm, then every due
job. -/
def tick (rt : Runtime) (now wall : ℚ) (snap : RadioSnapshot) (attempts : List SendAttempt)
    (s : HostRepeaterTx) : Option (HostRepeaterTx × Option Suspension) :=
  if s.pendingRearm ∧ !s.armed then
    match s.arm rt true snap wall with
    | .ok s => endStretch attempts s none
    | .error _ => endStretch attempts s none
  else if !s.armed then endStretch attempts s none
  else
    match s.guard now snap with
    | some reason =>
      endStretch attempts (s.disarm reason
        (reason = .radioDisconnected && rt.settings.autoRearmAfterReconnect)) none
    | none => s.runTickLoop rt snap now attempts

/-! #### The event loop -/

/-- Task `i` gives the event loop back at a phase, or ends. -/
def yieldAt (i : ℕ) (phase : Option TaskPhase) (s : HostRepeaterTx) : HostRepeaterTx :=
  { s with loop := s.loop.setPhase i phase }

/-- The task waits for the next tick, or inside this one. -/
def park (i : ℕ) (snap : RadioSnapshot) (r : HostRepeaterTx × Option Suspension) :
    HostRepeaterTx :=
  r.1.yieldAt i (some (r.2.elim .waiting (Suspension.phase snap)))

/-- The loop of `_send` after a lock sleep, and the rest of its tick. A job whose
repeater was disarmed meanwhile is given up. -/
def retrySend (rt : Runtime) (snap : RadioSnapshot) (job : ForwardJob) (next : ℚ)
    (attempts : List SendAttempt) (s : HostRepeaterTx) :
    Option (HostRepeaterTx × Option Suspension) :=
  if !s.armed then s.runTickLoop rt snap next attempts
  else
    match attempts with
    | [] => none
    | a :: attempts =>
      match s.sendPass rt snap a job with
      | (s, some susp) => endStretch attempts s (some susp)
      | (s, none) => s.runTickLoop rt snap a.next attempts

/-- The loop of `_run` between two ticks. -/
def resumeLoop (i : ℕ) (r : Resume) (s : HostRepeaterTx) : Option HostRepeaterTx :=
  match r with
  | .loop rt now wall snap attempts =>
    if s.armed ∨ s.pendingRearm then (s.tick rt now wall snap attempts).map (park i snap)
    else if attempts.isEmpty then some (s.yieldAt i none) else none
  | .crash =>
    if s.armed ∨ s.pendingRearm then some ((s.disarm .sendErrors false).yieldAt i none)
    else none
  | _ => none

/-- The next stretch of task `i`. -/
def resume (i : ℕ) (r : Resume) (s : HostRepeaterTx) : Option HostRepeaterTx :=
  match s.loop.tasks[i]? with
  | none => none
  | some t =>
    match t.phase with
    | none => none
    | some phase =>
      if t.cancelRequested then
        match r with
        | .cancelled => some (s.yieldAt i none)
        | _ => none
      else
        match phase, r with
        | .command snap job, .answer rt result clock wall next attempts =>
          ((s.commandDone rt result job clock wall).runTickLoop rt snap next attempts).map
            (park i snap)
        | .command _ _, _ => none
        | .lockSleep snap job, .slept rt next attempts =>
          (s.retrySend rt snap job next attempts).map (park i snap)
        | .lockSleep _ _, _ => none
        | .start, r => s.resumeLoop i r
        | .waiting, r => s.resumeLoop i r

/-! #### Operations -/

def onStatsSample (ownTxLastHourMs : ℚ) (freqMhz : Option ℚ) (s : HostRepeaterTx) :
    HostRepeaterTx :=
  if !s.armed then s
  else
    match subBandDutyLimit freqMhz with
    | none => s
    | some limit =>
      if ownTxLastHourMs > hourMs * limit / 100 then s.disarm .dutyCycleExceeded false else s

/-- `stop` up to its await. Without an unfinished task there is nothing to wait
for. -/
def stopBegin (s : HostRepeaterTx) : HostRepeaterTx :=
  let s := { s with pendingRearm := false }
  let s := if s.armed then s.disarm .shutdown false else s
  let s := s.stopTask
  match s.loop.unfinished with
  | some i => { s with stopping := s.stopping ++ [i] }
  | none => { s with loop := s.loop.forget }

/-- The rest of a `stop` whose task `i` has finished. -/
def stopEnd (i : ℕ) (s : HostRepeaterTx) : Option HostRepeaterTx :=
  if i ∈ s.stopping ∧ (s.loop.tasks[i]?).any (fun t => t.phase.isNone) then
    some { s with stopping := s.stopping.erase i, loop := s.loop.forget }
  else none

end HostRepeaterTx

/-- What can happen to the scheduler. `tick` is a call of `_tick` by hand that
does not suspend. -/
inductive TxOp
  | arm (rt : Runtime) (confirm : Bool) (snap : RadioSnapshot) (wall : ℚ)
  | disarm (reason : DisarmReason) (rearmWhenReconnected : Bool)
  | enqueue (rt : Runtime) (d : Decision) (arrival now : ℚ)
  | onStatsSample (ownTxLastHourMs : ℚ) (freqMhz : Option ℚ)
  | stopBegin
  | stopEnd (i : ℕ)
  | snapshot (now : ℚ)
  | resetStats
  | tick (rt : Runtime) (now wall : ℚ) (snap : RadioSnapshot) (attempts : List SendAttempt)
  | resume (i : ℕ) (r : Resume)

/-- The state after an operation, `none` when it cannot happen. -/
def TxOp.apply (s : HostRepeaterTx) : TxOp → Option HostRepeaterTx
  | .arm rt confirm snap wall =>
    match s.arm rt confirm snap wall with
    | .ok s => some s
    | .error _ => some s
  | .disarm reason rearm => some (s.disarm reason rearm)
  | .enqueue rt d arrival now => some (s.enqueue rt d arrival now)
  | .onStatsSample ownTx freq => some (s.onStatsSample ownTx freq)
  | .stopBegin => some s.stopBegin
  | .stopEnd i => s.stopEnd i
  | .snapshot now => some { s with inFlight := HostRepeaterTx.inFlightAt s.inFlight now }
  | .resetStats => some { s with stats := {} }
  | .tick rt now wall snap attempts =>
    match s.tick rt now wall snap attempts with
    | some (s, none) => some s
    | _ => none
  | .resume i r => s.resume i r

abbrev TxEvent := Event HostRepeaterTx TxOp

def TxStep (s : HostRepeaterTx) (op : TxOp) (s' : HostRepeaterTx) : Prop := op.apply s = some s'

end RtfmEv.HostRepeater
