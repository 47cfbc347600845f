import Mathlib.Algebra.Order.Field.Rat
import RtfmEv.Lib.Run
import RtfmEv.Lib.Table

/-!
# Temporary radio settings (`app/services/temp_radio.py`)

The calls of `TempRadioService` take the session lock in the order they asked for
it. The one that holds it is cut at its awaits: a write to the database, a switch
of the radio, a change of its region. A switch reaches the companion or not,
before its command returns or raises. `self_info` is what the companion said
last. The expiry tasks run beside the calls.

The client-repeat bit that is sent along, the opt-ins of a session and the
disarming of the host repeater are left out.
-/

namespace RtfmEv.TempRadio

open RtfmEv.Lib

abbrev restoreRetrySecs : ℚ := 30
abbrev freqToleranceMhz : ℚ := 1 / 1000
abbrev bwToleranceKhz : ℚ := 1

structure RadioStamp where
  freq : ℚ
  bw : ℚ
  sf : ℤ
  cr : ℤ
  deriving DecidableEq

/-- The same settings, up to noise on frequency and bandwidth. -/
def stampsEqual (a b : RadioStamp) : Bool :=
  decide (a.sf = b.sf) && decide (a.cr = b.cr) && decide (|a.freq - b.freq| ≤ freqToleranceMhz) &&
    decide (|a.bw - b.bw| ≤ bwToleranceKhz)

theorem stampsEqual_refl (a : RadioStamp) : stampsEqual a a = true := by
  simp [stampsEqual]

inductive SourceKind
  | manual
  | contact
  | scan
  deriving DecidableEq

/-- Where a scan list is. -/
structure ScanProgress where
  listId : ℕ
  entryIndex : ℕ
  round : ℕ
  deriving DecidableEq

/-- Who waits for the call: nobody that matters here, an expiry task, the run of a
scan, or an extension that such a run has started. -/
inductive Caller
  | other
  | expiry (task : ℕ)
  | scan (run : ℕ)
  | hold (run : ℕ)
  deriving DecidableEq

/-- A session, which is an active `TempRadioState`. `startedBy` is who called
`start`, which the source does not note. -/
structure Session where
  companionKey : String
  original : RadioStamp
  temp : RadioStamp
  region : Option String
  prevTemp : Option RadioStamp
  source : SourceKind
  startedAt : ℚ
  expiresAt : ℚ
  restorePending : Bool
  scan : Option ScanProgress
  startedBy : Caller
  deriving DecidableEq

structure StartRequest where
  radio : RadioStamp
  durationSecs : ℕ
  region : Option String
  source : SourceKind
  deriving DecidableEq

inductive Request
  | start (req : StartRequest) (scan : Option ScanProgress)
  | restore
  | endAsNewNormal
  | extendTo (expiresAt : ℚ)
  | reconcileOnConnect (connection : ℕ)
  deriving DecidableEq

structure Call where
  caller : Caller
  request : Request
  deriving DecidableEq

/-- What the holder of the lock awaits. `taken` says that the companion took the
settings of a switch. -/
inductive Phase
  | startSaving (previous : Option Session)
  | startSwitching (previous : Option Session) (taken : Bool)
  | startRegion (previous : Option Session)
  | undoSwitching (previous : Option Session) (taken : Bool)
  | undoRegion (previous : Option Session)
  | undoClearing
  | undoSaving
  | undoFailedSaving
  | restoreSwitching (taken : Bool)
  | restoreRegion
  | restoreFailedSaving
  | regionBack (dropped : Bool)
  | clearing (dropped : Bool)
  | extendSaving
  deriving DecidableEq

/-- An expiry task sleeps until its session expires, awaits `restore`, or sleeps
until it tries again. -/
inductive ExpiryTask
  | sleeping (expiresAt : ℚ)
  | restoring
  | retrying (wakeAt : ℚ)
  deriving DecidableEq

/-- `session` is `_state` and `stored` the row of the database. A companion is
known by its key, and `actual` is what each of them is on. `reconciled` says that
the present connection was reconciled, `drops` counts the sessions that were
dropped as changed elsewhere, and `ended` is the last call that ended, with whether
it returned. -/
structure ServiceState where
  clock : ℚ := 0
  openhop : Bool := false
  connected : Option String := none
  connection : ℕ := 0
  reconciled : Bool := false
  selfInfo : Option RadioStamp := none
  actual : String → RadioStamp
  session : Option Session := none
  stored : Option Session := none
  queue : List Call := []
  holder : Option (Call × Phase) := none
  task : Option ℕ := none
  lastTask : ℕ := 0
  tasks : Table ℕ ExpiryTask := .empty
  drops : ℕ := 0
  ended : Option (Call × Bool) := none

namespace Session

/-- The settings are the temporary ones, or those before the last switch. -/
def ours (st : Session) (current : RadioStamp) : Bool :=
  stampsEqual current st.temp || st.prevTemp.any (fun p => stampsEqual current p)

def pending (st : Session) : Session := { st with restorePending := true }

end Session

namespace ServiceState

/-! ### The lock -/

/-- The holder of the lock awaits something. -/
def await (phase : Phase) (s : ServiceState) : ServiceState :=
  { s with holder := s.holder.map (fun h => (h.1, phase)) }

/-- What the caller does when its call returned or raised. `handle_expiry` goes on
trying while the companion of a pending session is connected. -/
def returned (c : Call) (ok : Bool) (s : ServiceState) : ServiceState :=
  match c.caller, c.request with
  | .expiry i, _ =>
    match s.session with
    | some st =>
      if !ok && st.restorePending && decide (some st.companionKey = s.connected) then
        { s with tasks := s.tasks.set i (.retrying (s.clock + restoreRetrySecs)) }
      else { s with tasks := s.tasks.erase i }
    | none => { s with tasks := s.tasks.erase i }
  | _, .reconcileOnConnect n => if n = s.connection then { s with reconciled := true } else s
  | _, _ => s

/-- The call ends and gives the lock back. -/
def finish (ok : Bool) (s : ServiceState) : ServiceState :=
  match s.holder with
  | some (c, _) =>
    returned c ok { s with
      holder := none
      ended := some (c, ok) }
  | none => s

/-! ### Timers -/

/-- The task in `_task` is cancelled, unless it is the one that runs. -/
def cancelTask (s : ServiceState) : ServiceState :=
  match s.task with
  | none => s
  | some i =>
    if s.holder.map (fun h => h.1.caller) = some (.expiry i) then { s with task := none }
    else
      { s with
        task := none
        tasks := s.tasks.erase i
        queue := s.queue.filter (fun c => decide (c.caller ≠ .expiry i)) }

def schedule (s : ServiceState) : ServiceState :=
  let s := s.cancelTask
  match s.session with
  | none => s
  | some st =>
    { s with
      lastTask := s.lastTask + 1
      task := some (s.lastTask + 1)
      tasks := s.tasks.set (s.lastTask + 1) (.sleeping st.expiresAt) }

/-! ### What these leave alone -/

@[simp] theorem session_returned (c : Call) (ok : Bool) (s : ServiceState) :
    (s.returned c ok).session = s.session := by
  unfold returned
  split
  · split
    · split <;> rfl
    · rfl
  · split <;> rfl
  · rfl

theorem returned_frame (c : Call) (ok : Bool) (s : ServiceState) :
    (s.returned c ok).stored = s.stored ∧ (s.returned c ok).actual = s.actual ∧
      (s.returned c ok).holder = s.holder ∧ (s.returned c ok).connected = s.connected := by
  unfold returned
  split
  · split
    · split <;> exact ⟨rfl, rfl, rfl, rfl⟩
    · exact ⟨rfl, rfl, rfl, rfl⟩
  · split <;> exact ⟨rfl, rfl, rfl, rfl⟩
  · exact ⟨rfl, rfl, rfl, rfl⟩

variable (ok : Bool) (s : ServiceState)

@[simp] theorem session_finish :
    (s.finish ok).session = s.session := by
  unfold finish
  split
  · exact session_returned ..
  · rfl

@[simp] theorem stored_finish :
    (s.finish ok).stored = s.stored := by
  unfold finish
  split
  · exact (returned_frame ..).1
  · rfl

@[simp] theorem actual_finish :
    (s.finish ok).actual = s.actual := by
  unfold finish
  split
  · exact (returned_frame ..).2.1
  · rfl

@[simp] theorem holder_finish : (s.finish ok).holder = none := by
  unfold finish
  split
  · exact (returned_frame ..).2.2.1
  · assumption

theorem cancelTask_frame :
    s.cancelTask.session = s.session ∧ s.cancelTask.stored = s.stored ∧
      s.cancelTask.actual = s.actual ∧ s.cancelTask.holder = s.holder := by
  unfold cancelTask
  split
  · exact ⟨rfl, rfl, rfl, rfl⟩
  · split <;> exact ⟨rfl, rfl, rfl, rfl⟩

theorem schedule_frame :
    s.schedule.session = s.session ∧ s.schedule.stored = s.stored ∧
      s.schedule.actual = s.actual ∧ s.schedule.holder = s.holder := by
  unfold schedule
  dsimp only
  split
  · exact cancelTask_frame s
  · exact cancelTask_frame s

/-! ### Saving -/

/-- `_save` up to its write to the database. -/
def save (st : Session) (phase : Phase) (s : ServiceState) : ServiceState :=
  await phase { s with session := some st }

/-- `_clear` up to its write to the database. -/
def clear (phase : Phase) (s : ServiceState) : ServiceState :=
  await phase { s.cancelTask with session := none }

/-! ### `_start_locked` and `_undo_failed_start` -/

def startLocked (caller : Caller) (req : StartRequest) (scan : Option ScanProgress)
    (s : ServiceState) : ServiceState :=
  if s.openhop then s.finish false
  else
    match s.connected, s.selfInfo with
    | some key, some current =>
      let previous := s.session
      if previous.any (fun p => decide (p.companionKey ≠ key)) then s.finish false
      else
        s.save
          { companionKey := key
            original := (previous.map Session.original).getD current
            temp := req.radio
            region := req.region
            prevTemp := previous.map Session.temp
            source := req.source
            startedAt := (previous.map Session.startedAt).getD s.clock
            expiresAt := s.clock + req.durationSecs
            restorePending := false
            scan := scan
            startedBy := caller }
          (.startSaving previous)
    | _, _ => s.finish false

/-- The session stays, with a restore pending. -/
def undoFailed (st : Session) (s : ServiceState) : ServiceState :=
  s.save st.pending .undoFailedSaving

/-- The region is as it was before the start. -/
def undoRegionDone (previous : Option Session) (s : ServiceState) : ServiceState :=
  match previous with
  | none => s.clear .undoClearing
  | some p => s.save p .undoSaving

/-- The start may have changed the region. -/
def regionChanged (st : Session) (previous : Option Session) : Bool :=
  match previous with
  | none => decide (st.region ≠ none)
  | some p => decide (st.region ≠ p.region)

/-- The switch back was made. -/
def undoSwitched (st : Session) (previous : Option Session) (s : ServiceState) : ServiceState :=
  if regionChanged st previous then s.await (.undoRegion previous) else s.undoRegionDone previous

/-- The switch was made. -/
def startSwitched (st : Session) (previous : Option Session) (s : ServiceState) : ServiceState :=
  if st.region ≠ none ∨ (previous.bind Session.region) ≠ none then s.await (.startRegion previous)
  else s.schedule.finish true

/-! ### `_restore_locked` -/

/-- `_put_saved_region_back` and `_clear`. -/
def endSession (st : Session) (dropped : Bool) (s : ServiceState) : ServiceState :=
  if st.region = none then s.clear (.clearing dropped) else s.await (.regionBack dropped)

def restoreFailed (st : Session) (s : ServiceState) : ServiceState :=
  if st.restorePending then s.finish false else s.save st.pending .restoreFailedSaving

def restoreLocked (s : ServiceState) : ServiceState :=
  match s.session with
  | none => s.finish true
  | some st =>
    if some st.companionKey ≠ s.connected then s.restoreFailed st
    else
      match s.selfInfo with
      | none => s.await (.restoreSwitching false)
      | some current =>
        if stampsEqual current st.original then s.endSession st false
        else if st.ours current then s.await (.restoreSwitching false)
        else s.endSession st true

/-- The normal settings are back. -/
def restoreSwitched (st : Session) (s : ServiceState) : ServiceState :=
  if st.region ≠ none then s.await .restoreRegion else s.clear (.clearing false)

/-! ### The other calls -/

def endAsNewNormal (s : ServiceState) : ServiceState :=
  match s.session with
  | none => s.finish true
  | some st => s.endSession st false

def extendTo (expiresAt : ℚ) (s : ServiceState) : ServiceState :=
  match s.session with
  | none => s.finish true
  | some st =>
    if expiresAt ≤ st.expiresAt then s.finish true
    else s.save { st with expiresAt := expiresAt } .extendSaving

/-- The session of a radio that is on temporary settings goes on, or is over. -/
def overdue (st : Session) (s : ServiceState) : Bool :=
  st.scan.isSome || st.restorePending || decide (st.expiresAt ≤ s.clock)

def reconcileOnConnect (s : ServiceState) : ServiceState :=
  match s.session with
  | none => s.finish true
  | some st =>
    if some st.companionKey ≠ s.connected then s.finish true
    else
      match s.selfInfo with
      | none => s.finish true
      | some current =>
        if st.ours current then
          if s.overdue st then s.restoreLocked else s.schedule.finish true
        else if stampsEqual current st.original then s.endSession st false
        else s.endSession st true

/-! ### The awaits -/

/-- The first call that waits gets the lock. -/
def enter (s : ServiceState) : Option ServiceState :=
  match s.holder, s.queue with
  | none, c :: rest =>
    let s := { s with
      queue := rest
      holder := some (c, .startSaving none) }
    match c.request with
    | .start req scan => some (s.startLocked c.caller req scan)
    | .restore => some s.restoreLocked
    | .endAsNewNormal => some s.endAsNewNormal
    | .extendTo expiresAt => some (s.extendTo expiresAt)
    | .reconcileOnConnect _ => some s.reconcileOnConnect
  | _, _ => none

/-- The write to the database was made. -/
def saved (s : ServiceState) : Option ServiceState :=
  let written := { s with stored := s.session }
  match s.holder with
  | some (_, .startSaving previous) => some (written.await (.startSwitching previous false))
  | some (_, .undoClearing) => some (written.finish false)
  | some (_, .undoSaving) => some (written.schedule.finish false)
  | some (_, .undoFailedSaving) => some (written.finish false)
  | some (_, .restoreFailedSaving) => some (written.finish false)
  | some (_, .clearing dropped) =>
    some (finish true { written with drops := s.drops + if dropped then 1 else 0 })
  | some (_, .extendSaving) => some (written.schedule.finish true)
  | _ => none

/-- The settings of the switch under way, and what to await once they are taken. -/
def switch (s : ServiceState) : Option (RadioStamp × Phase) :=
  match s.holder, s.session with
  | some (_, .startSwitching previous false), some st =>
    some (st.temp, .startSwitching previous true)
  | some (_, .undoSwitching none false), some st => some (st.original, .undoSwitching none true)
  | some (_, .undoSwitching (some p) false), some _ => some (p.temp, .undoSwitching (some p) true)
  | some (_, .restoreSwitching false), some st => some (st.original, .restoreSwitching true)
  | _, _ => none

/-- The connected companion takes the settings of the switch. -/
def takes (s : ServiceState) : Option ServiceState :=
  match s.switch, s.connected with
  | some (stamp, phase), some key =>
    some (await phase { s with actual := Function.update s.actual key stamp })
  | _, _ => none

/-- `self_info` is asked for again at the end of a switch. -/
def refresh (refreshed : Bool) (s : ServiceState) : ServiceState :=
  if refreshed then { s with selfInfo := s.connected.map s.actual } else s

/-- The switch returned. -/
def switched (refreshed : Bool) (s : ServiceState) : Option ServiceState :=
  match s.holder, s.session with
  | some (_, .startSwitching previous true), some st =>
    some ((s.refresh refreshed).startSwitched st previous)
  | some (_, .undoSwitching previous true), some st =>
    some ((s.refresh refreshed).undoSwitched st previous)
  | some (_, .restoreSwitching true), some st => some ((s.refresh refreshed).restoreSwitched st)
  | _, _ => none

/-- The switch raised. -/
def switchFailed (s : ServiceState) : Option ServiceState :=
  match s.holder, s.session with
  | some (_, .startSwitching previous _), some _ => some (s.await (.undoSwitching previous false))
  | some (_, .undoSwitching _ _), some st => some (s.undoFailed st)
  | some (_, .restoreSwitching _), some st => some (s.restoreFailed st)
  | _, _ => none

/-- The change of the region returned or raised. -/
def regionDone (ok : Bool) (s : ServiceState) : Option ServiceState :=
  match s.holder, s.session with
  | some (_, .startRegion previous), some _ =>
    some (if ok then s.schedule.finish true else s.await (.undoSwitching previous false))
  | some (_, .undoRegion previous), some st =>
    some (if ok then s.undoRegionDone previous else s.undoFailed st)
  | some (_, .restoreRegion), some st =>
    some (if ok then s.clear (.clearing false) else s.restoreFailed st)
  | some (_, .regionBack dropped), some _ => some (s.clear (.clearing dropped))
  | _, _ => none

/-! ### Tasks, cancellation and the connection -/

/-- The call of a run is cancelled, and the lock given back if it holds it. -/
def cancel (run : ℕ) (s : ServiceState) : ServiceState :=
  { s with
    queue := s.queue.filter (fun c => decide (c.caller ≠ .scan run))
    holder := if s.holder.map (fun h => h.1.caller) = some (.scan run) then none else s.holder }

/-- The expiry task awaits `restore`. -/
def askRestore (i : ℕ) (s : ServiceState) : ServiceState :=
  { s with
    tasks := s.tasks.set i .restoring
    queue := s.queue ++ [⟨.expiry i, .restore⟩] }

/-- The expiry task wakes from one of its sleeps. -/
def wake (i : ℕ) (s : ServiceState) : Option ServiceState :=
  match s.tasks.get i with
  | some (.sleeping expiresAt) =>
    if s.session.any (fun st => decide (st.expiresAt = expiresAt)) then
      some (if expiresAt ≤ s.clock then s.askRestore i else s)
    else some { s with tasks := s.tasks.erase i }
  | some (.retrying wakeAt) => if wakeAt ≤ s.clock then some (s.askRestore i) else none
  | _ => none

def connect (key : String) (known openhop : Bool) (s : ServiceState) : Option ServiceState :=
  match s.connected with
  | some _ => none
  | none =>
    some { s with
      connected := some key
      connection := s.connection + 1
      reconciled := false
      openhop := openhop
      selfInfo := if known then some (s.actual key) else none }

def disconnect (s : ServiceState) : ServiceState :=
  { s with
    connected := none
    reconciled := false
    selfInfo := none }

/-- The process ends and starts again with the stored session. -/
def crash (s : ServiceState) : ServiceState :=
  { clock := s.clock
    connection := s.connection
    actual := s.actual
    session := s.stored
    stored := s.stored
    lastTask := s.lastTask
    drops := s.drops }

end ServiceState

/-- What can happen. -/
inductive ServiceOp
  | advance (now : ℚ)
  | connect (key : String) (known openhop : Bool)
  | disconnect
  | crash
  | call (c : Call)
  | cancel (run : ℕ)
  | enter
  | saved
  | takes
  | switched (refreshed : Bool)
  | switchFailed
  | regionDone (ok : Bool)
  | wake (task : ℕ)
  deriving DecidableEq

/-- Who may call what. An expiry task asks for itself, and a connection is
reconciled once it is there. -/
def Call.fromOutside (c : Call) (s : ServiceState) : Bool :=
  match c.caller, c.request with
  | .expiry _, _ => false
  | .scan _, .start _ _ => true
  | .scan _, .restore => true
  | .scan _, _ => false
  | .hold _, .extendTo _ => true
  | .hold _, _ => false
  | .other, .reconcileOnConnect n => decide (n = s.connection)
  | .other, _ => true

/-- The state after an operation, `none` when it cannot happen. -/
def ServiceOp.apply (s : ServiceState) : ServiceOp → Option ServiceState
  | .advance now => if s.clock ≤ now then some { s with clock := now } else none
  | .connect key known openhop => s.connect key known openhop
  | .disconnect => some s.disconnect
  | .crash => some s.crash
  | .call c => if c.fromOutside s then some { s with queue := s.queue ++ [c] } else none
  | .cancel run => some (s.cancel run)
  | .enter => s.enter
  | .saved => s.saved
  | .takes => s.takes
  | .switched refreshed => s.switched refreshed
  | .switchFailed => s.switchFailed
  | .regionDone ok => s.regionDone ok
  | .wake i => s.wake i

abbrev ServiceEvent := Event ServiceState ServiceOp

def ServiceStep (s : ServiceState) (op : ServiceOp) (s' : ServiceState) : Prop :=
  op.apply s = some s'

end RtfmEv.TempRadio
