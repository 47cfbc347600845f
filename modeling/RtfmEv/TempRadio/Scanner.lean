import RtfmEv.TempRadio.Service

/-!
# Scan lists (`app/services/radio_scan.py`)

The run of a list asks the session service for each entry and waits in between.
It goes on in the same step in which its call ends, and `_on_session_end` is
called in the step in which a session is cleared. An extension is a task of its
own, which asks for the lock once it has begun. A call of `start_task` or `stop`
is over before the next one begins.

The names, the opt-ins and the broadcasts of a list are left out.
-/

namespace RtfmEv.TempRadio

open RtfmEv.Lib

abbrev sessionMarginSecs : ℕ := 120

structure ScanEntry where
  radio : RadioStamp
  region : Option String
  dwellSecs : ℕ
  deriving DecidableEq

/-- A list has at least one entry. -/
structure ScanList where
  id : ℕ
  first : ScanEntry
  others : List ScanEntry
  rounds : ℕ
  normalBetweenSecs : ℕ
  holdOnActivitySecs : ℕ
  deriving DecidableEq

/-- An entry of a round, and those after it. -/
structure ScanPosition where
  round : ℕ
  index : ℕ
  entry : ScanEntry
  rest : List ScanEntry
  deriving DecidableEq

/-- Where a run is. `created` is a task that has not begun. -/
inductive RunPhase
  | created
  | starting (position : ScanPosition)
  | dwelling (position : ScanPosition)
  | restoring (position : ScanPosition)
  | dwellingOnNormal (position : ScanPosition)
  | finalRestore
  deriving DecidableEq

/-- A `stop` waits for the run to end, and restores after it. -/
inductive StopPhase
  | waiting (restore : Bool)
  | restoring
  deriving DecidableEq

/-- `running` and `onNormal` are of `_state`, and `lastRun` counts the runs. An
extension that has not begun is known by its run. -/
structure ScannerState where
  service : ServiceState
  running : Bool := false
  onNormal : Bool := false
  stopRequested : Bool := false
  skipFinalRestore : Bool := false
  internalSwitch : Bool := false
  entryEndsAt : ℚ := 0
  holdSecs : ℕ := 0
  lastRun : ℕ := 0
  task : Option (ScanList × RunPhase) := none
  stopping : Option StopPhase := none
  pendingExtends : List (ℕ × ℚ) := []

namespace ScanList

/-- The first entry of a round, when there is such a round. -/
def firstOf (l : ScanList) (round : ℕ) : Option ScanPosition :=
  if l.rounds ≠ 0 ∧ l.rounds < round then none else some ⟨round, 0, l.first, l.others⟩

def next (l : ScanList) (p : ScanPosition) : Option ScanPosition :=
  match p.rest with
  | entry :: rest => some ⟨p.round, p.index + 1, entry, rest⟩
  | [] => l.firstOf (p.round + 1)

/-- No entry comes after this one. -/
def last (l : ScanList) (p : ScanPosition) : Bool :=
  p.rest.isEmpty && decide (l.rounds ≠ 0) && decide (l.rounds ≤ p.round)

end ScanList

namespace ScannerState

/-! ### The run -/

/-- The scanner asks for a switch of its own. -/
def ask (request : Request) (s : ScannerState) : ScannerState :=
  { s with
    internalSwitch := true
    service := { s.service with queue := s.service.queue ++ [⟨.scan s.lastRun, request⟩] } }

/-- The run has ended. -/
def runEnded (s : ScannerState) : ScannerState :=
  { s with
    running := false
    onNormal := false
    task := none }

/-- The `finally` of a run. -/
def finishRun (l : ScanList) (s : ScannerState) : ScannerState :=
  if !s.skipFinalRestore && s.service.session.any (fun st => decide (st.source = .scan)) then
    ask .restore { s with task := some (l, .finalRestore) }
  else s.runEnded

def startEntry (l : ScanList) (p : ScanPosition) (s : ScannerState) : ScannerState :=
  ask
    (.start ⟨p.entry.radio, p.entry.dwellSecs + sessionMarginSecs, p.entry.region, .scan⟩
      (some ⟨l.id, p.index, p.round⟩))
    { s with
      running := true
      onNormal := false
      entryEndsAt := s.service.clock + p.entry.dwellSecs
      task := some (l, .starting p) }

/-- The head of the loops. -/
def goOn (l : ScanList) (next : Option ScanPosition) (s : ScannerState) : ScannerState :=
  if s.stopRequested then s.finishRun l
  else
    match next with
    | none => s.finishRun l
    | some p => s.startEntry l p

/-- A new task begins. -/
def begin (s : ScannerState) : Option ScannerState :=
  match s.task with
  | some (l, .created) =>
    some (goOn l (l.firstOf 1) { s with
      stopRequested := false
      skipFinalRestore := false
      holdSecs := l.holdOnActivitySecs })
  | _ => none

/-- A `_dwell` ends. -/
def dwelled (s : ScannerState) : Option ScannerState :=
  if s.stopRequested || decide (s.entryEndsAt ≤ s.service.clock) then
    match s.task with
    | some (l, .dwelling p) =>
      some
        (if s.stopRequested then s.finishRun l
        else if decide (0 < l.normalBetweenSecs) && !l.last p then
          ask .restore { s with task := some (l, .restoring p) }
        else s.goOn l (l.next p))
    | some (l, .dwellingOnNormal p) => some (s.goOn l (l.next p))
    | _ => none
  else none

/-- A call of the scanner returned or raised. -/
def resume (ok : Bool) (s : ScannerState) : ScannerState :=
  let s := { s with internalSwitch := false }
  match s.task with
  | some (l, .starting p) =>
    if ok then { s with task := some (l, .dwelling p) } else s.finishRun l
  | some (l, .restoring p) =>
    if ok then
      { s with
        onNormal := true
        entryEndsAt := s.service.clock + l.normalBetweenSecs
        task := some (l, .dwellingOnNormal p) }
    else s.finishRun l
  | some (_, .finalRestore) => s.runEnded
  | some _ => s
  | none =>
    match s.stopping, ok with
    | some .restoring, true =>
      { s with
        running := false
        onNormal := false
        skipFinalRestore := false
        stopping := none }
    | some .restoring, false => { s with stopping := none }
    | _, _ => s

/-! ### Hooks -/

def onSessionEnd (s : ScannerState) : ScannerState :=
  if s.internalSwitch || !s.running then s else { s with stopRequested := true }

/-- A packet holds the entry on. -/
def holdsOn (s : ScannerState) : Bool :=
  s.running && !s.onNormal && decide (0 < s.holdSecs) &&
    decide (s.entryEndsAt < s.service.clock + s.holdSecs)

def onActivity (s : ScannerState) : ScannerState :=
  if s.holdsOn then
    let newEnd := s.service.clock + s.holdSecs
    { s with
      entryEndsAt := newEnd
      pendingExtends := s.pendingExtends ++ [(s.lastRun, newEnd + sessionMarginSecs)] }
  else s

/-- The task of an extension begins. -/
def extend (s : ScannerState) : Option ScannerState :=
  match s.pendingExtends with
  | (run, expiresAt) :: rest =>
    some { s with
      service :=
        { s.service with queue := s.service.queue ++ [⟨.hold run, .extendTo expiresAt⟩] }
      pendingExtends := rest }
  | [] => none

/-! ### Start and stop -/

def startTask (l : ScanList) (s : ScannerState) : Option ScannerState :=
  match s.task, s.stopping with
  | none, none =>
    some { s with
      running := true
      onNormal := false
      lastRun := s.lastRun + 1
      task := some (l, .created) }
  | _, _ => none

/-- `stop` up to its await. The run is cancelled wherever it waits. -/
def stop (restore : Bool) (s : ScannerState) : Option ScannerState :=
  match s.task, s.stopping with
  | some (l, phase), none =>
    let s := { s with
      skipFinalRestore := !restore
      internalSwitch := true
      stopRequested := true
      stopping := some (.waiting restore)
      service := s.service.cancel s.lastRun }
    match phase with
    | .created => some { s with task := none }
    | .dwelling _ => some (s.finishRun l)
    | .dwellingOnNormal _ => some (s.finishRun l)
    | .starting _ => some (finishRun l { s with internalSwitch := false })
    | .restoring _ => some (finishRun l { s with internalSwitch := false })
    | .finalRestore =>
      some { s with
        internalSwitch := false
        task := none }
  | _, _ => none

/-- `stop` goes on when the run has ended. -/
def stopped (s : ScannerState) : Option ScannerState :=
  match s.task, s.stopping with
  | none, some (.waiting restore) =>
    let s := { s with internalSwitch := false }
    if restore && s.service.session.any (fun st => decide (st.source = .scan)) then
      some (ask .restore { s with stopping := some .restoring })
    else
      some { s with
        running := false
        onNormal := false
        skipFinalRestore := false
        stopping := none }
  | _, _ => none

/-! ### Steps of the service -/

/-- The call whose session is cleared by the write that returns. -/
def clears (s : ScannerState) : Option Caller :=
  match s.service.holder with
  | some (c, .clearing _) => some c.caller
  | some (c, .undoClearing) => some c.caller
  | _ => none

/-- The call that ended in the step, with whether it returned. -/
def endedCall (op : ServiceOp) (s s' : ServiceState) : Option (Call × Bool) :=
  if s'.holder = none ∧ (s.holder ≠ none ∨ op = .enter) then s'.ended else none

/-- What the scanner does within a step of the service. -/
def follow (op : ServiceOp) (s : ScannerState) (s' : ServiceState) : ScannerState :=
  let t := { s with service := s' }
  let t := if op = .saved ∧ s.clears ≠ none then t.onSessionEnd else t
  match endedCall op s.service s' with
  | some (c, ok) => if c.caller = .scan s.lastRun then t.resume ok else t
  | none => t

/-- The process ends and starts again without a scan. -/
def crash (s : ScannerState) : ScannerState :=
  { service := s.service.crash
    lastRun := s.lastRun }

end ScannerState

/-- What can happen. The calls of the scanner itself are not among the operations of
the service here. -/
inductive ScannerOp
  | service (op : ServiceOp)
  | startTask (l : ScanList)
  | begin
  | dwelled
  | activity
  | extend
  | stop (restore : Bool)
  | stopped
  deriving DecidableEq

/-- The operation is not the scanner's. -/
def ServiceOp.byOthers : ServiceOp → Bool
  | .cancel _ => false
  | .call c => decide (c.caller = .other)
  | _ => true

def ScannerOp.apply (s : ScannerState) : ScannerOp → Option ScannerState
  | .service .crash => some s.crash
  | .service op => if op.byOthers then (op.apply s.service).map (s.follow op) else none
  | .startTask l => s.startTask l
  | .begin => s.begin
  | .dwelled => s.dwelled
  | .activity => some s.onActivity
  | .extend => s.extend
  | .stop restore => s.stop restore
  | .stopped => s.stopped

abbrev ScannerEvent := Event ScannerState ScannerOp

def ScannerStep (s : ScannerState) (op : ScannerOp) (s' : ScannerState) : Prop :=
  op.apply s = some s'

/-!
## Calls of the scanner in the session service

The service gives the lock to the calls in their order, so the calls of the scanner
that wait for it or hold it are a list that only loses its head, when that call
ends. Who started the session is known from the calls that were served.
-/

/-- The run of a scan, or an extension of it. -/
def Caller.isScanner : Caller → Bool
  | .scan _ => true
  | .hold _ => true
  | _ => false

namespace ServiceState

def scannerQueue (s : ServiceState) : List Call := s.queue.filter (fun c => c.caller.isScanner)

/-- The calls of the scanner that hold the lock or wait for it. -/
def scannerCalls (s : ServiceState) : List Call :=
  (s.holder.toList.map Prod.fst).filter (fun c => c.caller.isScanner) ++ s.scannerQueue

theorem scannerCalls_append (s : ServiceState) (c : Call) :
    scannerCalls { s with queue := s.queue ++ [c] } =
      s.scannerCalls ++ [c].filter (fun c => c.caller.isScanner) := by
  unfold scannerCalls scannerQueue
  rw [List.filter_append, List.append_assoc]

/-- A start is not refused. -/
def accepts (s : ServiceState) : Bool :=
  !s.openhop && match s.connected, s.selfInfo with
    | some key, some _ => s.session.all (fun p => decide (p.companionKey = key))
    | _, _ => false

/-- The session that the undo of a start puts back. -/
def putsBack (s : ServiceState) (op : ServiceOp) : Option Session :=
  match op, s.holder, s.session with
  | .switched _, some (_, .undoSwitching previous true), some st =>
    if regionChanged st previous then none else previous
  | .regionDone true, some (_, .undoRegion previous), some _ => previous
  | _, _, _ => none

/-- The session, if there is one, was started by one of these. -/
def StartedBy (own : Caller → Prop) (s : ServiceState) : Prop :=
  ∀ st, s.session = some st → own st.startedBy

/-- A call holds the lock, with these calls of the scanner behind it. -/
structure Serving (own : Caller → Prop) (queue : List Call) (c : Call) (s : ServiceState) :
    Prop where
  holder : ∃ phase, s.holder = some (c, phase)
  queue : s.scannerQueue = queue
  session : s.StartedBy own

/-- The call still holds the lock or it has ended. -/
structure Served (own : Caller → Prop) (queue : List Call) (c : Call) (s : ServiceState) :
    Prop where
  call : (∃ phase, s.holder = some (c, phase)) ∨ (s.holder = none ∧ ∃ ok, s.ended = some (c, ok))
  queue : s.scannerQueue = queue
  session : s.StartedBy own

section

variable {own : Caller → Prop} {queue : List Call} {c : Call} {s s' : ServiceState} {st : Session}
  {phase : Phase} {op : ServiceOp}

theorem StartedBy.of_none (h : s.session = none) : s.StartedBy own := by
  intro st hst
  rw [h] at hst
  cases hst

/-! #### Parts of a call -/

theorem returned_calls (c : Call) (ok : Bool) (s : ServiceState) :
    (s.returned c ok).queue = s.queue ∧ (s.returned c ok).ended = s.ended := by
  unfold returned
  split
  · split
    · split <;> exact ⟨rfl, rfl⟩
    · exact ⟨rfl, rfl⟩
  · split <;> exact ⟨rfl, rfl⟩
  · exact ⟨rfl, rfl⟩

theorem Serving.finish (h : Serving own queue c s) (ok : Bool) :
    Served own queue c (s.finish ok) := by
  obtain ⟨phase, hholder⟩ := h.holder
  obtain ⟨hqueue, hended⟩ := returned_calls c ok { s with
    holder := none
    ended := some (c, ok) }
  have hfinish : s.finish ok = returned c ok { s with
      holder := none
      ended := some (c, ok) } := by
    unfold ServiceState.finish
    rw [hholder]
  refine ⟨Or.inr ⟨holder_finish ok s, ok, ?_⟩, ?_, ?_⟩
  · rw [hfinish, hended]
  · unfold scannerQueue
    rw [hfinish, hqueue]
    exact h.queue
  · intro st hst
    exact h.session st (session_finish ok s ▸ hst)

theorem Serving.await (h : Serving own queue c s) (phase : Phase) :
    Served own queue c (s.await phase) := by
  obtain ⟨phase₀, hholder⟩ := h.holder
  refine ⟨Or.inl ⟨phase, ?_⟩, h.queue, h.session⟩
  unfold ServiceState.await
  rw [hholder]
  rfl

theorem scannerQueue_cancelTask (s : ServiceState) :
    s.cancelTask.scannerQueue = s.scannerQueue := by
  unfold cancelTask
  split
  · rfl
  rename_i i _
  split
  · rfl
  · unfold scannerQueue
    rw [List.filter_filter]
    refine List.filter_congr ?_
    intro c _
    cases hcaller : c.caller <;> simp [Caller.isScanner]

theorem Serving.cancelTask (h : Serving own queue c s) : Serving own queue c s.cancelTask := by
  obtain ⟨hsession, _, _, hholder⟩ := cancelTask_frame s
  refine ⟨?_, (scannerQueue_cancelTask s).trans h.queue, ?_⟩
  · rw [hholder]
    exact h.holder
  · intro st hst
    exact h.session st (hsession ▸ hst)

theorem scannerQueue_schedule (s : ServiceState) : s.schedule.scannerQueue = s.scannerQueue := by
  refine Eq.trans ?_ (scannerQueue_cancelTask s)
  unfold ServiceState.schedule
  dsimp only
  split <;> rfl

theorem Serving.schedule (h : Serving own queue c s) : Serving own queue c s.schedule := by
  obtain ⟨hsession, _, _, hholder⟩ := schedule_frame s
  refine ⟨?_, (scannerQueue_schedule s).trans h.queue, ?_⟩
  · rw [hholder]
    exact h.holder
  · intro st hst
    exact h.session st (hsession ▸ hst)

theorem Serving.save (h : Serving own queue c s) (hown : own st.startedBy)
    (phase : Phase) : Served own queue c (s.save st phase) := by
  have hcall : Serving own queue c { s with session := some st } := by
    refine ⟨h.holder, h.queue, ?_⟩
    intro st' hst'
    cases hst'
    exact hown
  exact hcall.await phase

theorem Serving.clear (h : Serving own queue c s) (phase : Phase) :
    Served own queue c (s.clear phase) := by
  have htask := h.cancelTask
  have hcall : Serving own queue c { s.cancelTask with session := none } :=
    ⟨htask.holder, htask.queue, StartedBy.of_none rfl⟩
  exact hcall.await phase

/-! #### The calls -/

theorem Serving.restoreFailed (h : Serving own queue c s)
    (hst : s.session = some st) : Served own queue c (s.restoreFailed st) := by
  unfold ServiceState.restoreFailed
  split
  · exact h.finish false
  · have hown : own st.pending.startedBy := h.session st hst
    exact h.save hown _

theorem Serving.undoFailed (h : Serving own queue c s) (hst : s.session = some st) :
    Served own queue c (s.undoFailed st) := by
  have hown : own st.pending.startedBy := h.session st hst
  exact h.save hown _

theorem Serving.endSession (h : Serving own queue c s) (st : Session) (dropped : Bool) :
    Served own queue c (s.endSession st dropped) := by
  unfold ServiceState.endSession
  split
  · exact h.clear _
  · exact h.await _

theorem Serving.restoreLocked (h : Serving own queue c s) : Served own queue c s.restoreLocked := by
  unfold ServiceState.restoreLocked
  split
  · exact h.finish true
  rename_i st hst
  split
  · exact h.restoreFailed hst
  split
  · exact h.await _
  split
  · exact h.endSession st false
  split
  · exact h.await _
  · exact h.endSession st true

theorem Serving.reconcileOnConnect (h : Serving own queue c s) :
    Served own queue c s.reconcileOnConnect := by
  unfold ServiceState.reconcileOnConnect
  split
  · exact h.finish true
  split
  · exact h.finish true
  split
  · exact h.finish true
  split
  · split
    · exact h.restoreLocked
    · exact h.schedule.finish true
  split
  · exact h.endSession _ false
  · exact h.endSession _ true

theorem Serving.extendTo (h : Serving own queue c s) (expiresAt : ℚ) :
    Served own queue c (s.extendTo expiresAt) := by
  unfold ServiceState.extendTo
  split
  · exact h.finish true
  rename_i st hst
  split
  · exact h.finish true
  · refine h.save ?_ _
    exact h.session st hst

theorem Serving.endAsNewNormal (h : Serving own queue c s) :
    Served own queue c s.endAsNewNormal := by
  unfold ServiceState.endAsNewNormal
  split
  · exact h.finish true
  · exact h.endSession _ false

/-- Only a start that is not refused makes the session another one's. -/
theorem Serving.startLocked (h : Serving own queue c s) {caller : Caller}
    (hown : s.accepts = true → own caller) (req : StartRequest) (scan : Option ScanProgress) :
    Served own queue c (s.startLocked caller req scan) := by
  unfold ServiceState.startLocked
  split
  · exact h.finish false
  rename_i hopenhop
  split
  · rename_i key current hkey hcurrent
    dsimp only
    split
    · exact h.finish false
    · rename_i hconflict
      refine h.save (hown ?_) _
      cases hst : s.session with
      | none => simp [accepts, hopenhop, hkey, hcurrent, hst]
      | some p =>
        rw [hst] at hconflict
        simp only [Option.any_some, decide_eq_true_eq, ne_eq, Decidable.not_not] at hconflict
        simp [accepts, hopenhop, hkey, hcurrent, hst, hconflict]
  · exact h.finish false

theorem Served.enter (hown : s.StartedBy own)
    (hstart : ∀ c req scan, s.queue.head? = some c → c.request = .start req scan →
      s.accepts = true → own c.caller) (henter : s.enter = some s') :
    ∃ c rest, s.holder = none ∧ s.queue = c :: rest ∧
      Served own (rest.filter (fun c => c.caller.isScanner)) c s' := by
  unfold ServiceState.enter at henter
  split at henter
  · rename_i c rest hfree hqueue
    refine ⟨c, rest, hfree, hqueue, ?_⟩
    have hcall : Serving own (rest.filter (fun c => c.caller.isScanner)) c { s with
        queue := rest
        holder := some (c, .startSaving none) } := ⟨⟨_, rfl⟩, rfl, hown⟩
    dsimp only at henter
    split at henter <;> rename_i hrequest <;> cases henter
    · refine hcall.startLocked ?_ _ _
      exact hstart c _ _ (by rw [hqueue]; rfl) hrequest
    · exact hcall.restoreLocked
    · exact hcall.endAsNewNormal
    · exact hcall.extendTo _
    · exact hcall.reconcileOnConnect
  · cases henter

/-! #### The awaits -/

theorem Served.saved (hholder : s.holder = some (c, phase))
    (hown : s.StartedBy own) (hsaved : s.saved = some s') :
    Served own s.scannerQueue c s' := by
  have hcall : Serving own s.scannerQueue c { s with
      stored := s.session
      holder := some (c, phase) } := ⟨⟨phase, rfl⟩, rfl, hown⟩
  unfold ServiceState.saved at hsaved
  rw [hholder] at hsaved
  dsimp only at hsaved
  cases phase with
  | startSaving previous =>
    cases hsaved
    exact hcall.await _
  | undoClearing | undoFailedSaving | restoreFailedSaving =>
    cases hsaved
    exact hcall.finish false
  | undoSaving =>
    cases hsaved
    exact hcall.schedule.finish false
  | clearing dropped =>
    cases hsaved
    have hdone : Serving own s.scannerQueue c { s with
        stored := s.session
        holder := some (c, .clearing dropped)
        drops := s.drops + if dropped then 1 else 0 } := ⟨⟨_, rfl⟩, rfl, hown⟩
    exact hdone.finish true
  | extendSaving =>
    cases hsaved
    exact hcall.schedule.finish true
  | _ => cases hsaved

theorem Served.takes (hholder : s.holder = some (c, phase))
    (hown : s.StartedBy own) (htakes : s.takes = some s') : Served own s.scannerQueue c s' := by
  unfold ServiceState.takes at htakes
  split at htakes <;> cases htakes
  rename_i stamp phase' key _ _
  have hcall : Serving own s.scannerQueue c { s with
      actual := Function.update s.actual key stamp } := ⟨⟨phase, hholder⟩, rfl, hown⟩
  exact hcall.await phase'

theorem Serving.refresh (h : Serving own queue c s) (refreshed : Bool) :
    Serving own queue c (s.refresh refreshed) := by
  unfold ServiceState.refresh
  split
  · exact ⟨h.holder, h.queue, h.session⟩
  · exact h

theorem Serving.undoRegionDone (h : Serving own queue c s) {previous : Option Session}
    (hback : ∀ p, previous = some p → own p.startedBy) :
    Served own queue c (s.undoRegionDone previous) := by
  cases previous with
  | none => exact h.clear _
  | some p => exact h.save (hback p rfl) _

theorem Served.switched {refreshed : Bool} (hholder : s.holder = some (c, phase))
    (hown : s.StartedBy own)
    (hback : ∀ p, s.putsBack (.switched refreshed) = some p → own p.startedBy)
    (hswitched : s.switched refreshed = some s') : Served own s.scannerQueue c s' := by
  have hcall : Serving own s.scannerQueue c s := ⟨⟨phase, hholder⟩, rfl, hown⟩
  have hfresh := hcall.refresh refreshed
  unfold ServiceState.switched at hswitched
  rw [hholder] at hswitched
  split at hswitched
  · rename_i previous st heq hst
    cases heq
    cases hswitched
    unfold startSwitched
    split
    · exact hfresh.await _
    · exact hfresh.schedule.finish true
  · rename_i previous st heq hst
    cases heq
    cases hswitched
    unfold undoSwitched
    split
    · exact hfresh.await _
    · rename_i hregion
      refine hfresh.undoRegionDone ?_
      intro p hp
      refine hback p ?_
      simp only [putsBack, hholder, hst, hregion]
      exact hp
  · rename_i st heq hst
    cases heq
    cases hswitched
    unfold restoreSwitched
    split
    · exact hfresh.await _
    · exact hfresh.clear _
  · cases hswitched

theorem Served.switchFailed (hholder : s.holder = some (c, phase))
    (hown : s.StartedBy own) (hfailed : s.switchFailed = some s') :
    Served own s.scannerQueue c s' := by
  have hcall : Serving own s.scannerQueue c s := ⟨⟨phase, hholder⟩, rfl, hown⟩
  unfold ServiceState.switchFailed at hfailed
  rw [hholder] at hfailed
  split at hfailed
  · rename_i heq _
    cases heq
    cases hfailed
    exact hcall.await _
  · rename_i st heq hst
    cases heq
    cases hfailed
    exact hcall.undoFailed hst
  · rename_i st heq hst
    cases heq
    cases hfailed
    exact hcall.restoreFailed hst
  · cases hfailed

theorem Served.regionDone {ok : Bool} (hholder : s.holder = some (c, phase))
    (hown : s.StartedBy own) (hback : ∀ p, s.putsBack (.regionDone ok) = some p → own p.startedBy)
    (hdone : s.regionDone ok = some s') : Served own s.scannerQueue c s' := by
  have hcall : Serving own s.scannerQueue c s := ⟨⟨phase, hholder⟩, rfl, hown⟩
  unfold ServiceState.regionDone at hdone
  rw [hholder] at hdone
  split at hdone
  · rename_i heq _
    cases heq
    cases hdone
    split
    · exact hcall.schedule.finish true
    · exact hcall.await _
  · rename_i previous st heq hst
    cases heq
    cases hdone
    cases ok with
    | true =>
      refine hcall.undoRegionDone ?_
      intro p hp
      refine hback p ?_
      simp only [putsBack, hholder, hst]
      exact hp
    | false => exact hcall.undoFailed hst
  · rename_i st heq hst
    cases heq
    cases hdone
    split
    · exact hcall.clear _
    · exact hcall.restoreFailed hst
  · rename_i heq _
    cases heq
    cases hdone
    exact hcall.clear _
  · cases hdone

/-! #### One step of the service -/

/-- The call of the scanner that ended in the step, if there is one. -/
def endedCalls (op : ServiceOp) (s s' : ServiceState) : List Call :=
  ((ScannerState.endedCall op s s').toList.map Prod.fst).filter (fun c => c.caller.isScanner)

/-- The calls of the scanner lose the one that ended, and the session is still one
that these have started. -/
structure Handled (own : Caller → Prop) (op : ServiceOp) (s s' : ServiceState) : Prop where
  calls : s.scannerCalls = endedCalls op s s' ++ s'.scannerCalls
  queue : ∀ c ∈ s'.scannerQueue, c ∈ s.scannerQueue
  session : s'.StartedBy own

theorem Served.handled (h : Served own queue c s')
    (hop : s.holder ≠ none ∨ op = .enter) (hqueue : ∀ c ∈ queue, c ∈ s.scannerQueue)
    (hcalls : s.scannerCalls = [c].filter (fun c => c.caller.isScanner) ++ queue) :
    Handled own op s s' := by
  refine ⟨?_, fun c hc => hqueue c (h.queue ▸ hc), h.session⟩
  rw [hcalls, ← h.queue]
  unfold endedCalls ScannerState.endedCall scannerCalls
  rcases h.call with ⟨phase, hheld⟩ | ⟨hfree, ok, hended⟩
  · simp [hheld]
  · rw [if_pos ⟨hfree, hop⟩, hfree, hended]
    rfl

theorem Served.handled_held (h : Served own s.scannerQueue c s')
    (hholder : s.holder = some (c, phase)) : Handled own op s s' := by
  refine h.handled (Or.inl ?_) (fun _ hc => hc) ?_
  · rw [hholder]
    exact Option.some_ne_none _
  · unfold scannerCalls
    rw [hholder]
    rfl

theorem Handled.of_quiet (hown : s'.StartedBy own)
    (hholder : s'.holder = s.holder) (hqueue : s'.scannerQueue = s.scannerQueue)
    (hop : op ≠ .enter) : Handled own op s s' := by
  refine ⟨?_, fun c hc => hqueue ▸ hc, hown⟩
  unfold endedCalls ScannerState.endedCall scannerCalls
  rw [hholder, hqueue, if_neg]
  · rfl
  · intro hended
    rcases hended.2 with hheld | henter
    · exact hheld hended.1
    · exact hop henter

theorem Handled.wake {i : ℕ} (hown : s.StartedBy own) (hwake : s.wake i = some s') :
    Handled own (.wake i) s s' := by
  have hask : Handled own (.wake i) s (s.askRestore i) := by
    refine Handled.of_quiet hown rfl ?_ (by simp)
    unfold scannerQueue askRestore
    simp [Caller.isScanner]
  unfold ServiceState.wake at hwake
  split at hwake
  · split at hwake
    · cases hwake
      split
      · exact hask
      · exact Handled.of_quiet hown rfl rfl (by simp)
    · cases hwake
      exact Handled.of_quiet hown rfl rfl (by simp)
  · split at hwake <;> cases hwake
    exact hask
  · cases hwake

/-- **One step** of the service by others. -/
theorem Handled.apply (hothers : op.byOthers = true) (hcrash : op ≠ .crash)
    (hown : s.StartedBy own)
    (hstart : op = .enter → ∀ c req scan, s.queue.head? = some c → c.request = .start req scan →
      s.accepts = true → own c.caller)
    (hback : ∀ p, s.putsBack op = some p → own p.startedBy) (hstep : op.apply s = some s') :
    Handled own op s s' := by
  cases op with
  | advance now =>
    simp only [ServiceOp.apply] at hstep
    split at hstep <;> cases hstep
    exact Handled.of_quiet hown rfl rfl (by simp)
  | connect key known openhop =>
    simp only [ServiceOp.apply, connect] at hstep
    split at hstep <;> cases hstep
    exact Handled.of_quiet hown rfl rfl (by simp)
  | disconnect =>
    cases hstep
    exact Handled.of_quiet hown rfl rfl (by simp)
  | crash => exact absurd rfl hcrash
  | call c =>
    simp only [ServiceOp.apply] at hstep
    split at hstep <;> cases hstep
    refine Handled.of_quiet hown rfl ?_ (by simp)
    have hother : c.caller = .other := of_decide_eq_true hothers
    simp [scannerQueue, hother, Caller.isScanner]
  | cancel run => cases hothers
  | enter =>
    obtain ⟨c, rest, hfree, hqueue, hserved⟩ := Served.enter hown (hstart rfl) hstep
    refine hserved.handled (Or.inr rfl) ?_ ?_
    · intro c' hc'
      unfold scannerQueue
      rw [hqueue]
      exact List.mem_filter.mpr ⟨List.mem_cons_of_mem c (List.mem_filter.mp hc').1,
        (List.mem_filter.mp hc').2⟩
    · unfold scannerCalls scannerQueue
      rw [hfree, hqueue, ← List.filter_append, ← List.filter_append]
      rfl
  | saved =>
    cases hholder : s.holder with
    | none => simp [ServiceOp.apply, ServiceState.saved, hholder] at hstep
    | some held =>
      exact (Served.saved hholder hown hstep).handled_held hholder
  | takes =>
    cases hholder : s.holder with
    | none => simp [ServiceOp.apply, ServiceState.takes, switch, hholder] at hstep
    | some held =>
      exact (Served.takes hholder hown hstep).handled_held hholder
  | switched refreshed =>
    cases hholder : s.holder with
    | none => simp [ServiceOp.apply, ServiceState.switched, hholder] at hstep
    | some held =>
      exact (Served.switched hholder hown hback hstep).handled_held hholder
  | switchFailed =>
    cases hholder : s.holder with
    | none => simp [ServiceOp.apply, ServiceState.switchFailed, hholder] at hstep
    | some held =>
      exact (Served.switchFailed hholder hown hstep).handled_held hholder
  | regionDone ok =>
    cases hholder : s.holder with
    | none => simp [ServiceOp.apply, ServiceState.regionDone, hholder] at hstep
    | some held =>
      exact (Served.regionDone hholder hown hback hstep).handled_held hholder
  | wake i => exact Handled.wake hown hstep

end

end ServiceState

end RtfmEv.TempRadio
