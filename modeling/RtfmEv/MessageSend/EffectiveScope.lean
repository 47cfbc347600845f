import RtfmEv.Lib.Proc
import RtfmEv.MessageSend.ChannelSlots

/-!
# Sending on a channel (`app/services/message_send.py`)

`send_channel_message_with_effective_scope` with the scope helpers it uses
(`app/region_scope.py`, `app/services/flood_scope.py`). The radio, the manager,
the stored row and the calls that leave the program are one state, and a function
is a program over it that may raise. What the radio and the database answer is an
argument: one outcome for each awaited step.

A command that is answered OK is applied. One that is not answered, or that
raises, may have been applied. Callbacks and log calls return.
-/

namespace RtfmEv.MessageSend

open RtfmEv.Lib

/-! ### Regions -/

abbrev unscopedOverrideMarker : String := "*"

abbrev unscopedSentinels : List String := ["", "0", unscopedOverrideMarker]

def isUnscoped (scope : Option String) : Bool := unscopedSentinels.contains (strip (scope.getD ""))

def normalizeRegionScope (scope : Option String) : String :=
  let stripped := strip (scope.getD "")
  if unscopedSentinels.contains stripped then ""
  else if textStartsWith stripped "#" then stripped
  else "#" ++ stripped

/-- The scope of a persisted override and whether there is one. -/
def resolveOverrideScope : Option String → String × Bool
  | none => ("", false)
  | some override =>
    if isUnscoped (some override) then ("", true)
    else (normalizeRegionScope (some override), true)

/-! ### The radio and its commands -/

abbrev firmwareVerUnscopedMode : ℕ := 12

/-- What flood packets of the radio carry. -/
inductive LiveScope
  | region (name : String)
  | unscoped
  | deviceDefault
  deriving DecidableEq

def firmwareSupportsUnscopedMode (fwVer : Option ℕ) : Bool :=
  fwVer.any (fun v => decide (v ≥ firmwareVerUnscopedMode))

/-- What `set_radio_flood_scope` asks the radio for. -/
def radioFloodScope (scope : String) (fwVer : Option ℕ) : LiveScope :=
  let normalized := normalizeRegionScope (some scope)
  if normalized ≠ "" then .region normalized
  else if firmwareSupportsUnscopedMode fwVer then .unscoped
  else .deviceDefault

structure Radio where
  floodScope : LiveScope
  pathHashMode : ℤ
  slots : Table ℕ Bytes

/-- How a command ends: an OK, an error, no answer, or an exception. -/
inductive Reply
  | ok
  | error
  | silent
  | raised
  deriving DecidableEq

/-- The end of a command, and whether one that was not answered was applied. -/
structure CommandOutcome where
  reply : Reply
  applied : Bool
  deriving DecidableEq

/-- A setting takes effect on an OK and not on an error. -/
def CommandOutcome.takes (c : CommandOutcome) : Bool :=
  match c.reply with
  | .ok => true
  | .error => false
  | .silent => c.applied
  | .raised => c.applied

/-- A channel is loaded on an OK, and may be loaded on anything else. -/
def CommandOutcome.loads (c : CommandOutcome) : Bool :=
  match c.reply with
  | .ok => true
  | _ => c.applied

/-- An awaited step of which only an exception matters. -/
inductive Step
  | done
  | raised
  deriving DecidableEq

/-! ### The state of a send -/

inductive SendStatus
  | pending
  | confirmed
  | unknown
  deriving DecidableEq

/-- The `error_broadcast_fn` calls. -/
inductive RestoreNotice
  | floodScope
  | pathHashMode
  deriving DecidableEq

/-- A send command that went to the radio: with which answer, and for a channel
the key of the channel and the one that the radio held in the slot. -/
structure SendCommand where
  reply : Reply
  channel : Option (Bytes × Option Bytes)
  deriving DecidableEq

/-- The surroundings of a send, and its local variables: whether a timestamp was
reserved and whether the row was stored. -/
structure World where
  radio : Radio
  manager : RadioManager
  notices : List RestoreNotice := []
  sends : List SendCommand := []
  row : Option SendStatus := none
  timestamp : Bool := false
  message : Bool := false

/-- The details of the HTTP errors. -/
inductive Detail
  | noRadioResponseAfterSend
  | scopeRejected
  | pathHashModeRejected
  | channelRejected
  | sendRejected
  | textTooLong
  | unexpectedDuplicate
  | notStored
  | invalidChannelKey
  deriving DecidableEq

inductive SendError
  | http (status : ℕ) (detail : Detail)
  | other
  deriving DecidableEq

abbrev SendM := Proc World SendError

open Proc

def step : Step → SendM Unit
  | .done => pure ()
  | .raised => raise .other

/-- A command that changes the radio. -/
def command (effect : Radio → Radio) (takes : Bool) (reply : Reply) : SendM Reply := do
  update (fun w => if takes then { w with radio := effect w.radio } else w)
  match reply with
  | .raised => raise .other
  | reply => pure reply

/-- Change what the manager knows. -/
def updateManager (f : RadioManager → RadioManager) : SendM Unit :=
  update (fun w => { w with manager := f w.manager })

/-! ### One send on a channel -/

/-- The channel, the message and the settings of a send. The scope argument is
`none` when the caller leaves the scope to the channel. -/
structure ChannelSend where
  channelKey : String
  keyBytes : Bytes
  tempRadioSlot : ℕ
  floodScopeOverride : Option String
  pathHashModeOverride : Option ℤ
  scopeArgument : Option (Option String)
  sessionRegion : Option String
  savedFloodScope : Option String

/-- One outcome for each awaited step. -/
structure ChannelOutcomes where
  settings : Step
  applyScope : CommandOutcome
  applyPathHashMode : CommandOutcome
  setChannel : CommandOutcome
  send : Reply
  restoreScope : ℕ → CommandOutcome
  restorePathHashMode : ℕ → CommandOutcome

abbrev restoreAttempts : ℕ := 3

namespace ChannelSend

/-- The scope that the send asks for, and whether it asks for one. -/
def desiredScope (a : ChannelSend) : String × Bool :=
  match a.scopeArgument with
  | none => resolveOverrideScope a.floodScopeOverride
  | some scope => (normalizeRegionScope scope, true)

/-- A temporary radio session with its own region wins. -/
def applyScope (a : ChannelSend) : Bool := a.desiredScope.2 && a.sessionRegion.isNone

/-- The scope of the radio during the send and after it. -/
def scopeTarget (a : ChannelSend) (m : RadioManager) : LiveScope :=
  radioFloodScope a.desiredScope.1 m.firmwareVerCode

def scopeBaseline (a : ChannelSend) (m : RadioManager) : LiveScope :=
  radioFloodScope (normalizeRegionScope a.savedFloodScope) m.firmwareVerCode

/-- The path hash mode of the channel, if it has to be set for the send. -/
def pathHashModeTarget (a : ChannelSend) (m : RadioManager) : Option ℤ :=
  a.pathHashModeOverride.filter
    (fun mode => m.pathHashModeSupported && mode != m.pathHashMode)

end ChannelSend

def Radio.setFloodScope (scope : LiveScope) (r : Radio) : Radio := { r with floodScope := scope }

def Radio.setPathHashMode (mode : ℤ) (r : Radio) : Radio := { r with pathHashMode := mode }

def Radio.setChannel (slot : ℕ) (key : Bytes) (r : Radio) : Radio :=
  { r with slots := r.slots.set slot key }

section

variable (r : Radio) (scope : LiveScope) (mode : ℤ)

@[simp] theorem floodScope_setFloodScope :
    (r.setFloodScope scope).floodScope = scope := rfl

@[simp] theorem pathHashMode_setFloodScope :
    (r.setFloodScope scope).pathHashMode = r.pathHashMode := rfl

@[simp] theorem floodScope_setPathHashMode :
    (r.setPathHashMode mode).floodScope = r.floodScope := rfl

@[simp] theorem pathHashMode_setPathHashMode :
    (r.setPathHashMode mode).pathHashMode = mode := rfl

@[simp] theorem slots_setFloodScope :
    (r.setFloodScope scope).slots = r.slots := rfl

@[simp] theorem slots_setPathHashMode :
    (r.setPathHashMode mode).slots = r.slots := rfl

end

/-- Set a temporary override. Only an error reply is taken for a failure. -/
def applyOverride (effect : Radio → Radio) (rejected : Detail) (c : CommandOutcome) :
    SendM Unit := do
  let reply ← command effect c.takes c.reply
  if reply = .error then raise (.http 422 rejected) else pure ()

/-- Give up the slot of an evicted channel. -/
def invalidateEvicted : Option String → SendM Unit
  | none => pure ()
  | some key => updateManager (fun m => m.invalidateCachedChannelSlot key)

/-- Load the channel into a slot, unless it is cached in one. A reply without a
value has no type, which raises. -/
def loadChannelSlot (a : ChannelSend) (c : CommandOutcome) : SendM ℕ := do
  let plan ← ask (fun w => w.manager.planChannelSendSlot a.channelKey a.tempRadioSlot)
  if plan.2.1 then
    let reply ← handle (command (Radio.setChannel plan.1 a.keyBytes) c.loads c.reply)
      (fun e => do
        invalidateEvicted plan.2.2
        raise e)
    match reply with
    | .ok =>
      updateManager (fun m => m.noteChannelSlotLoaded a.channelKey plan.1)
      pure plan.1
    | .error =>
      invalidateEvicted plan.2.2
      raise (.http 422 .channelRejected)
    | _ => raise .other
  else pure plan.1

/-- The send command. -/
def sendOnSlot (a : ChannelSend) (reply : Reply) (slot : ℕ) : SendM Reply := do
  update (fun w =>
    { w with sends := w.sends ++ [⟨reply, some (a.keyBytes, w.radio.slots.get slot)⟩] })
  match reply with
  | .raised => raise .other
  | .silent => raise (.http 422 .noRadioResponseAfterSend)
  | .error =>
    updateManager (fun m => m.invalidateCachedChannelSlot a.channelKey)
    pure .error
  | .ok =>
    updateManager (fun m => m.noteChannelSlotUsed a.channelKey)
    pure .ok

/-- The attempts to set a baseline again. No answer counts as success, and a
notice is sent after the last failure. -/
def restore (effect : Radio → Radio) (restored : RadioManager → RadioManager)
    (notice : RestoreNotice) : List CommandOutcome → World → World
  | [], w => { w with notices := w.notices ++ [notice] }
  | c :: rest, w =>
    let w := if c.takes then { w with radio := effect w.radio } else w
    match c.reply with
    | .ok => { w with manager := restored w.manager }
    | .silent => { w with manager := restored w.manager }
    | .error => restore effect restored notice rest w
    | .raised => restore effect restored notice rest w

def restoreFloodScope (baseline : LiveScope) (attempts : ℕ → CommandOutcome) : SendM Unit :=
  update (restore (Radio.setFloodScope baseline) id .floodScope
    ((List.range restoreAttempts).map attempts))

def restorePathHashMode (baseline : ℤ) (attempts : ℕ → CommandOutcome) : SendM Unit :=
  update (restore (Radio.setPathHashMode baseline)
    (fun m => { m with pathHashMode := baseline }) .pathHashMode
    ((List.range restoreAttempts).map attempts))

/-- The scope of the send, when it asks for one. -/
def applyScopeOverride (a : ChannelSend) (o : ChannelOutcomes) (m : RadioManager) : SendM Unit :=
  if a.applyScope then
    applyOverride (Radio.setFloodScope (a.scopeTarget m)) .scopeRejected o.applyScope
  else pure ()

def applyPathHashModeOverride (a : ChannelSend) (o : ChannelOutcomes) (m : RadioManager) :
    SendM Unit :=
  match a.pathHashModeTarget m with
  | some mode =>
    applyOverride (Radio.setPathHashMode mode) .pathHashModeRejected o.applyPathHashMode
  | none => pure ()

/-- The part that the restores are run after. -/
def applyAndSend (a : ChannelSend) (o : ChannelOutcomes) (m : RadioManager) : SendM Reply := do
  applyScopeOverride a o m
  applyPathHashModeOverride a o m
  let slot ← loadChannelSlot a o.setChannel
  sendOnSlot a o.send slot

def restoreScopeOverride (a : ChannelSend) (o : ChannelOutcomes) (m : RadioManager) :
    SendM Unit :=
  if a.applyScope then restoreFloodScope (a.scopeBaseline m) o.restoreScope else pure ()

def restorePathHashModeOverride (a : ChannelSend) (o : ChannelOutcomes) (m : RadioManager) :
    SendM Unit :=
  match a.pathHashModeTarget m with
  | some _ => restorePathHashMode m.pathHashMode o.restorePathHashMode
  | none => pure ()

/-- The saved scope is only read when a scope is applied. -/
def readSettings (a : ChannelSend) (o : ChannelOutcomes) : SendM Unit :=
  if a.applyScope then step o.settings else pure ()

def sendChannelMessageWithEffectiveScope (a : ChannelSend) (o : ChannelOutcomes) :
    SendM Reply := do
  readSettings a o
  let m ← ask World.manager
  ensuring (applyAndSend a o m) (do
    restoreScopeOverride a o m
    restorePathHashModeOverride a o m)

/-!
## Sending and storing a message (`app/services/message_send.py`)

`send_direct_message_to_contact`, `send_channel_message_to_channel` and
`resend_channel_message_record`. Each stores the row of the message before it
sends and settles it afterwards: a row whose send was not answered is kept, and
any other failure deletes it. The flags `timestamp` and `message` of the state
are the local variables that the handlers and the cleanup ask for.
-/

open RtfmEv.Lib RtfmEv.Lib.Proc

abbrev radioMaxTextBytes : ℕ := 160

def requireTextFitsRadio (text : String) (channelSenderName : Option String) : SendM Unit :=
  let senderName := (channelSenderName.map (fun name => name ++ ": ")).getD ""
  if text.utf8ByteSize + senderName.utf8ByteSize > radioMaxTextBytes then
    raise (.http 422 .textTooLong)
  else pure ()

/-! #### The stored row -/

/-- How a write to the database ends, and whether one that raised was applied. -/
inductive Write
  | done
  | raised (applied : Bool)
  deriving DecidableEq

inductive Create
  | stored
  | duplicate
  | raised (stored : Bool)
  deriving DecidableEq

/-- The awaited steps around the row. -/
structure RowOutcomes where
  timestamp : Step
  create : Create
  confirm : Write
  markUnknown : Write
  delete : Write
  releaseTimestamp : Step

def write (effect : World → World) : Write → SendM Unit
  | .done => update effect
  | .raised applied => do
    update (fun w => if applied then effect w else w)
    raise .other

def allocateOutgoingSenderTimestamp (o : Step) : SendM Unit := do
  step o
  update (fun w => { w with timestamp := true })

/-- The row is stored as pending. Only a create that returns sets `message`. -/
def createOutgoing : Create → SendM Unit
  | .stored => update (fun w => { w with row := some .pending, message := true })
  | .duplicate => raise (.http 422 .unexpectedDuplicate)
  | .raised stored => do
    update (fun w => if stored then { w with row := some .pending } else w)
    raise .other

def updateSendStatus (status : SendStatus) (o : Write) : SendM Unit :=
  write (fun w => { w with row := w.row.map (fun _ => status) }) o

def deleteById (o : Write) : SendM Unit := do
  write (fun w => { w with row := none }) o
  update (fun w => { w with message := false })

def isUnknownSendOutcome : SendError → Bool
  | .http _ .noRadioResponseAfterSend => true
  | _ => false

/-- What the handlers do with the row before they raise again. -/
def settleRow (o : RowOutcomes) (unknown : SendM Unit) (e : SendError) : SendM Unit := do
  let message ← ask World.message
  if message && isUnknownSendOutcome e then unknown
  else if message then deleteById o.delete
  else pure ()

def releaseOutgoingSenderTimestamp (o : RowOutcomes) : SendM Unit := do
  let timestamp ← ask World.timestamp
  if timestamp then step o.releaseTimestamp else pure ()

/-- The `try` of the three functions: its handlers settle the row and its cleanup
releases the timestamp. -/
def withStoredRow {α : Type} (o : RowOutcomes) (unknown : SendM Unit) (body : SendM α) :
    SendM α :=
  ensuring
    (handle body (fun e => do
      settleRow o unknown e
      raise e))
    (releaseOutgoingSenderTimestamp o)

def requireStored : SendM Unit := do
  let stored ← ask (fun w => w.timestamp && w.message)
  if stored then pure () else raise (.http 422 .notStored)

/-- A send that was not answered, or refused, is an HTTP error. -/
def acceptReply : Reply → SendM Unit
  | .silent => raise (.http 422 .noRadioResponseAfterSend)
  | .error => raise (.http 422 .sendRejected)
  | _ => pure ()

/-! #### A direct message -/

/-- The awaited steps of `temporary_flood_scope`. -/
structure ScopeOutcomes where
  settings : Step
  applyScope : CommandOutcome
  restoreScope : ℕ → CommandOutcome

/-- The last failed restore is reported when there is an `error_broadcast_fn`. -/
def restoreReported (reported : Bool) (baseline : LiveScope) (attempts : ℕ → CommandOutcome) :
    SendM Unit :=
  update (fun w =>
    let restored := restore (Radio.setFloodScope baseline) id .floodScope
      ((List.range restoreAttempts).map attempts) w
    if reported then restored else { restored with notices := w.notices })

def temporaryFloodScope {α : Type} (override sessionRegion savedFloodScope : Option String)
    (reported : Bool) (o : ScopeOutcomes) (body : SendM α) : SendM α :=
  if (resolveOverrideScope override).2 && sessionRegion.isNone then do
    step o.settings
    let fwVer ← ask (fun w => w.manager.firmwareVerCode)
    ensuring
      (do
        applyOverride
          (Radio.setFloodScope (radioFloodScope (resolveOverrideScope override).1 fwVer))
          .scopeRejected o.applyScope
        body)
      (restoreReported reported
        (radioFloodScope (normalizeRegionScope savedFloodScope) fwVer) o.restoreScope)
  else body

structure DirectSend where
  text : String
  localCommand : Bool
  floodScopeOverride : Option String
  sessionRegion : Option String
  savedFloodScope : Option String
  reported : Bool

structure DirectOutcomes where
  contactSettings : Step
  sendSlot : Step
  radioOperation : Step
  addContact : Reply
  scope : ScopeOutcomes
  send : Reply
  row : RowOutcomes
  broadcast : Step
  lastContacted : Step
  recordAttempt : Step
  trackAck : Step

def ensureContactSettings (a : DirectSend) (o : DirectOutcomes) : SendM Unit :=
  if a.localCommand then pure () else step o.contactSettings

/-- A contact that the radio refuses is sent to all the same. -/
def addContact (a : DirectSend) (reply : Reply) : SendM Unit :=
  if a.localCommand then pure ()
  else
    match reply with
    | .ok => pure ()
    | .error => pure ()
    | _ => raise .other

def sendMsg (reply : Reply) : SendM Reply := do
  update (fun w => { w with sends := w.sends ++ [⟨reply, none⟩] })
  match reply with
  | .raised => raise .other
  | reply => pure reply

/-- The part that holds the send slot and the radio. -/
def sendDirectMessage (a : DirectSend) (o : DirectOutcomes) : SendM Reply := do
  step o.sendSlot
  step o.radioOperation
  addContact a o.addContact
  allocateOutgoingSenderTimestamp o.row.timestamp
  createOutgoing o.row.create
  temporaryFloodScope (if a.localCommand then none else a.floodScopeOverride) a.sessionRegion
    a.savedFloodScope a.reported o.scope (sendMsg o.send)

def directUnknown (o : DirectOutcomes) : SendM Unit := do
  updateSendStatus .unknown o.row.markUnknown
  step o.broadcast
  step o.lastContacted

def directBody (a : DirectSend) (o : DirectOutcomes) : SendM Unit := do
  let result ← sendDirectMessage a o
  acceptReply result
  updateSendStatus .confirmed o.row.confirm
  step o.broadcast

def sendDirectMessageToContact (a : DirectSend) (o : DirectOutcomes) : SendM Unit := do
  requireTextFitsRadio a.text none
  ensureContactSettings a o
  withStoredRow o.row (directUnknown o) (directBody a o)
  requireStored
  step o.lastContacted
  step o.recordAttempt
  step o.trackAck

/-! #### A channel message -/

structure ChannelMessage where
  text : String
  radioName : String
  channel : ChannelSend

structure ChannelMessageOutcomes where
  sendSlot : Step
  radioOperation : Step
  channel : ChannelOutcomes
  row : RowOutcomes
  buildUnknown : Step
  build : Step
  broadcast : Step

def channelUnknown (o : ChannelMessageOutcomes) : SendM Unit := do
  updateSendStatus .unknown o.row.markUnknown
  step o.buildUnknown
  step o.broadcast

def channelBody (a : ChannelMessage) (o : ChannelMessageOutcomes) : SendM Unit := do
  step o.sendSlot
  step o.radioOperation
  requireTextFitsRadio a.text (some a.radioName)
  allocateOutgoingSenderTimestamp o.row.timestamp
  createOutgoing o.row.create
  let result ← sendChannelMessageWithEffectiveScope a.channel o.channel
  acceptReply result
  updateSendStatus .confirmed o.row.confirm

def sendChannelMessageToChannel (a : ChannelMessage) (o : ChannelMessageOutcomes) :
    SendM Unit := do
  withStoredRow o.row (channelUnknown o) (channelBody a o)
  requireStored
  step o.build
  step o.broadcast

/-! #### A resend -/

/-- The time of the resend is set before its timestamp is allocated. -/
def storeResent (newTimestamp : Bool) (o : RowOutcomes) : SendM Unit :=
  if newTimestamp then do
    update (fun w => { w with timestamp := true })
    step o.timestamp
    createOutgoing o.create
  else pure ()

def confirmResent (newTimestamp : Bool) (o : RowOutcomes) : SendM Unit :=
  if newTimestamp then updateSendStatus .confirmed o.confirm else pure ()

def resendBody (channel : ChannelSend) (newTimestamp : Bool) (o : ChannelMessageOutcomes) :
    SendM Unit := do
  step o.sendSlot
  step o.radioOperation
  storeResent newTimestamp o.row
  let result ← sendChannelMessageWithEffectiveScope channel o.channel
  acceptReply result
  confirmResent newTimestamp o.row

def finishResent (newTimestamp : Bool) (o : ChannelMessageOutcomes) : SendM Unit :=
  if newTimestamp then do
    requireStored
    step o.build
    step o.broadcast
  else pure ()

/-- A resend leaves the scope to the channel. -/
def resendChannelMessageRecord (a : ChannelMessage) (newTimestamp : Bool)
    (o : ChannelMessageOutcomes) : SendM Unit :=
  match fromHex a.channel.channelKey.toList with
  | none => raise (.http 400 .invalidChannelKey)
  | some keyBytes => do
    withStoredRow o.row (channelUnknown o)
      (resendBody { a.channel with keyBytes := keyBytes, scopeArgument := none } newTimestamp o)
    finishResent newTimestamp o

end RtfmEv.MessageSend
