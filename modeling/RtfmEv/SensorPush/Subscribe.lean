import RtfmEv.Lib.Run
import RtfmEv.SensorPush.Repository

/-!
# Subscribing to a sensor's pushes (`app/services/sensor_push.py`)

Calls of `subscribe`, of `renew_due` and of `handle_binary_response` are cut at
their awaits and take turns. A request that was sent and the sensor's reply to it
are in the air until they are delivered or lost. A sensor keeps the tag of the last
subscribe request that it accepted, and its pushes carry that tag.

The clock, random tags and what other tables and the radio answer come with the
steps. A request is in the air with the sensor it is for in place of the head of
its frame.
-/

namespace RtfmEv.SensorPush

open RtfmEv.Lib

abbrev maxThresholdBytes : ℕ := 14
abbrev subscribeTimeoutSecs : ℕ := 65535
abbrev renewBeforeSecs : ℤ := 600
abbrev retryAfterSecs : ℤ := 900

/-- A value of a push. A value of several axes has several numbers. -/
structure Reading where
  channel : ℕ
  type : String
  value : List ℚ
  deriving DecidableEq

/-- The LPP library, and rounding a minimum change times a multiplier in floats. -/
structure LppTools where
  typeName : ℕ → Option String
  parse : Bytes → Option (List Reading)
  scale : ℚ → ℕ → ℕ

/-- Size, multiplier and sign of the scalar types. -/
def lppScalar : List (ℕ × ℕ × ℕ × Bool) :=
  [(0, 1, 1, false), (1, 1, 1, false), (2, 2, 100, true), (3, 2, 100, true), (100, 4, 1, false),
    (101, 2, 1, false), (102, 1, 1, false), (103, 2, 10, true), (104, 2, 10, false),
    (115, 2, 10, false), (116, 2, 100, false), (117, 2, 1000, false), (118, 4, 1, false),
    (120, 1, 1, false), (121, 2, 1, true), (125, 2, 1, false), (128, 2, 1, false),
    (130, 4, 1000, false), (131, 4, 1000, false), (132, 2, 1, false), (142, 1, 1, false)]

/-- The scalar type of a name: its code, size, multiplier and sign. Of two codes
with one name the later one counts. -/
def thresholdType (L : LppTools) (name : String) : Option (ℕ × ℕ × ℕ × Bool) :=
  lppScalar.reverse.find? (fun t => decide (L.typeName t.1 = some name))

def encodeThreshold (L : LppTools) (entry : Threshold) : Except String Bytes :=
  let name := entry.typeName
  let channel := entry.channel
  match thresholdType L name with
  | none => .error s!"Unsupported sensor type for push: {name}"
  | some (code, size, mult, signed) =>
    let raw := L.scale entry.minDelta mult
    if ¬(0 ≤ channel ∧ channel ≤ 255) then
      .error s!"Bad channel: {channel}"
    else if raw < 1 then
      .error (s!"Minimum change for channel {channel} is below the sensor's resolution" ++
        s!" (1/{mult})")
    else if raw ≥ 2 ^ (size * 8 - (if signed then 1 else 0)) then
      .error s!"Minimum change for channel {channel} is too large"
    else
      .ok ([UInt8.ofNat channel.toNat, UInt8.ofNat code] ++ toBytesBE size raw)

def encodeThresholds (L : LppTools) (thresholds : List Threshold) : Except String Bytes :=
  if thresholds = [] then
    .error "Pick at least one channel"
  else
    match thresholds.mapM (encodeThreshold L) with
    | .error e => .error e
    | .ok parts =>
      let len := parts.flatten.length
      let most := maxThresholdBytes
      if len > maxThresholdBytes then
        .error s!"Thresholds take {len} bytes; the sensor keeps {most}"
      else
        .ok parts.flatten

def buildSubscribeBody (pushTag : Bytes) (timeoutSecs : ℕ) (thresholds : Bytes) : Bytes :=
  pushTag ++ (toBytesBE 2 timeoutSecs).reverse ++ [0] ++ [UInt8.ofNat thresholds.length] ++
    thresholds

/-- The tag that a sensor reads in a subscribe request. -/
def tagOfBody (body : Bytes) : Bytes := body.take 4

/-- The granted seconds, zero when refused, and the bytes of the scope's name. -/
def parseSubscribeReply (data : Bytes) : ℕ × Bytes :=
  if data.length < 2 then (0, [])
  else
    (fromBytesLE (slice data 0 2),
      if data.length > 4 then (data.drop 4).takeWhile (fun b => b ≠ 0) else [])

/-- The readings of a push, `none` when they cannot be parsed. -/
def parsePush (L : LppTools) (data : Bytes) : Option (List Reading) :=
  if data.length > 4 then L.parse (data.drop 4) else some []

/-! ## Calls and steps -/

/-- What a subscribe call sends, and when it looked at the clock. -/
structure Attempt where
  tag : Bytes
  now : ℤ
  body : Bytes
  deriving DecidableEq

/-- What a subscribe call does next. -/
inductive Stage
  | readRow
  | readContact (row : Option Row)
  | mark (a : Attempt)
  | send (a : Attempt)
  | await (a : Attempt) (request : ℕ)
  | record (a : Attempt) (reply : Option Bytes)
  | disable (a : Attempt)
  deriving DecidableEq

/-- Who awaits a subscribe call: a route, or a `renew_due` with the rows that it
has not looked at yet. -/
inductive Caller
  | route
  | renewal (now : ℤ) (rest : List (PublicKey × Row))
  deriving DecidableEq

/-- A call between two of its awaits. `sender` is the sensor that sent the push,
which the code does not know. -/
inductive Call
  | subscribe (caller : Caller) (key : PublicKey) (stage : Stage)
  | renew (now : ℤ) (rest : List (PublicKey × Row))
  | find (sender : Option PublicKey) (tag data : Bytes)
  | telemetry (key : PublicKey) (sensors : List Reading)
  | recordPush (key : PublicKey)
  deriving DecidableEq

/-- What goes on when a subscribe call returns or raises. -/
def Caller.resume : Caller → Option Call
  | route => none
  | renewal now rest => some (.renew now rest)

inductive Message
  | request (number : ℕ) (key : PublicKey) (body : Bytes)
  | reply (number : ℕ) (data : Bytes)
  deriving DecidableEq

structure State where
  rows : Rows
  calls : ℕ → Option Call
  air : List Message
  sent : ℕ
  sensors : PublicKey → Option Bytes
  recorded : List (PublicKey × List Reading)

def State.empty : State :=
  { rows := OrderedDict.empty, calls := fun _ => none, air := [], sent := 0
    sensors := fun _ => none, recorded := [] }

/-- The state with another call, or none, in a place. -/
def State.put (s : State) (id : ℕ) (call : Option Call) : State :=
  { s with calls := Function.update s.calls id call }

/-- What an await of a call gave. `gone` is an error of the radio, or no reply in
time. `raised` is an exception that `renew_due` catches, `cancelled` one that it
does not. -/
inductive Outcome
  | done
  | prepared (contact : Bool) (tag : Bytes) (now : ℤ)
  | replied (i : ℕ)
  | gone
  | contact (known : Bool)
  | clock (now : ℤ)
  | raised
  | cancelled
  deriving DecidableEq

/-- The attempt of a subscribe call, unless it raises `ThresholdError`. -/
def prepareAttempt (L : LppTools) (row : Option Row) (contact : Bool) (tag : Bytes) (now : ℤ) :
    Except String Attempt :=
  match row, contact with
  | some row, true =>
    (encodeThresholds L row.thresholds).map
      (fun thresholds => ⟨tag, now, buildSubscribeBody tag subscribeTimeoutSecs thresholds⟩)
  | _, _ => .error "Sensor push is not configured"

/-- A row that `renew_due` leaves alone. -/
def notDue (now : ℤ) (row : Row) : Bool :=
  row.grantedUntil.any (fun granted => granted - now > renewBeforeSecs) ||
    (row.lastError.isSome &&
      row.lastAttemptAt.any (fun lastAttempt => now - lastAttempt < retryAfterSecs))

/-- What a subscribe call writes when it has its reply, or none. -/
def recordReply (s : State) (caller : Caller) (key : PublicKey) (a : Attempt) :
    Option Bytes → State × Option Call
  | none => ({ s with rows := setError key .noReply a.now s.rows }, caller.resume)
  | some data =>
    if (parseSubscribeReply data).1 = 0 then
      ({ s with rows := setError key .refused a.now s.rows },
        some (.subscribe caller key (.disable a)))
    else
      ({ s with
          rows := setGranted key a.tag (a.now + (parseSubscribeReply data).1)
            (parseSubscribeReply data).2 a.now s.rows },
        caller.resume)

/-- One turn of a subscribe call: the state it leaves and what is called next. -/
def stepSubscribe (L : LppTools) (s : State) (caller : Caller) (key : PublicKey) :
    Stage → Outcome → Option (State × Option Call)
  | .readRow, .done => some (s, some (.subscribe caller key (.readContact (s.rows.get? key))))
  | .readContact row, .prepared contact tag now =>
    if tag.length = 4 ∧ tag ≠ [0, 0, 0, 0] then
      match prepareAttempt L row contact tag now with
      | .error _ => some (s, caller.resume)
      | .ok a => some (s, some (.subscribe caller key (.mark a)))
    else none
  | .mark a, .done =>
    some ({ s with rows := markAttempt key a.tag a.now s.rows },
      some (.subscribe caller key (.send a)))
  | .send a, .done =>
    some ({ s with air := s.air ++ [.request s.sent key a.body], sent := s.sent + 1 },
      some (.subscribe caller key (.await a s.sent)))
  | .send a, .gone => some (s, some (.subscribe caller key (.record a none)))
  | .await a request, .replied i =>
    match s.air[i]? with
    | some (.reply number data) =>
      if number = request then
        some ({ s with air := s.air.eraseIdx i },
          some (.subscribe caller key (.record a (some data))))
      else none
    | _ => none
  | .await a _, .gone => some (s, some (.subscribe caller key (.record a none)))
  | .record a reply, .done => some (recordReply s caller key a reply)
  | .disable a, .done =>
    some ({ s with rows := setEnabled key false a.now s.rows }, caller.resume)
  | _, .raised => some (s, caller.resume)
  | _, .cancelled => some (s, none)
  | _, _ => none

/-- One turn of a call. -/
def stepCall (L : LppTools) (s : State) : Call → Outcome → Option (State × Option Call)
  | .subscribe caller key stage, o => stepSubscribe L s caller key stage o
  | .renew _ [], .done => some (s, none)
  | .renew now (e :: rest), .done =>
    if notDue now e.2 then some (s, some (.renew now rest))
    else some (s, some (.subscribe (.renewal now rest) e.1 .readRow))
  | .find _ tag data, .done =>
    if tag = [] then some (s, none)
    else
      match findEnabledByTag tag s.rows with
      | none => some (s, none)
      | some e =>
        match parsePush L data with
        | none => some (s, none)
        | some [] => some (s, none)
        | some (r :: rs) => some (s, some (.telemetry e.1 (r :: rs)))
  | .telemetry key sensors, .contact known =>
    some ({ s with recorded := if known then s.recorded ++ [(key, sensors)] else s.recorded },
      some (.recordPush key))
  | .recordPush key, .clock now => some ({ s with rows := recordPush key now s.rows }, none)
  | _, .raised => some (s, none)
  | _, .cancelled => some (s, none)
  | _, _ => none

/-- A step: a call is started in a free place or takes a turn, a message in the air
is lost or delivered, a sensor pushes, another binary response arrives, or a route
writes to a row. -/
inductive Label
  | subscribe (id : ℕ) (key : PublicKey)
  | renewDue (id : ℕ) (now : ℤ) (optedIn connected : Bool)
  | turn (id : ℕ) (o : Outcome)
  | lose (i : ℕ)
  | accept (i : ℕ) (data : Bytes)
  | refuse (i : ℕ) (data : Bytes)
  | push (id : ℕ) (key : PublicKey) (data : Bytes)
  | response (id : ℕ) (tag data : Bytes)
  | saveConfig (key : PublicKey) (thresholds : List Threshold) (now : ℤ)
  | setEnabled (key : PublicKey) (enabled : Bool) (now : ℤ)
  deriving DecidableEq

/-- Start a call in a free place. -/
def State.start (s : State) (id : ℕ) (call : Call) : Option State :=
  if (s.calls id).isNone then some (s.put id (some call)) else none

def step (L : LppTools) (s : State) : Label → Option State
  | .subscribe id key => s.start id (.subscribe .route key .readRow)
  | .renewDue id now optedIn connected =>
    if optedIn && connected then s.start id (.renew now (listEnabled s.rows)) else some s
  | .turn id o =>
    match s.calls id with
    | none => none
    | some call => (stepCall L s call o).map (fun r => r.1.put id r.2)
  | .lose i => if i < s.air.length then some { s with air := s.air.eraseIdx i } else none
  | .accept i data =>
    match s.air[i]? with
    | some (.request number key body) =>
      if (parseSubscribeReply data).1 = 0 then none
      else
        some
          { s with
            air := s.air.eraseIdx i ++ [.reply number data]
            sensors := Function.update s.sensors key (some (tagOfBody body)) }
    | _ => none
  | .refuse i data =>
    match s.air[i]? with
    | some (.request number _ _) =>
      if (parseSubscribeReply data).1 = 0 then
        some { s with air := s.air.eraseIdx i ++ [.reply number data] }
      else none
    | _ => none
  | .push id key data =>
    match s.sensors key with
    | none => none
    | some tag => s.start id (.find (some key) tag data)
  | .response id tag data => s.start id (.find none tag data)
  | .saveConfig key thresholds now =>
    some { s with rows := SensorPush.saveConfig key thresholds now s.rows }
  | .setEnabled key enabled now =>
    some { s with rows := SensorPush.setEnabled key enabled now s.rows }

/-- The step relation. -/
def Step (L : LppTools) (s : State) (l : Label) (s' : State) : Prop := step L s l = some s'

/-! ## What a step can do -/

theorem tagOfBody_buildSubscribeBody {tag : Bytes} (h : tag.length = 4) (timeoutSecs : ℕ)
    (thresholds : Bytes) : tagOfBody (buildSubscribeBody tag timeoutSecs thresholds) = tag := by
  simp only [tagOfBody, buildSubscribeBody, List.append_assoc]
  exact List.take_left' h

end RtfmEv.SensorPush
