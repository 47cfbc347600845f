import RtfmEv.DirectMessage.Send

/-!
# Direct messages of the companion bridge (`app/companion_bridge/server.py`)

`_send_direct`, `on_event`, `_close`, `_prune_acks` and `_write`, cut at their
awaits, over the sends and ACKs of direct messages: what is awaited inside
`send_direct_message_to_contact` is a run of those operations. A session is an
object of one connection and is never used again. The frames of one session go
through its write lock, which is handed on in the order it was asked for.

A frame is kept with the message it was made for, since two messages may draw the
same token.
-/

namespace RtfmEv.CompanionBridge

open RtfmEv.Lib RtfmEv.DirectMessage

abbrev ackTokenTtlS : ℚ := 3600

/-- Four bytes of `os.urandom`. -/
abbrev Token := BitVec 32

/-- `frames.sent`, `frames.send_confirmed` with its round trip in milliseconds
before rounding, and any other frame. -/
inductive Frame
  | sent (message : ℕ) (flood : Bool) (ack : Token)
  | sendConfirmed (message : ℕ) (ack : Token) (roundTripMs : ℚ)
  | other
  deriving DecidableEq

/-- The message a frame was made for. -/
def Frame.message : Frame → Option ℕ
  | .sent m _ _ => some m
  | .sendConfirmed m _ _ => some m
  | .other => none

/-- An entry of `_acks`. -/
structure AckEntry where
  session : ℕ
  token : Token
  sentAt : ℚ
  deriving DecidableEq

/-- Where a call of `_send_direct` waits: for the send, or for its SENT frame to
be written, with `message.acked` of the message that was returned. -/
inductive SendDirectPhase
  | sending
  | writing (acked : Bool)
  deriving DecidableEq

structure SendDirect where
  session : ℕ
  flood : Bool
  phase : SendDirectPhase
  deriving DecidableEq

/-- The write lock of a session: the frame its holder drains, the frames of those
who wait for it, and what was written. -/
structure Writer where
  draining : Option Frame := none
  waiting : List Frame := []
  written : List Frame := []

structure BridgeState where
  dm : DmState := {}
  monotonic : ℚ := 0
  lastSession : ℕ := 0
  sessions : List ℕ := []
  acks : Table ℕ AckEntry := .empty
  sends : Table ℕ SendDirect := .empty
  spawned : List (ℕ × Frame) := []
  writers : ℕ → Writer := fun _ => {}

/-! ### What a send of a direct message reports -/

/-- The message that `increment_ack_and_broadcast` announces as acked. -/
def acked : DmOp → Option ℕ
  | .count m => some m
  | .increment m => some m
  | _ => none

/-- How `send_direct_message_to_contact` ends with an operation: it returns the
message, acked if its code was buffered, or it raises. -/
inductive SendResult
  | returned (acked : Bool)
  | raised
  deriving DecidableEq

def sendResult (s : DmState) : DmOp → Option (ℕ × SendResult)
  | .firstSent m none _ => some (m, .returned false)
  | .firstSent m (some code) _ =>
    if (s.tables.buffered.get code).isSome then none else some (m, .returned false)
  | .count m => some (m, .returned true)
  | .firstFailed m _ => some (m, .raised)
  | _ => none

/-- The entry is older than `ACK_TOKEN_TTL_S`. -/
def AckEntry.stale (now : ℚ) (e : AckEntry) : Bool := decide (e.sentAt < now - ackTokenTtlS)

namespace BridgeState

/-! ### Writing -/

def setWriter (c : ℕ) (w : Writer) (b : BridgeState) : BridgeState :=
  { b with writers := Function.update b.writers c w }

/-- `_write` up to its wait for the lock. -/
def write (c : ℕ) (frame : Frame) (b : BridgeState) : BridgeState :=
  if c ∈ b.sessions then
    b.setWriter c { b.writers c with waiting := (b.writers c).waiting ++ [frame] }
  else b

/-- `_spawn` of a `_write`: it starts in a later turn of the event loop. -/
def spawn (c : ℕ) (frame : Frame) (b : BridgeState) : BridgeState :=
  { b with spawned := b.spawned ++ [(c, frame)] }

def close (c : ℕ) (b : BridgeState) : BridgeState :=
  { b with
    sessions := b.sessions.filter (fun c' => c' != c)
    acks := b.acks.keep (fun e => e.session != c) }

/-- The oldest spawned write starts. -/
def startWrite (b : BridgeState) : Option BridgeState :=
  match b.spawned with
  | [] => none
  | (c, frame) :: rest => some (write c frame { b with spawned := rest })

/-- The lock is free and the first who waits for it writes. -/
def acquire (c : ℕ) (b : BridgeState) : Option BridgeState :=
  match (b.writers c).draining, (b.writers c).waiting with
  | none, frame :: rest => some (b.setWriter c ⟨some frame, rest, (b.writers c).written ++ [frame]⟩)
  | _, _ => none

/-- The frame was drained, or the connection failed. -/
def drained (c : ℕ) (failed : Bool) (b : BridgeState) : Option BridgeState :=
  match (b.writers c).draining with
  | none => none
  | some _ =>
    let b := b.setWriter c { b.writers c with draining := none }
    some (if failed then b.close c else b)

/-! ### ACKs -/

def onAcked (m : ℕ) (b : BridgeState) : BridgeState :=
  match b.acks.get m with
  | none => b
  | some e =>
    let b := { b with acks := b.acks.erase m }
    if e.session ∈ b.sessions then
      b.spawn e.session (.sendConfirmed m e.token ((b.monotonic - e.sentAt) * 1000))
    else b

/-- `on_event` for a `message_acked`. -/
def onEvent (m : ℕ) (b : BridgeState) : BridgeState :=
  if b.sessions = [] then b else b.onAcked m

def pruneAcks (b : BridgeState) : BridgeState :=
  { b with acks := b.acks.keep (fun e => !e.stale b.monotonic) }

/-! ### `_send_direct` -/

/-- The row is stored inside the send. -/
def sendDirect (c m : ℕ) (flood : Bool) (b : BridgeState) : Option BridgeState :=
  if c ≤ b.lastSession then
    (DmOp.apply b.dm (.create m)).map (fun dm =>
      { b with
        dm := dm
        sends := b.sends.set m ⟨c, flood, .sending⟩ })
  else none

/-- The send returned: the token is registered and the SENT frame written. -/
def sendReturned (m : ℕ) (acked : Bool) (token : Token) (d : SendDirect) (b : BridgeState) :
    BridgeState :=
  let b := pruneAcks { b with acks := b.acks.set m ⟨d.session, token, b.monotonic⟩ }
  write d.session (.sent m d.flood token)
    { b with sends := b.sends.set m { d with phase := .writing acked } }

/-- The send raised: the command is answered with an error. -/
def sendRaised (m : ℕ) (d : SendDirect) (b : BridgeState) : BridgeState :=
  write d.session .other { b with sends := b.sends.erase m }

/-- A call of `_send_direct` that waits for the send goes on when it ends. -/
def sendEnded (m : ℕ) (result : SendResult) (token : Token) (b : BridgeState) : BridgeState :=
  match b.sends.get m, result with
  | some ⟨c, flood, .sending⟩, .returned acked => b.sendReturned m acked token ⟨c, flood, .sending⟩
  | some ⟨c, flood, .sending⟩, .raised => b.sendRaised m ⟨c, flood, .sending⟩
  | _, _ => b

/-- No frame of the message waits for the lock or is drained. -/
def sentWasWritten (m : ℕ) (w : Writer) : Bool :=
  !(w.draining.toList ++ w.waiting).any (fun frame => frame.message == some m)

/-- The write of the SENT frame returned. -/
def sentWritten (m : ℕ) (b : BridgeState) : Option BridgeState :=
  match b.sends.get m with
  | some ⟨c, _, .writing acked⟩ =>
    if sentWasWritten m (b.writers c) then
      let b := { b with sends := b.sends.erase m }
      some (if acked then b.onAcked m else b)
    else none
  | _ => none

/-- An operation on the direct messages, with what it means for the bridge. -/
def dmStep (op : DmOp) (token : Token) (dm : DmState) (b : BridgeState) : BridgeState :=
  let reported := match acked op with
    | some m => onEvent m { b with dm := dm }
    | none => { b with dm := dm }
  match sendResult b.dm op with
  | some (m, result) => reported.sendEnded m result token
  | none => reported

end BridgeState

/-- What can happen. `echo` is the `message_acked` of a heard copy of a message,
which tells its paths; `answer` and `push` write the other frames of a session. -/
inductive BridgeOp
  | connect (c : ℕ)
  | close (c : ℕ)
  | advance (now : ℚ)
  | answer (c : ℕ)
  | push (c : ℕ)
  | sendDirect (c m : ℕ) (flood : Bool)
  | dm (op : DmOp) (token : Token)
  | echo (m : ℕ)
  | startWrite
  | acquire (c : ℕ)
  | drained (c : ℕ) (failed : Bool)
  | sentWritten (m : ℕ)
  deriving DecidableEq

/-- The state after an operation, `none` when it cannot happen. -/
def BridgeOp.apply (b : BridgeState) : BridgeOp → Option BridgeState
  | .connect c =>
    if b.lastSession < c then
      some { b with
        lastSession := c
        sessions := b.sessions ++ [c] }
    else none
  | .close c => some (b.close c)
  | .advance now => if b.monotonic ≤ now then some { b with monotonic := now } else none
  | .answer c => some (b.write c .other)
  | .push c => some (b.spawn c .other)
  | .sendDirect c m flood => b.sendDirect c m flood
  | .dm op token => (op.apply b.dm).map (fun dm => b.dmStep op token dm)
  | .echo m => some (b.onEvent m)
  | .startWrite => b.startWrite
  | .acquire c => b.acquire c
  | .drained c failed => b.drained c failed
  | .sentWritten m => b.sentWritten m

abbrev BridgeEvent := Event BridgeState BridgeOp

def BridgeStep (b : BridgeState) (op : BridgeOp) (b' : BridgeState) : Prop := op.apply b = some b'

end RtfmEv.CompanionBridge
