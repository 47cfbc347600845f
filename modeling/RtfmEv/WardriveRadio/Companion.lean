import RtfmEv.Lib.Run

/-!
# The companion radio of a drive

A `Companion` sends the radio one command at a time and takes the first reply that fits. The
replies carry no number, so a reply that comes after its wait timed out looks like the answer
to a later command. `lateReplies` is what the companion remembers of that: it goes up when a
wait times out, and down when a reply with a code of its own arrives.

The radio handles the commands in the order in which they are sent and answers each of them
once. The answers keep their order, each of them may be on its way for any time, and any of
them may be lost.
-/

namespace RtfmEv.WardriveRadio

open RtfmEv.Lib

/-- A frame on the link, its code first. -/
abbrev Frame := List UInt8

def respOk : UInt8 := 0
def respErr : UInt8 := 1
def respContact : UInt8 := 3
def respEndOfContacts : UInt8 := 4
/-- A directed packet was queued for the air. -/
def respSent : UInt8 := 6
def respCurrTime : UInt8 := 9
def respSignStart : UInt8 := 19
def respSignature : UInt8 := 20
def respStats : UInt8 := 24

def errCodeNotFound : UInt8 := 2
def contactFrameLen : ℕ := 148

/-- The data bytes of a sign frame. -/
def signChunk : ℕ := 128
/-- A radio that did not answer a stats request is not asked again for five minutes. -/
def statsQuietMs : ℤ := 5 * 60 * 1000

/-- The code of a frame. -/
def Frame.code (frame : Frame) : Option UInt8 := frame.head?

/-! ### The calls -/

/-- What a `transmit` takes for its answer. -/
inductive Accept
  | ok
  | sent
deriving DecidableEq

/-- What a `request` reads in a reply: a contact, the word that there is none, or whether a
write was acknowledged. -/
inductive Reading
  | contact (pubkey raw : Frame)
  | notFound
  | acked (ok : Bool)
deriving DecidableEq

/-- A found contact or the word that there is none, and nothing for any other frame. -/
def parseContactReply (bytes : Frame) : Option Reading :=
  if bytes.code = some respErr then
    if bytes[1]? = some errCodeNotFound then some .notFound else none
  else if bytes.code = some respContact ∧ contactFrameLen ≤ bytes.length then
    let raw := bytes.take contactFrameLen
    some (.contact ((raw.drop 1).take 32) raw)
  else none

/-- What `getContact` reads in a reply. A not-found error may be a late answer to something
else. -/
def acceptContact (pk : Frame) (bytes : Frame) (late : Bool) : Option Reading :=
  match parseContactReply bytes with
  | none => none
  | some .notFound => if late then none else some .notFound
  | some (.contact pubkey raw) => if pubkey ≠ pk then none else some (.contact pubkey raw)
  | some (.acked ok) => some (.acked ok)

/-- What `writeContact` reads in a reply. While a late answer may come, an ack proves
nothing. -/
def acceptWrite (bytes : Frame) (late : Bool) : Option Reading :=
  if bytes.code ≠ some respOk ∧ bytes.code ≠ some respErr then none
  else if late then some (.acked false)
  else some (.acked (decide (bytes.code = some respOk)))

/-- A call on the companion. -/
inductive Call
  | transmit (frame : Frame) (accept : Accept)
  | request (frame : Frame) (accept : Frame → Bool → Option Reading)
  | stats (type : UInt8)
  | contacts
  | sign (bytes : Frame)

/-- What a call resolves with. A `sign` that resolves with nothing was rejected. -/
inductive Result
  | transmit (sent : Bool) (reply : Option Frame)
  | request (reading : Option Reading)
  | stats (frame : Option Frame)
  | contacts
  | sign (signature : Option Frame)
deriving DecidableEq

/-- What the companion waits for after the frame it sent last. A transmit keeps the flag it
found when it began, a sign knows how far it is. -/
inductive Wait
  | transmit (accept : Accept) (late : Bool)
  | request (accept : Frame → Bool → Option Reading)
  | stats (type : UInt8)
  | deviceTime
  | contacts
  | signStart (bytes : Frame) (ignoreErrors : Bool)
  | signData (bytes : Frame) (i : ℕ)
  | signFinish (bytes : Frame)

/-! ### The companion and its radio -/

structure State where
  /-- The calls that have not had their turn. -/
  chain : List Call
  /-- The call whose turn it is, and what it waits for. -/
  turn : Option Call
  waiting : Option Wait
  lateReplies : Bool
  statsQuietUntil : ℤ
  /-- What the call that the last step settled resolved with. -/
  settled : Option Result
  /-- How many commands the radio was sent. -/
  sent : ℕ
  /-- The radio's answer to the last of them. -/
  last : Frame
  /-- The answers on their way, each with the number of its command. -/
  coming : List (ℕ × Frame)
  /-- The sign buffer of the radio. -/
  buffer : Frame

/-- A companion that nothing was asked of yet. -/
def State.init : State :=
  { chain := [], turn := none, waiting := none, lateReplies := false, statsQuietUntil := 0
    settled := none, sent := 0, last := [], coming := [], buffer := [] }

variable (signature : Frame → Frame)

/-- The radio's answer to a command, where it would answer `a`: a signature is over what is in
the sign buffer. -/
def Wait.answer (w : Wait) (a buffer : Frame) : Frame :=
  match w with
  | .signFinish _ =>
    if a.code = some respSignature then respSignature :: signature buffer else a
  | _ => a

/-- The sign buffer after the command: a start that is taken clears it, a chunk that is taken
is appended. -/
def Wait.buffered (w : Wait) (a buffer : Frame) : Frame :=
  match w with
  | .signStart _ _ => if a.code = some respSignStart then [] else buffer
  | .signData bytes i =>
    if a.code = some respOk then buffer ++ (bytes.drop i).take signChunk else buffer
  | _ => buffer

/-- The frame of a wait goes out, and the radio answers it. -/
def State.send (s : State) (w : Wait) (a : Frame) : State :=
  { s with
    waiting := some w
    sent := s.sent + 1
    last := w.answer signature a s.buffer
    coming := s.coming ++ [(s.sent + 1, w.answer signature a s.buffer)]
    buffer := w.buffered a s.buffer }

/-- The wait is over, and with it the call. -/
def State.finish (s : State) (r : Result) : State :=
  { s with turn := none, waiting := none, settled := some r }

/-- The next chunk of a sign, or its end. -/
def State.signNext (s : State) (bytes : Frame) (i : ℕ) (a : Frame) : State :=
  if i < bytes.length then s.send signature (.signData bytes i) a
  else s.send signature (.signFinish bytes) a

/-- The longest message that the radio signs, as its answer to a start has it. -/
def maxLen : Frame → Option ℕ
  | _ :: _ :: b₀ :: b₁ :: b₂ :: b₃ :: _ =>
    some (b₀.toNat + 256 * b₁.toNat + 65536 * b₂.toNat + 16777216 * b₃.toNat)
  | _ => none

/-- The chain's next call gets its turn. `allowed` is asked right before the frame of a
transmit goes. -/
def State.begin (s : State) (allowed : Bool) (a : Frame) : Call → State
  | .transmit _ accept =>
    if allowed then s.send signature (.transmit accept s.lateReplies) a
    else s.finish (.transmit false none)
  | .request _ accept => s.send signature (.request accept) a
  | .stats type => s.send signature (.stats type) a
  | .contacts => s.send signature .deviceTime a
  | .sign bytes => s.send signature (.signStart bytes s.lateReplies) a

/-- A reply arrives at the listener of the wait. `a` is the answer to the frame that goes out
upon it, where one does. -/
def State.receive (s : State) (reply a : Frame) : Wait → State
  | .transmit accept late =>
    if accept = .sent ∧ reply.code = some respSent ∧ 10 ≤ reply.length then
      { s with lateReplies := false }.finish (.transmit true (some reply))
    else if accept = .ok ∧ (reply.code = some respOk ∨ reply.code = some respErr) ∧ late then
      s.finish (.transmit true none)
    else if accept = .ok ∧ reply.code = some respOk then
      s.finish (.transmit true (some reply))
    else if reply.code = some respErr ∧ ¬ late then
      s.finish (.transmit false none)
    else s
  | .request accept =>
    match accept reply s.lateReplies with
    | none => s
    | some v =>
      if reply.code ≠ some respOk ∧ reply.code ≠ some respErr then
        { s with lateReplies := false }.finish (.request (some v))
      else s.finish (.request (some v))
  | .stats type =>
    if reply.code = some respStats ∧ reply[1]? = some type then s.finish (.stats (some reply))
    else s
  | .deviceTime =>
    if reply.code = some respCurrTime ∧ 5 ≤ reply.length then s.send signature .contacts a
    else s
  | .contacts => if reply.code = some respEndOfContacts then s.finish .contacts else s
  | .signStart bytes ignoreErrors =>
    if reply.code = some respErr ∧ ¬ ignoreErrors then s.finish (.sign none)
    else if reply.code ≠ some respSignStart then s
    else
      let s := { s with lateReplies := false }
      match maxLen reply with
      | none => s.finish (.sign none)
      | some limit =>
        if limit < bytes.length then s.finish (.sign none)
        else s.signNext signature bytes 0 a
  | .signData bytes i =>
    if reply.code = some respErr then s.finish (.sign none)
    else if reply.code ≠ some respOk then s
    else s.signNext signature bytes (i + signChunk) a
  | .signFinish _ =>
    if reply.code = some respErr then s.finish (.sign none)
    else if reply.code ≠ some respSignature then s
    else if reply.length < 65 then s.finish (.sign none)
    else s.finish (.sign (some ((reply.drop 1).take 64)))

/-- The timer of a wait goes off. -/
def State.timeout (s : State) (now : ℤ) (a : Frame) : Wait → State
  | .transmit _ _ => { s with lateReplies := true }.finish (.transmit true none)
  | .request _ => { s with lateReplies := true }.finish (.request none)
  | .stats _ => { s with statsQuietUntil := now + statsQuietMs }.finish (.stats none)
  | .deviceTime => s.send signature .contacts a
  | .contacts => s.finish .contacts
  | .signStart _ _ | .signData _ _ | .signFinish _ =>
    { s with lateReplies := true }.finish (.sign none)

/-- The link gives the frame of a wait back. -/
def State.linkError (s : State) (a : Frame) : Wait → State
  | .transmit _ _ => s.finish (.transmit false none)
  | .request _ => s.finish (.request none)
  | .stats _ => s.finish (.stats none)
  | .deviceTime => s.send signature .contacts a
  | .contacts => s.finish .contacts
  | .signStart _ _ | .signData _ _ | .signFinish _ => s.finish (.sign none)

/-! ### Runs -/

/-- What can happen. An `a` is the radio's answer to the frame that goes out in the step. -/
inductive Label
  | call (c : Call) (now : ℤ)
  | begin (allowed : Bool) (a : Frame)
  | reply (a : Frame)
  | timeout (now : ℤ) (a : Frame)
  | linkError (a : Frame)
  | lose (k : ℕ)

/-- A call joins the chain, but for a stats request in the quiet time, which is answered at
once. -/
def State.call (s : State) (now : ℤ) : Call → State
  | .stats type =>
    if now < s.statsQuietUntil then { s with settled := some (.stats none) }
    else { s with chain := s.chain ++ [.stats type] }
  | c => { s with chain := s.chain ++ [c] }

/-- One step, where it is possible. -/
def step (s : State) (l : Label) : Option State :=
  let s := { s with settled := none }
  match l with
  | .call c now => some (s.call now c)
  | .begin allowed a =>
    match s.waiting, s.chain with
    | none, c :: chain => some ({ s with chain := chain, turn := some c }.begin signature allowed a c)
    | _, _ => none
  | .reply a =>
    match s.coming, s.waiting with
    | p :: coming, some w => some ({ s with coming := coming }.receive signature p.2 a w)
    | _ :: coming, none => some { s with coming := coming }
    | [], _ => none
  | .timeout now a => s.waiting.map (s.timeout signature now a)
  | .linkError a => s.waiting.map (s.linkError signature a)
  | .lose k => some { s with coming := s.coming.eraseIdx k }

/-- The steps of a companion as a transition system. -/
def Step (s : State) (l : Label) (t : State) : Prop := step signature s l = some t

end RtfmEv.WardriveRadio
