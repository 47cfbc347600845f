import RtfmEv.Lib.Run
import RtfmEv.Lib.TaskTable

/-!
# Storing incoming direct messages (`app/services/dm_ingest.py`, `app/repository/messages.py`)

A direct message reaches us in raw packets, which the server decrypts, and from the
companion radio, which has decrypted it. Both paths store it: the first under a lock, by
the link from the packet and the unique index; the second by a look for a row of the same
content. Each call on the database is one step, and other ingests run between any two.

The table holds the incoming direct messages, in the order of their ids.
-/

namespace RtfmEv.DmIngest

open RtfmEv.Lib

/-! ### Messages -/

/-- The key of a sender, as it is stored: a key that is looked up is in lower case. -/
structure Key where
  text : String
  nonempty : text ≠ ""
  lower : text.toList.all (fun c => !c.isUpper) = true
  deriving DecidableEq

/-- What tells two messages apart. -/
structure Dm where
  conversation : String
  senderKey : Key
  text : String
  ts : ℤ
  deriving DecidableEq

/-- A message as it is decrypted, its conversation and its sender resolved. What a repeater
sends and CLI responses are not stored. -/
structure Incoming where
  conversation : String
  senderKey : Key
  text : String
  txtType : ℕ
  ts : ℤ
  chat : txtType ≠ 1

/-- How texts are stored: commands masked, SMAZ bodies decoded. -/
structure TextForms where
  redactCliCommand : String → String
  decodeMessageText : String → String

def txtTypeCliCommand : ℕ := 3

/-- The text that `_store_direct_message` stores of an incoming message. -/
def TextForms.stored (forms : TextForms) (txtType : ℕ) (text : String) : String :=
  if txtType = txtTypeCliCommand then forms.redactCliCommand text
  else if txtType ≠ 1 then forms.decodeMessageText text
  else text

def Incoming.dm (forms : TextForms) (m : Incoming) : Dm where
  conversation := m.conversation
  senderKey := m.senderKey
  text := forms.stored m.txtType m.text
  ts := m.ts

/-- A way that a message came. -/
structure Heard where
  path : String
  receivedAt : ℤ
  pathLen : Option ℕ
  deriving DecidableEq

structure Row where
  id : ℕ
  dm : Dm
  txtType : ℕ
  receivedAt : ℤ
  paths : List Heard
  deriving DecidableEq

/-- The messages, and the raw packets that are linked to one. -/
structure Db where
  rows : List Row := []
  nextId : ℕ := 1
  links : ℕ → Option ℕ := fun _ => none

/-- The arguments of `_store_direct_message`, for an incoming message. -/
structure Call where
  packetId : Option ℕ
  dm : Dm
  txtType : ℕ
  receivedAt : ℤ
  path : Option String
  pathLen : Option ℕ
  bestEffortContentDedup : Bool
  linkedPacketDedup : Bool
  updateLastContacted : Bool

namespace Call

variable (forms : TextForms) (receivedAt : ℤ) (path : Option String) (pathLen : Option ℕ)

/-- `ingest_decrypted_direct_message`. -/
def decrypted (packetId : ℕ) (m : Incoming) : Call where
  packetId := some packetId
  dm := m.dm forms
  txtType := m.txtType
  receivedAt := receivedAt
  path := path
  pathLen := pathLen
  bestEffortContentDedup := false
  linkedPacketDedup := true
  updateLastContacted := true

/-- `ingest_fallback_direct_message`. -/
def fallback (m : Incoming) (updateLastContacted : Bool) : Call where
  packetId := none
  dm := m.dm forms
  txtType := m.txtType
  receivedAt := receivedAt
  path := path
  pathLen := pathLen
  bestEffortContentDedup := true
  linkedPacketDedup := false
  updateLastContacted := updateLastContacted

end Call

/-! ### The repositories -/

namespace Db

variable (db : Db)

def maxStoredPaths : ℕ := 64

/-- `MessageRepository.get_by_id`. -/
def getById (id : ℕ) : Option Row := db.rows.find? (fun row => row.id = id)

/-- `MessageRepository.get_by_content`: the sender is not compared. -/
def getByContent (dm : Dm) : Option Row :=
  db.rows.find? (fun row => row.dm.conversation = dm.conversation && row.dm.text = dm.text &&
    row.dm.ts = dm.ts)

/-- `MessageRepository.create`: none where the unique index has the message already. -/
def create (c : Call) : Option (ℕ × Db) :=
  if db.rows.any (fun row => row.dm = c.dm) then none
  else
    some (db.nextId,
      { db with
        rows := db.rows ++
          [{ id := db.nextId, dm := c.dm, txtType := c.txtType, receivedAt := c.receivedAt
             paths := (c.path.map (fun path => ⟨path, c.receivedAt, c.pathLen⟩)).toList }]
        nextId := db.nextId + 1 })

/-- `MessageRepository.add_path_if_new`. -/
def addPathIfNew (id : ℕ) (heard : Heard) : Db :=
  { db with
    rows := db.rows.map (fun row =>
      if row.id = id && row.paths.length < maxStoredPaths &&
          row.paths.all (fun old => old.path ≠ heard.path) then
        { row with paths := row.paths ++ [heard] }
      else row) }

/-- `RawPacketRepository.mark_decrypted`. -/
def markDecrypted (packetId id : ℕ) : Db :=
  { db with links := Function.update db.links packetId (some id) }

end Db

/-! ### Ingests -/

/-- What an ingest waits for. -/
inductive Pc
  | lock
  | linked
  | byId (id : ℕ)
  | content
  | create
  | duplicate
  | addPath (existing : Row)
  | relink (id : ℕ)
  | mark (id : ℕ)
  | announce (id : ℕ)
  | touch
  | done
  deriving DecidableEq

namespace Call

variable (c : Call)

/-- After the link of the packet. -/
def afterLinked : Pc := if c.bestEffortContentDedup then .content else .create

/-- The first step of `store`. -/
def first : Pc := if c.linkedPacketDedup && c.packetId.isSome then .linked else c.afterLinked

def start : Pc := if c.linkedPacketDedup then .lock else c.first

def afterPath (id : ℕ) : Pc := if c.packetId.isSome then .relink id else .done

/-- `reconcile_duplicate_message`. -/
def reconcile (existing : Row) : Pc :=
  if c.path.isSome then .addPath existing else c.afterPath existing.id

def afterCreate (id : ℕ) : Pc := if c.packetId.isSome then .mark id else .announce id

def afterAnnounce : Pc := if c.updateLastContacted then .touch else .done

end Call

/-- A row that a lookup finds, which the message is then merged into. -/
def Db.found (db : Db) (c : Call) : Pc → Option Row
  | .byId id => db.getById id
  | .content | .duplicate => db.getByContent c.dm
  | _ => none

/-- One step of an ingest that holds what it needs. -/
def Db.exec (db : Db) (c : Call) (pc : Pc) : Db × Pc :=
  match pc with
  | .linked =>
    match c.packetId.bind db.links with
    | some id => (db, .byId id)
    | none => (db, c.afterLinked)
  | .byId id =>
    match db.getById id with
    | some existing => (db, c.reconcile existing)
    | none => (db, c.afterLinked)
  | .content =>
    match db.getByContent c.dm with
    | some existing => (db, c.reconcile existing)
    | none => (db, .create)
  | .create =>
    match db.create c with
    | some (id, db) => (db, c.afterCreate id)
    | none => (db, .duplicate)
  | .duplicate =>
    match db.getByContent c.dm with
    | some existing => (db, c.reconcile existing)
    | none => (db, .done)
  | .addPath existing =>
    match c.path with
    | some path => (db.addPathIfNew existing.id ⟨path, c.receivedAt, c.pathLen⟩,
        c.afterPath existing.id)
    | none => (db, c.afterPath existing.id)
  | .relink id =>
    match c.packetId with
    | some packetId => (db.markDecrypted packetId id, .done)
    | none => (db, .done)
  | .mark id =>
    match c.packetId with
    | some packetId => (db.markDecrypted packetId id, .announce id)
    | none => (db, .announce id)
  | .announce _ => (db, c.afterAnnounce)
  | .touch => (db, .done)
  | .lock => (db, c.first)
  | .done => (db, .done)

structure Task where
  call : Call
  pc : Pc

structure State where
  db : Db := {}
  lock : Option ℕ := none
  tasks : List Task := []

/-- A message is received, or an ingest goes on. -/
inductive Move
  | decrypted (packetId : ℕ) (receivedAt : ℤ) (path : Option String) (pathLen : Option ℕ)
  | fallback (m : Incoming) (receivedAt : ℤ) (path : Option String) (pathLen : Option ℕ)
    (updateLastContacted : Bool)
  | run (i : ℕ)

namespace State

variable (forms : TextForms) (content : ℕ → Incoming) (s : State)

def spawn (c : Call) : State := { s with tasks := s.tasks ++ [⟨c, c.start⟩] }

/-- The ingest `i` makes one step; it leaves the lock when it is done. -/
def advance (i : ℕ) (t : Task) : State :=
  let next := s.db.exec t.call t.pc
  { db := next.1
    lock := if next.2 = .done && t.call.linkedPacketDedup then none else s.lock
    tasks := s.tasks.modify i (fun t => { t with pc := next.2 }) }

def apply : Move → Option State
  | .decrypted packetId receivedAt path pathLen =>
    some (s.spawn (.decrypted forms receivedAt path pathLen packetId (content packetId)))
  | .fallback m receivedAt path pathLen updateLastContacted =>
    some (s.spawn (.fallback forms receivedAt path pathLen m updateLastContacted))
  | .run i =>
    match s.tasks[i]? with
    | none => none
    | some t =>
      match t.pc with
      | .done => none
      | .lock => if s.lock.isNone then some { s.advance i t with lock := some i } else none
      | _ => some (s.advance i t)

def finished : Bool := s.tasks.all (fun t => t.pc = .done)

end State

/-- A step of the system; a raw packet carries one message. -/
def DmStep (forms : TextForms) (content : ℕ → Incoming) (s : State) (move : Move) (s' : State) :
    Prop := s.apply forms content move = some s'

abbrev DmEvent := Lib.Event State Move

/-- The ingest that an event runs. -/
def runs (e : DmEvent) : Option Task :=
  match e.label with
  | .run i => e.pre.tasks[i]?
  | _ => none

/-- The row that a reception is merged into. -/
def mergedInto (e : DmEvent) : Option (Call × Row) :=
  (runs e).bind (fun t => (e.pre.db.found t.call t.pc).map (fun row => (t.call, row)))

/-- How often a row was broadcast as new. -/
def announcements (events : List DmEvent) (id : ℕ) : ℕ :=
  events.countP (fun e => (runs e).any (fun t => t.pc = .announce id))

end RtfmEv.DmIngest
