import Mathlib.Data.List.Sort
import Mathlib.Data.Prod.Lex
import RtfmEv.Lib.Bytes
import RtfmEv.Lib.OrderedDict

/-!
# Contacts, their advert paths and their read cursors

Contacts are stored under public keys of 64 hex digits, or under a prefix of
one as long as only the prefix is known. Keys and paths are hex strings that
every writer puts in lower case, so they are lists of digits here and
`LIKE key || '%'` is a test for a prefix.

Of a contact's columns those are kept that promotion merges. A column that may
be `NULL` is an `Option`.
-/

namespace RtfmEv.Contacts

open RtfmEv.Lib

/-- A hex string in lower case. -/
abbrev Hex := List (Fin 16)

structure ContactRow where
  lastSeen : Option ℤ
  lastContacted : Option ℤ
  firstSeen : Option ℤ
  lastReadAt : Option ℤ
  lastReadMessageId : Option ℤ
  deriving DecidableEq

structure ChannelRow where
  lastReadAt : Option ℤ
  lastReadMessageId : Option ℤ
  deriving DecidableEq

/-- A row of `contact_advert_paths` without its key. -/
structure PathRow where
  firstSeen : ℤ
  lastSeen : ℤ
  lastPrimarySeen : Option ℤ
  heardCount : ℕ
  bestRssi : Option ℚ
  bestSnr : Option ℚ
  deriving DecidableEq

/-- A row of `contact_name_history` without its key. -/
structure NameRow where
  firstSeen : ℤ
  lastSeen : ℤ
  deriving DecidableEq

inductive MsgType
  | priv
  | chan
  deriving DecidableEq

structure Message where
  type : MsgType
  conversationKey : Hex
  receivedAt : ℤ
  outgoing : Bool
  deriving DecidableEq

/-- `path_hex` and `path_len`. -/
abbrev PathKey := Hex × ℤ

structure Db where
  contacts : OrderedDict Hex ContactRow
  channels : OrderedDict Hex ChannelRow
  paths : OrderedDict (Hex × PathKey) PathRow
  names : OrderedDict (Hex × String) NameRow
  messages : OrderedDict ℤ Message

def Db.empty : Db :=
  ⟨OrderedDict.empty, OrderedDict.empty, OrderedDict.empty, OrderedDict.empty, OrderedDict.empty⟩

/-- `MAX(a, b)` of two columns: `NULL` when one is. -/
def sqlMax {α : Type*} [Max α] : Option α → Option α → Option α
  | some a, some b => some (max a b)
  | _, _ => none

/-- `COALESCE(a, b)`. -/
def coalesce {α : Type*} (a b : Option α) : Option α := a.or b

/-! ## Recording -/

/-- The merge of `last_seen` in `upsert` and `touch_last_seen`. -/
def laterSeen (stored new : Option ℤ) : Option ℤ :=
  match stored, new with
  | none, new => new
  | stored, none => stored
  | some stored, some new => if new > stored then some new else some stored

/-- `ContactRepository.upsert`, as far as these columns go. -/
def upsert (key : Hex) (firstSeen lastSeen lastContacted : Option ℤ) (db : Db) : Db :=
  let row : ContactRow :=
    match db.contacts.get? key with
    | none =>
      { lastSeen := lastSeen, lastContacted := lastContacted, firstSeen := firstSeen
        lastReadAt := none, lastReadMessageId := none }
    | some row =>
      { row with
        lastSeen := laterSeen row.lastSeen lastSeen
        lastContacted := coalesce lastContacted row.lastContacted
        firstSeen := coalesce row.firstSeen firstSeen }
  { db with contacts := db.contacts.set key row }

/-- `UPDATE contacts … WHERE public_key = ?`. -/
def updateContact (key : Hex) (f : ContactRow → ContactRow) (db : Db) : Db :=
  match db.contacts.get? key with
  | none => db
  | some row => { db with contacts := db.contacts.set key (f row) }

def updateLastContacted (key : Hex) (timestamp : ℤ) (db : Db) : Db :=
  updateContact key (fun row => { row with lastContacted := some timestamp }) db

def touchLastSeen (key : Hex) (timestamp : ℤ) (db : Db) : Db :=
  updateContact key (fun row => { row with lastSeen := laterSeen row.lastSeen (some timestamp) }) db

/-- The arguments of `record_observation` but the key. -/
structure Observation where
  pathHex : Hex
  timestamp : ℤ
  maxPaths : ℤ
  hopCount : Option ℤ
  rssi : Option ℚ
  snr : Option ℚ
  isNewPacket : Bool
  deriving DecidableEq

def Observation.pathKey (o : Observation) : PathKey :=
  (o.pathHex, match o.hopCount with
    | some hops => hops
    | none => (o.pathHex.length / 2 : ℕ))

def Observation.primarySeen (o : Observation) : Option ℤ :=
  if o.isNewPacket then some o.timestamp else none

/-- The row that `record_observation` inserts. -/
def Observation.row (o : Observation) : PathRow :=
  { firstSeen := o.timestamp, lastSeen := o.timestamp, lastPrimarySeen := o.primarySeen
    heardCount := 1, bestRssi := o.rssi, bestSnr := o.snr }

/-- The strongest signal of two, either of which may be missing. -/
def bestSignal (stored new : Option ℚ) : Option ℚ :=
  sqlMax (coalesce stored new) (coalesce new stored)

/-- `ON CONFLICT DO UPDATE` of `record_observation`. -/
def Observation.update (o : Observation) (row : PathRow) : PathRow :=
  { row with
    lastSeen := max row.lastSeen o.timestamp
    lastPrimarySeen := some (max (row.lastPrimarySeen.getD 0) (o.primarySeen.getD 0))
    heardCount := row.heardCount + 1
    bestRssi := bestSignal row.bestRssi o.rssi
    bestSnr := bestSignal row.bestSnr o.snr }

/-- `ORDER BY last_seen DESC, heard_count DESC, path_len ASC, path_hex ASC`. -/
def recentFirst (a b : PathKey × PathRow) : Bool :=
  if a.2.lastSeen ≠ b.2.lastSeen then b.2.lastSeen < a.2.lastSeen
  else if a.2.heardCount ≠ b.2.heardCount then b.2.heardCount < a.2.heardCount
  else if a.1.2 ≠ b.1.2 then a.1.2 < b.1.2
  else a.1.1 ≤ b.1.1

/-- The paths of a contact. -/
def pathsOf (key : Hex) (db : Db) : List (PathKey × PathRow) :=
  (db.paths.entries.filter (fun e => e.1.1 = key)).map (fun e => (e.1.2, e.2))

/-- Keep only the `n` most recent paths of a contact. -/
def prunePaths (key : Hex) (n : ℕ) (db : Db) : Db :=
  let recent := ((pathsOf key db).insertionSort (fun a b => recentFirst a b)).take n
  { db with
    paths := db.paths.eraseIf (fun e => e.1.1 = key && !(recent.map Prod.fst).contains e.1.2) }

def recordObservation (key : Hex) (o : Observation) (db : Db) : Db :=
  let maxPaths := if o.maxPaths < 1 then 1 else o.maxPaths.toNat
  let row :=
    match db.paths.get? (key, o.pathKey) with
    | none => o.row
    | some row => o.update row
  prunePaths key maxPaths { db with paths := db.paths.set (key, o.pathKey) row }

def recordName (key : Hex) (name : String) (timestamp : ℤ) (db : Db) : Db :=
  let row : NameRow :=
    match db.names.get? (key, name) with
    | none => ⟨timestamp, timestamp⟩
    | some row => { row with lastSeen := max row.lastSeen timestamp }
  { db with names := db.names.set (key, name) row }

/-! ## Read cursors -/

/-- A pair of cursor columns as the code reads it: `x or 0`. -/
def cursorPair (lastReadAt lastReadMessageId : Option ℤ) : ℤ ×ₗ ℤ :=
  toLex (lastReadAt.getD 0, lastReadMessageId.getD 0)

def ContactRow.cursor (row : ContactRow) : ℤ ×ₗ ℤ := cursorPair row.lastReadAt row.lastReadMessageId

def ChannelRow.cursor (row : ChannelRow) : ℤ ×ₗ ℤ := cursorPair row.lastReadAt row.lastReadMessageId

/-- `SET last_read_at = ?, last_read_message_id = ?` -/
def ContactRow.readThrough (row : ContactRow) (requested : ℤ ×ₗ ℤ) : ContactRow :=
  { row with
    lastReadAt := some (ofLex requested).1
    lastReadMessageId := some (ofLex requested).2 }

def ChannelRow.readThrough (row : ChannelRow) (requested : ℤ ×ₗ ℤ) : ChannelRow :=
  { row with
    lastReadAt := some (ofLex requested).1
    lastReadMessageId := some (ofLex requested).2 }

/-- `SELECT received_at, id FROM messages WHERE id = ? AND type = ? AND conversation_key = ?` -/
def boundary (type : MsgType) (key : Hex) (messageId : ℤ) (db : Db) : Option (ℤ ×ₗ ℤ) :=
  ((db.messages.get? messageId).filter
    (fun m => m.type = type && m.conversationKey = key)).map (fun m => toLex
    (m.receivedAt, messageId))

/-- `ContactRepository.update_last_read_at(public_key, message_id=…)` -/
def updateLastReadAt (key : Hex) (messageId : ℤ) (db : Db) : Db × Bool :=
  match db.contacts.get? key with
  | none => (db, false)
  | some row =>
    match boundary .priv key messageId db with
    | none => (db, false)
    | some requested =>
      if requested > row.cursor then
        ({ db with contacts := db.contacts.set key (row.readThrough requested) }, true)
      else (db, true)

/-- `ChannelRepository.update_last_read_at(key, message_id=…)` -/
def updateChannelLastReadAt (key : Hex) (messageId : ℤ) (db : Db) : Db × Bool :=
  match db.channels.get? key with
  | none => (db, false)
  | some row =>
    match boundary .chan key messageId db with
    | none => (db, false)
    | some requested =>
      if requested > row.cursor then
        ({ db with channels := db.channels.set key (row.readThrough requested) }, true)
      else (db, true)

/-- The cursor that the unread queries compare a message with. -/
def readCursor (m : Message) (db : Db) : ℤ ×ₗ ℤ :=
  match m.type with
  | .priv => ((db.contacts.get? m.conversationKey).map ContactRow.cursor).getD (toLex (0, 0))
  | .chan => ((db.channels.get? m.conversationKey).map ChannelRow.cursor).getD (toLex (0, 0))

/-- `received_at > COALESCE(last_read_at, 0) OR (received_at = … AND id > …)` fails. -/
def CountsAsRead (id : ℤ) (m : Message) (db : Db) : Prop :=
  ¬(m.receivedAt > (ofLex (readCursor m db)).1 ∨
    (m.receivedAt = (ofLex (readCursor m db)).1 ∧ id > (ofLex (readCursor m db)).2))

/-! ## Promotion -/

/-- The earlier of two times, either of which may be missing. -/
def earlierSeen (stored new : Option ℤ) : Option ℤ :=
  match stored, new with
  | none, new => new
  | stored, none => stored
  | some stored, some new => if new < stored then some new else some stored

/-- The `UPDATE contacts SET …` of the promotion: `row` is the placeholder's. -/
def mergeContact (row contact : ContactRow) : ContactRow :=
  { lastSeen := laterSeen contact.lastSeen row.lastSeen
    lastContacted := laterSeen contact.lastContacted row.lastContacted
    firstSeen := earlierSeen contact.firstSeen row.firstSeen
    lastReadMessageId :=
      match contact.lastReadAt, row.lastReadAt with
      | none, _ => row.lastReadMessageId
      | _, none => contact.lastReadMessageId
      | some kept, some new =>
        if new > kept then row.lastReadMessageId
        else if new = kept ∧
            row.lastReadMessageId.getD 0 > contact.lastReadMessageId.getD 0 then
          row.lastReadMessageId
        else contact.lastReadMessageId
    lastReadAt :=
      match contact.lastReadAt, row.lastReadAt with
      | none, new => new
      | kept, none => kept
      | some kept, some new => if new > kept then some new else some kept }

/-- The columns that `migrate_child_rows` copies. -/
def freshPath (row : PathRow) : PathRow :=
  { row with lastPrimarySeen := none, bestRssi := none, bestSnr := none }

/-- `ON CONFLICT DO UPDATE` of `migrate_child_rows` for paths. -/
def mergePath (kept moved : PathRow) : PathRow :=
  { kept with
    firstSeen := min kept.firstSeen moved.firstSeen
    lastSeen := max kept.lastSeen moved.lastSeen
    heardCount := kept.heardCount + moved.heardCount }

/-- `ON CONFLICT DO UPDATE` of `migrate_child_rows` for names. -/
def mergeName (kept moved : NameRow) : NameRow :=
  ⟨min kept.firstSeen moved.firstSeen, max kept.lastSeen moved.lastSeen⟩

def migrateChildRows (oldKey newKey : Hex) (db : Db) : Db :=
  { db with
    names := db.names.moveRows id mergeName oldKey newKey
    paths := db.paths.moveRows freshPath mergePath oldKey newKey }

/-- The full-key contacts whose key begins with the given digits. -/
def matchCount (oldKey : Hex) (db : Db) : ℕ :=
  (db.contacts.entries.filter (fun e => e.1.length = 64 && oldKey.isPrefixOf e.1)).length

/-- The placeholders of a full key, the longest first. Two of them never have
the same length. -/
def placeholders (fullKey : Hex) (db : Db) : List (Hex × ContactRow) :=
  (db.contacts.entries.filter (fun e => e.1.length < 64 && e.1.isPrefixOf fullKey)).insertionSort
    (fun a b => b.1.length ≤ a.1.length)

/-- The body of the promotion's loop, with the keys promoted so far. -/
def promoteOne (fullKey : Hex) (acc : Db × List Hex) (placeholder : Hex × ContactRow) :
    Db × List Hex :=
  let oldKey := placeholder.1
  if oldKey = fullKey then acc
  else if matchCount oldKey acc.1 ≠ 1 then acc
  else
    let db := migrateChildRows oldKey fullKey acc.1
    let db := updateContact fullKey (mergeContact placeholder.2) db
    ({ db with contacts := db.contacts.erase oldKey }, acc.2 ++ [oldKey])

/-- `promote_prefix_placeholders`, with the keys it returns. -/
def promotePrefixPlaceholders (fullKey : Hex) (db : Db) : Db × List Hex :=
  (placeholders fullKey db).foldl (promoteOne fullKey) (db, [])

/-! ## Messages -/

/-- A message joins the table under its new id. -/
def storeMessage (id : ℤ) (m : Message) (db : Db) : Db :=
  if id ∈ db.messages.keys then db else { db with messages := db.messages.set id m }

/-- `claim_prefix_messages`: messages under a prefix go to the full key. -/
def claimPrefixMessages (fullKey : Hex) (db : Db) : Db :=
  { db with
    messages := db.messages.mapValues (fun m =>
      if m.type = .priv ∧ m.conversationKey.length < 64 ∧ m.conversationKey.isPrefixOf fullKey ∧
          matchCount m.conversationKey db = 1 then
        { m with conversationKey := fullKey }
      else m) }

end RtfmEv.Contacts
