import Mathlib.Data.Rat.Floor
import Mathlib.Data.List.Sort
import RtfmEv.Lib.Run

/-!
# Stored drives (`app/repository/wardrive.py`, `app/wardrive/drives.py`)

A drive is one session of one radio. An upload puts its rows into drives, by the drive
uid of the page or by the ride gap; a driver deletes, merges and splits drives; pruning
deletes those that are left empty. Each write is one transaction. A request to change
drives reads them first, in reads of their own, and other requests come in between.

Receptions and track rows are kept in one list, each with its table. A row carries its
other columns as they were sent.
-/

namespace RtfmEv.Wardrive

open RtfmEv.Lib

/-! ### Rows -/

/-- A moment that an ISO timestamp can name, in milliseconds. -/
structure Instant where
  ms : ℤ
  lower : -62135596800000 ≤ ms
  upper : ms ≤ 253402300799999
  deriving DecidableEq

/-- `iso_to_ts`. -/
def Instant.ts (t : Instant) : ℤ := t.ms.tdiv 1000

/-- A row as the page sends it, a reception or a track row. -/
inductive Reading (δ : Type)
  | obs (rxAt : Instant) (hash : String) (data : δ)
  | track (t0 t1 : Instant) (data : δ)

namespace Reading

variable {δ : Type}

def isObs : Reading δ → Bool
  | .obs .. => true
  | .track .. => false

/-- `rx_ts` or `t0_ts`. -/
def ts : Reading δ → ℤ
  | .obs rxAt _ _ => rxAt.ts
  | .track t0 _ _ => t0.ts

/-- `rx_ts` or `t1_ts`. -/
def endTs : Reading δ → ℤ
  | .obs rxAt _ _ => rxAt.ts
  | .track _ t1 _ => t1.ts

/-- The columns that are unique for a radio. -/
def sameRow : Reading δ → Reading δ → Bool
  | .obs rxAt hash _, .obs rxAt' hash' _ => rxAt = rxAt' && hash = hash'
  | .track t0 _ _, .track t0' _ _ => t0 = t0'
  | _, _ => false

end Reading

structure Row (δ : Type) where
  id : ℕ
  userId : ℕ
  radioKey : String
  reading : Reading δ
  driveId : ℕ

/-- The page's id of a drive. -/
structure Uid where
  text : String
  nonempty : text ≠ ""

theorem Uid.text_inj {u v : Uid} : u.text = v.text ↔ u = v := by
  cases u
  cases v
  simp

instance : DecidableEq Uid := fun u v => decidable_of_iff (u.text = v.text) Uid.text_inj

structure Drive where
  id : ℕ
  uid : Option Uid
  userId : ℕ
  radioKey : String
  name : Option String := none
  notes : Option String := none
  startTs : ℤ
  endTs : ℤ
  deriving DecidableEq

/-- Why a drive uid is not used any more. Rows of a deleted drive are dropped up to its
end. -/
inductive TombKind
  | deleted (untilTs : ℤ)
  | retired
  deriving DecidableEq

structure Tombstone where
  uid : Uid
  userId : ℕ
  radioKey : String
  kind : TombKind
  deriving DecidableEq

structure Db (δ : Type) where
  drives : List Drive := []
  rows : List (Row δ) := []
  tombstones : List Tombstone := []
  nextDriveId : ℕ := 1
  nextRowId : ℕ := 1

namespace Db

variable {δ : Type} (db : Db δ)

/-! ### Parts of the transactions -/

def get (id : ℕ) : Option Drive := db.drives.find? (fun d => d.id = id)

def rowsOf (id : ℕ) : List (Row δ) := db.rows.filter (fun row => row.driveId = id)

/-- `_create_drive`: its id is the next one. -/
def createDrive (userId : ℕ) (key : String) (uid : Option Uid) (startTs endTs : ℤ) : Db δ :=
  { db with
    drives := db.drives ++
      [{ id := db.nextDriveId, uid := uid, userId := userId, radioKey := key, startTs := startTs,
         endTs := endTs }]
    nextDriveId := db.nextDriveId + 1 }

def driveGapS : ℤ := 600

/-- How far a time is from the ends of a drive. -/
def distance (ts : ℤ) (d : Drive) : ℕ := min (d.startTs - ts).natAbs (d.endTs - ts).natAbs

/-- The order of `_drive_for_gap_row`. -/
def nearer (ts : ℤ) (d e : Drive) : Prop :=
  distance ts d < distance ts e ∨ distance ts d = distance ts e ∧ d.id ≤ e.id

instance (ts : ℤ) : DecidableRel (nearer ts) := fun d e =>
  inferInstanceAs (Decidable (distance ts d < distance ts e ∨
    distance ts d = distance ts e ∧ d.id ≤ e.id))

def driveForGapRow (userId : ℕ) (key : String) (ts : ℤ) : Option ℕ :=
  ((db.drives.filter (fun d => d.userId = userId && d.radioKey = key && d.startTs - driveGapS ≤ ts &&
    ts ≤ d.endTs + driveGapS)).insertionSort (nearer ts)).head?.map Drive.id

/-- A drive's span is widened to a time. -/
def widen (id : ℕ) (ts : ℤ) : Db δ :=
  { db with
    drives := db.drives.map (fun d =>
      if d.id = id then { d with startTs := min d.startTs ts, endTs := max d.endTs ts } else d) }

/-- `INSERT OR IGNORE`. -/
def insert (userId : ℕ) (key : String) (driveId : ℕ) (reading : Reading δ) : Db δ :=
  if db.rows.any (fun row => row.radioKey = key && reading.sameRow row.reading) then db
  else
    { db with
      rows := db.rows ++
        [{ id := db.nextRowId, userId := userId, radioKey := key, reading := reading,
           driveId := driveId }]
      nextRowId := db.nextRowId + 1 }

/-- `_insert_obs`, then `_insert_tracks`. -/
def insertAll (userId : ℕ) (key : String) (driveId : ℕ) (readings : List (Reading δ)) : Db δ :=
  (readings.filter Reading.isObs ++ readings.filter (fun r => !r.isObs)).foldl
    (fun db reading => db.insert userId key driveId reading) db

/-- The span of the rows of a drive, when it has any. -/
def spanOf (id : ℕ) : Option (ℤ × ℤ) :=
  match ((db.rowsOf id).map (fun row => row.reading.ts)).min?,
      ((db.rowsOf id).map (fun row => row.reading.endTs)).max? with
  | some startTs, some endTs => some (startTs, endTs)
  | _, _ => none

def removeDrive (id : ℕ) : Db δ :=
  { db with drives := db.drives.filter (fun d => d.id ≠ id) }

def setSpan (id : ℕ) (startTs endTs : ℤ) : Db δ :=
  { db with
    drives := db.drives.map (fun d =>
      if d.id = id then { d with startTs := startTs, endTs := endTs } else d) }

/-- `_refresh_span` of one drive. -/
def refreshSpan (id : ℕ) : Db δ :=
  match db.spanOf id with
  | some (startTs, endTs) => db.setSpan id startTs endTs
  | none => db.removeDrive id

/-- `_refresh_span`. -/
def refreshSpans (ids : List ℕ) : Db δ :=
  (ids.dedup.insertionSort (· ≤ ·)).foldl refreshSpan db

def retireUid (drive : Drive) (kind : TombKind) : Db δ :=
  match drive.uid with
  | none => db
  | some uid =>
    { db with
      tombstones := db.tombstones.filter (fun t => t.uid ≠ uid) ++
        [{ uid := uid, userId := drive.userId, radioKey := drive.radioKey, kind := kind }] }

/-- The rows that are chosen go to another drive. -/
def moveRows (into : ℕ) (chosen : Row δ → Bool) : Db δ :=
  { db with
    rows := db.rows.map (fun row => if chosen row then { row with driveId := into } else row) }

/-! ### `store_upload` -/

/-- A drive of the upload, with the rows that go to it. -/
abbrev Groups (δ : Type) := List (ℕ × List (Reading δ))

/-- `groups.setdefault(found, ...)` with the row added. -/
def addTo : Groups δ → ℕ → Reading δ → Groups δ
  | [], id, reading => [(id, [reading])]
  | (id', readings) :: groups, id, reading =>
    if id' = id then (id', readings ++ [reading]) :: groups
    else (id', readings) :: addTo groups id reading

/-- What the gap rule has done so far. -/
structure Gap (δ : Type) where
  db : Db δ
  groups : Groups δ := []
  discarded : ℕ := 0

/-- Rows of a deleted drive, up to its end. -/
def dropped (tomb : Option Tombstone) (ts : ℤ) : Bool :=
  match tomb.map Tombstone.kind with
  | some (.deleted untilTs) => ts ≤ untilTs
  | _ => false

/-- A row joins the drive of the gap rule, or starts one. -/
def assign (userId : ℕ) (key : String) (tomb : Option Tombstone) (gap : Gap δ)
    (reading : Reading δ) : Gap δ :=
  if dropped tomb reading.ts then { gap with discarded := gap.discarded + 1 }
  else
    match gap.db.driveForGapRow userId key reading.ts with
    | some found =>
      { gap with
        db := gap.db.widen found reading.ts
        groups := addTo gap.groups found reading }
    | none =>
      { gap with
        db := gap.db.createDrive userId key none reading.ts reading.ts
        groups := addTo gap.groups gap.db.nextDriveId reading }

/-- Sorted by time, receptions before track rows. -/
def inOrder (obs tracks : List (Reading δ)) : List (Reading δ) :=
  (obs ++ tracks).insertionSort (fun r r' =>
    r.ts < r'.ts ∨ r.ts = r'.ts ∧ (r.isObs = true ∨ r'.isObs = false))

/-- The rows go into their drives, and the spans follow them. -/
def storeGroups (userId : ℕ) (key : String) (groups : Groups δ) : Db δ :=
  (groups.foldl (fun db group => db.insertAll userId key group.1 group.2) db).refreshSpans
    (groups.map Prod.fst)

structure UploadResult where
  acceptedObs : ℕ
  duplicateObs : ℕ
  acceptedTracks : ℕ
  duplicateTracks : ℕ
  discarded : ℕ
  deriving DecidableEq

/-- The counts of an upload: what is new was accepted. -/
def counts (after : Db δ) (groups : Groups δ) (discarded : ℕ) : UploadResult :=
  let accepted (p : Reading δ → Bool) : ℕ :=
    after.rows.countP (fun row => p row.reading) - db.rows.countP (fun row => p row.reading)
  let sent (p : Reading δ → Bool) : ℕ := (groups.map (fun group => group.2.countP p)).sum
  { acceptedObs := accepted Reading.isObs
    duplicateObs := sent Reading.isObs - accepted Reading.isObs
    acceptedTracks := accepted (fun r => !r.isObs)
    duplicateTracks := sent (fun r => !r.isObs) - accepted (fun r => !r.isObs)
    discarded := discarded }

/-- The user and the radio of a uid. -/
def ownerOf (uid : Uid) : Option (ℕ × String) :=
  match db.tombstones.find? (fun t => t.uid = uid) with
  | some tomb => some (tomb.userId, tomb.radioKey)
  | none => (db.drives.find? (fun d => d.uid = some uid)).map (fun d => (d.userId, d.radioKey))

/-- The page's uid is of another user or radio. -/
inductive UploadError
  | driveOfAnotherRadio (uid : Uid)
  deriving DecidableEq

/-- The drive of a live uid, made on first sight. -/
def driveForUid (userId : ℕ) (key : String) (uid : Uid) (times : List ℤ) (now : ℤ) : Db δ × ℕ :=
  match db.drives.find? (fun d => d.uid = some uid) with
  | some drive => (db, drive.id)
  | none =>
    (db.createDrive userId key (some uid) (times.min?.getD now) (times.max?.getD now),
      db.nextDriveId)

def storeUpload (userId : ℕ) (key : String) (uid : Option Uid) (obs tracks : List (Reading δ))
    (now : ℤ) : Except UploadError (Db δ × UploadResult) :=
  let rows := inOrder obs tracks
  let tomb := uid.bind (fun uid => db.tombstones.find? (fun t => t.uid = uid))
  match uid, tomb with
  | some uid, none =>
    if (db.ownerOf uid).all (fun owner => owner = (userId, key)) then
      let made := db.driveForUid userId key uid (rows.map Reading.ts) now
      let groups := [(made.2, obs ++ tracks)]
      let stored := made.1.storeGroups userId key groups
      .ok (stored, db.counts stored groups 0)
    else .error (.driveOfAnotherRadio uid)
  | some uid, some _ =>
    if (db.ownerOf uid).all (fun owner => owner = (userId, key)) then
      let gap := rows.foldl (assign userId key tomb) { db := db }
      let stored := gap.db.storeGroups userId key gap.groups
      .ok (stored, db.counts stored gap.groups gap.discarded)
    else .error (.driveOfAnotherRadio uid)
  | none, _ =>
    let gap := rows.foldl (assign userId key none) { db := db }
    let stored := gap.db.storeGroups userId key gap.groups
    .ok (stored, db.counts stored gap.groups gap.discarded)

/-! ### Changes of drives -/

def deleteWithRows (id : ℕ) : Db δ :=
  let db := match db.get id with
    | some drive => db.retireUid drive (.deleted drive.endTs)
    | none => db
  ({ db with rows := db.rows.filter (fun row => row.driveId ≠ id) } : Db δ).removeDrive id

def setNotes (id : ℕ) (notes : Option String) : Db δ :=
  { db with drives := db.drives.map (fun d => if d.id = id then { d with notes := notes } else d) }

/-- The uid of a drive that is merged away. -/
def retireOther (id : ℕ) : Db δ :=
  match db.get id with
  | some drive => db.retireUid drive .retired
  | none => db

def merge (into : ℕ) (others : List ℕ) (notes : Option String) : Db δ :=
  let db := others.foldl retireOther db
  let db := db.moveRows into (fun row => row.driveId ∈ others)
  let db : Db δ := { db with drives := db.drives.filter (fun d => d.id ∉ others) }
  (db.setNotes into notes).refreshSpans [into]

def clearUid (id : ℕ) : Db δ :=
  { db with drives := db.drives.map (fun d => if d.id = id then { d with uid := none } else d) }

def split (id : ℕ) (atTs : ℤ) : Db δ :=
  match db.get id with
  | none => db
  | some drive =>
    if (db.rowsOf id).any (fun row => row.reading.ts < atTs) &&
        (db.rowsOf id).any (fun row => atTs ≤ row.reading.ts) then
      let newId := db.nextDriveId
      let db := db.createDrive drive.userId drive.radioKey none atTs drive.endTs
      let db := db.moveRows newId (fun row => row.driveId = id && atTs ≤ row.reading.ts)
      let db := (db.retireUid drive .retired).clearUid id
      db.refreshSpans [id, newId]
    else db

/-- Beyond any stored time. -/
def noTs : ℤ := 2 ^ 62

/-- The span that `delete_empty` gives a drive: of the receptions and the track rows on
their own, then of both. -/
def prunedSpan (id : ℕ) : ℤ × ℤ :=
  let obs := (db.rowsOf id).filter (fun row => row.reading.isObs)
  let tracks := (db.rowsOf id).filter (fun row => !row.reading.isObs)
  (min ((obs.map (fun row => row.reading.ts)).min?.getD noTs)
      ((tracks.map (fun row => row.reading.ts)).min?.getD noTs),
    max ((obs.map (fun row => row.reading.endTs)).max?.getD (-1))
      ((tracks.map (fun row => row.reading.endTs)).max?.getD (-1)))

def deleteEmpty : Db δ :=
  { db with
    drives := (db.drives.filter (fun d => !(db.rowsOf d.id).isEmpty)).map (fun d =>
      { d with startTs := (db.prunedSpan d.id).1, endTs := (db.prunedSpan d.id).2 }) }

end Db

/-! ### Requests -/

inductive Change
  | delete
  | split (atTs : ℤ)
  | merge
  deriving DecidableEq

/-- A request to change drives: the driver who made it, or the owner, the drives that it
has not read yet and those that it has. -/
structure Request where
  viewer : Option ℕ
  change : Change
  todo : List ℕ
  checked : List Drive := []

def maxNotes : ℕ := 1000
def maxMerge : ℕ := 50

/-- The order of the drives to merge. -/
def earlier (d e : Drive) : Prop := d.startTs < e.startTs ∨ d.startTs = e.startTs ∧ d.id ≤ e.id

instance : DecidableRel earlier := fun d e =>
  inferInstanceAs (Decidable (d.startTs < e.startTs ∨ d.startTs = e.startTs ∧ d.id ≤ e.id))

/-- `"\n\n".join` of the notes that there are. -/
def joinedNotes (drives : List Drive) : Option String :=
  let notes := (drives.filterMap Drive.notes).filter (fun n => n ≠ "")
  if notes.isEmpty then none else some (String.intercalate "\n\n" notes)

/-- The drive that stays and those that are merged into it, when the merge is allowed. -/
def mergePlan (checked : List Drive) : Option (Drive × List Drive × Option String) :=
  match checked.insertionSort earlier with
  | [] => none
  | into :: others =>
    if others.all (fun d => d.userId = into.userId && d.radioKey = into.radioKey) then
      let notes := joinedNotes (into :: others)
      if notes.all (fun n => n.length ≤ maxNotes) then some (into, others, notes) else none
    else none

/-- The write of a request whose drives were all read. -/
def Db.change {δ : Type} (db : Db δ) (r : Request) : Db δ :=
  match r.change, r.checked with
  | .delete, [drive] => db.deleteWithRows drive.id
  | .split atTs, [drive] =>
    if drive.startTs < atTs ∧ atTs ≤ drive.endTs then db.split drive.id atTs else db
  | .merge, checked =>
    match mergePlan checked with
    | some (into, others, notes) => db.merge into.id (others.map Drive.id) notes
    | none => db
  | _, _ => db

/-- The database and the requests that are in progress. -/
structure State (δ : Type) where
  db : Db δ := {}
  requests : ℕ → Option Request := fun _ => none
  requestCount : ℕ := 0

inductive Op (δ : Type)
  | upload (userId : ℕ) (key : String) (uid : Option Uid) (obs tracks : List (Reading δ)) (now : ℤ)
  | request (viewer : Option ℕ) (change : Change) (ids : List ℕ)
  /-- the next drive of a request is read; others may keep the driver from seeing it -/
  | check (i : ℕ) (visible : Bool)
  | commit (i : ℕ)
  | deleteEmpty

/-- A request that is well formed. -/
def Change.accepts : Change → List ℕ → Bool
  | .merge, ids => 2 ≤ ids.length && ids.length ≤ maxMerge && 2 ≤ ids.eraseDups.length
  | _, ids => ids.length = 1

namespace State

variable {δ : Type} (s : State δ)

def setRequest (i : ℕ) (r : Option Request) : State δ :=
  { s with requests := Function.update s.requests i r }

/-- One step, when it is possible. -/
def apply : Op δ → Option (State δ)
  | .upload userId key uid obs tracks now =>
    match s.db.storeUpload userId key uid obs tracks now with
    | .ok stored => some { s with db := stored.1 }
    | .error _ => some s
  | .request viewer change ids =>
    if change.accepts ids then
      some { s.setRequest s.requestCount (some { viewer, change, todo := ids.eraseDups }) with
        requestCount := s.requestCount + 1 }
    else some s
  | .check i visible =>
    match s.requests i with
    | some { viewer, change, todo := id :: todo, checked } =>
      match s.db.get id with
      | some drive =>
        if visible && viewer.all (fun viewer => drive.userId = viewer) then
          some (s.setRequest i (some { viewer, change, todo, checked := checked ++ [drive] }))
        else some (s.setRequest i none)
      | none => some (s.setRequest i none)
    | _ => none
  | .commit i =>
    match s.requests i with
    | some { viewer, change, todo := [], checked } =>
      some { s.setRequest i none with db := s.db.change { viewer, change, todo := [], checked } }
    | _ => none
  | .deleteEmpty => some { s with db := s.db.deleteEmpty }

end State

abbrev DriveEvent (δ : Type) := Lib.Event (State δ) (Op δ)

def DriveStep {δ : Type} (s : State δ) (op : Op δ) (s' : State δ) : Prop := s.apply op = some s'

end RtfmEv.Wardrive
