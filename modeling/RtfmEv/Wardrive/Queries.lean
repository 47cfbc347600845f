import RtfmEv.Wardrive.Store

/-!
# What a viewer reads (`app/wardrive/visibility.py`, `app/wardrive/drives.py`)

The drives, reports and exports that a driver or the owner asks for. A driver's requests
are cut to the users that they may see: listed drives and the rows of a window by a set of
user ids, picked drives by a look at each of them. How a report is built from its rows and
written to a file is a parameter, as is what is known of the nodes.
-/

namespace RtfmEv.Wardrive

inductive Visibility
  | own
  | groups
  | all
  deriving DecidableEq

structure User where
  id : ℕ
  username : String
  visibility : Visibility
  deriving DecidableEq

structure Group where
  id : ℕ
  memberIds : List ℕ
  deriving DecidableEq

structure Radio where
  publicKey : String
  userId : ℕ
  name : Option String
  deriving DecidableEq

/-- The whole database, with what is known of the nodes. -/
structure World (δ ν : Type) where
  db : Db δ
  users : List User
  groups : List Group
  radios : List Radio
  nodes : ν

inductive HttpError
  | notFound (detail : String)
  deriving DecidableEq

/-- A row of a report. -/
structure ReportRow (δ : Type) where
  driveId : ℕ
  userId : ℕ
  username : String
  radioKey : String
  reading : Reading δ

/-- A drive as it is listed. -/
structure ListedDrive where
  drive : Drive
  username : String
  radioName : Option String
  obs : ℕ
  tracks : ℕ
  canEdit : Bool
  deriving DecidableEq

structure ReportQuery where
  drive : List ℕ
  since : Option ℤ
  untilTs : Option ℤ
  userId : Option ℕ
  groupId : Option ℕ
  radioKey : Option String
  res : ℕ

/-- The scope of a report, as it is answered. -/
structure Scope where
  driveIds : List ℕ
  since : Option ℤ
  untilTs : Option ℤ
  userId : Option ℕ
  groupId : Option ℕ
  radioKey : Option String
  res : ℕ
  cutTs : Option ℤ

/-- The parts that are not modelled: the form of a radio key, the known nodes around the
receptions, the report that is built from the rows, the file it is written to, and the
name of that file. -/
structure Rendering (δ ν : Type) where
  Nodes : Type
  Report : Type
  normalizeKey : String → Option String
  nodesAround : ν → List (ReportRow δ) → Nodes
  buildReport : List (ReportRow δ) → List (ReportRow δ) → Nodes → ℕ → Bool → Bool → Report
  render : String → List (ReportRow δ) → List (ReportRow δ) → Report → List (ℕ × Option String) →
    Bool → String
  filename : String → ℤ → Bool → String

def reportMaxRows : ℕ := 200000
def defaultReportWindowS : ℤ := 30 * 86400

variable {δ ν : Type}

/-! ### Whom a viewer may see -/

/-- `visible_user_ids`: none stands for everyone. -/
def World.visibleUserIds (w : World δ ν) (user : User) : Option (List ℕ) :=
  match user.visibility with
  | .all => none
  | .own => some [user.id]
  | .groups => some (user.id ::
      (w.groups.filter (fun g => user.id ∈ g.memberIds)).flatMap Group.memberIds)

/-- The members of the group that a request names. -/
def World.groupIds (w : World δ ν) (groupId : Option ℕ) : Except HttpError (Option (List ℕ)) :=
  match groupId with
  | none => .ok none
  | some groupId =>
    match w.groups.find? (fun g => g.id = groupId) with
    | none => .error (.notFound "No such group")
    | some g => .ok (some g.memberIds)

def World.scopeUserIds (w : World δ ν) (viewer : Option User) (userId groupId : Option ℕ) :
    Except HttpError (Option (List ℕ)) :=
  (w.groupIds groupId).map (fun ids =>
    let ids := match userId, ids with
      | none, ids => ids
      | some userId, none => some [userId]
      | some userId, some ids => some (ids.filter (fun id => id = userId))
    match viewer.bind w.visibleUserIds, ids with
    | none, ids => ids
    | some visible, none => some visible
    | some visible, some ids => some (ids.filter (fun id => id ∈ visible)))

def World.visibleDrive (w : World δ ν) (id : ℕ) (viewer : Option User) : Except HttpError Drive :=
  match w.db.get id with
  | none => .error (.notFound "No such drive")
  | some drive =>
    if (viewer.bind w.visibleUserIds).all (fun visible => drive.userId ∈ visible) then .ok drive
    else .error (.notFound "No such drive")

/-! ### Queries -/

def World.username (w : World δ ν) (userId : ℕ) : Option String :=
  (w.users.find? (fun u => u.id = userId)).map User.username

/-- The join with the radios is by the key alone. -/
def World.radioName (w : World δ ν) (key : String) : Option String :=
  (w.radios.find? (fun r => r.publicKey = key)).bind Radio.name

/-- A filter that is left out holds for all. -/
def chosen {α : Type} (wanted : Option α) (p : α → Bool) : Bool := wanted.all p

/-- Newest drives first. -/
def newerDrive (d e : Drive) : Prop := d.startTs > e.startTs ∨ d.startTs = e.startTs ∧ d.id ≥ e.id

instance : DecidableRel newerDrive := fun d e =>
  inferInstanceAs (Decidable (d.startTs > e.startTs ∨ d.startTs = e.startTs ∧ d.id ≥ e.id))

/-- Newest rows first. -/
def newerRow (row row' : Row δ) : Prop :=
  row.reading.ts > row'.reading.ts ∨ row.reading.ts = row'.reading.ts ∧ row.id ≥ row'.id

instance : DecidableRel (newerRow (δ := δ)) := fun row row' =>
  inferInstanceAs (Decidable (row.reading.ts > row'.reading.ts ∨
    row.reading.ts = row'.reading.ts ∧ row.id ≥ row'.id))

def World.listed (w : World δ ν) (viewer : Option User) (d : Drive) : Option ListedDrive :=
  (w.username d.userId).map (fun username =>
    { drive := d
      username := username
      radioName := w.radioName d.radioKey
      obs := ((w.db.rowsOf d.id).filter (fun row => row.reading.isObs)).length
      tracks := ((w.db.rowsOf d.id).filter (fun row => !row.reading.isObs)).length
      canEdit := viewer.all (fun viewer => d.userId = viewer.id) })

/-- `WardriveDriveRepository.list_drives`, with what `_out` adds. -/
def World.queryDrives (w : World δ ν) (viewer : Option User) (userIds : Option (List ℕ))
    (since untilTs : Option ℤ) (radioKey : Option String) (limit : ℕ)
    (driveIds : Option (List ℕ)) : List ListedDrive × Bool :=
  let found := (((w.db.drives.filter (fun d =>
    chosen driveIds (fun ids => d.id ∈ ids) && chosen userIds (fun ids => d.userId ∈ ids) &&
    chosen since (fun since => since ≤ d.endTs) &&
    chosen untilTs (fun untilTs => d.startTs ≤ untilTs) &&
    chosen radioKey (fun key => d.radioKey = key))).insertionSort newerDrive).filterMap
      (w.listed viewer)).take (limit + 1)
  (found.take limit, limit < found.length)

def World.reportRow (w : World δ ν) (row : Row δ) : Option (ReportRow δ) :=
  (w.username row.userId).map (fun username =>
    { driveId := row.driveId, userId := row.userId, username := username, radioKey := row.radioKey,
      reading := row.reading })

/-- The rows of one kind: of the picked drives, or of the window. -/
def World.rowsOfKind (w : World δ ν) (isObs : Bool) (driveIds userIds : Option (List ℕ))
    (since untilTs : Option ℤ) (radioKey : Option String) (limit : ℕ) : List (ReportRow δ) :=
  (((w.db.rows.filter (fun row => row.reading.isObs = isObs &&
    match driveIds with
    | some ids => row.driveId ∈ ids
    | none => chosen userIds (fun ids => row.userId ∈ ids) &&
        chosen since (fun since => since ≤ row.reading.ts) &&
        chosen untilTs (fun untilTs => row.reading.ts ≤ untilTs) &&
        chosen radioKey (fun key => row.radioKey = key))).insertionSort newerRow).filterMap
      w.reportRow).take (limit + 1)

def World.rowsForReport (w : World δ ν) (driveIds userIds : Option (List ℕ))
    (since untilTs : Option ℤ) (radioKey : Option String) (limit : ℕ) :
    List (ReportRow δ) × List (ReportRow δ) × Bool :=
  let obs := w.rowsOfKind true driveIds userIds since untilTs radioKey limit
  let tracks := w.rowsOfKind false driveIds userIds since untilTs radioKey limit
  (obs.take limit, tracks.take limit, limit < obs.length || limit < tracks.length)

def trimToCommonWindow (obs tracks : List (ReportRow δ)) (limit : ℕ) :
    List (ReportRow δ) × List (ReportRow δ) × Option ℤ :=
  let floor (rows : List (ReportRow δ)) : Option ℤ :=
    if limit ≤ rows.length then (rows.map (fun row => row.reading.ts)).min? else none
  match ((floor obs).toList ++ (floor tracks).toList).max? with
  | none => (obs, tracks, none)
  | some cut =>
    (obs.filter (fun row => cut ≤ row.reading.ts), tracks.filter (fun row => cut ≤ row.reading.ts),
      some cut)

/-! ### Requests -/

namespace World

variable (tools : Rendering δ ν) (w : World δ ν) (viewer : Option User) (now : ℤ)

/-- A radio key of a request, when it names one. -/
def keyOf (radioKey : Option String) : Except HttpError (Option String) :=
  match radioKey.filter (fun key => key ≠ "") with
  | none => .ok none
  | some key =>
    match tools.normalizeKey key with
    | some key => .ok (some key)
    | none => .error (.notFound "No such radio")

def listDrives (since untilTs : Option ℤ) (userId groupId : Option ℕ) (radioKey : Option String)
    (limit : ℕ) : Except HttpError (List ListedDrive × Bool) := do
  let ids ← w.scopeUserIds viewer userId groupId
  let key ← keyOf tools radioKey
  return w.queryDrives viewer ids since untilTs key limit none

def commonWindow (rows : List (ReportRow δ) × List (ReportRow δ) × Bool) (scope : Scope) :
    List (ReportRow δ) × List (ReportRow δ) × Bool × Scope :=
  if rows.2.2 then
    let trimmed := trimToCommonWindow rows.1 rows.2.1 reportMaxRows
    (trimmed.1, trimmed.2.1, true, { scope with cutTs := trimmed.2.2 })
  else (rows.1, rows.2.1, false, scope)

def reportRows (q : ReportQuery) :
    Except HttpError (List (ReportRow δ) × List (ReportRow δ) × Bool × Scope) :=
  let scope : Scope :=
    { driveIds := [], since := none, untilTs := none, userId := q.userId, groupId := q.groupId,
      radioKey := q.radioKey, res := q.res, cutTs := none }
  if q.drive ≠ [] then do
    let ids := q.drive.eraseDups
    ids.forM (fun id => discard (w.visibleDrive id viewer))
    return commonWindow (w.rowsForReport (some ids) none none none none reportMaxRows)
      { scope with driveIds := ids }
  else do
    let untilTs := q.untilTs.getD now
    let since := q.since.getD (untilTs - defaultReportWindowS)
    let userIds ← w.scopeUserIds viewer q.userId q.groupId
    let key ← keyOf tools q.radioKey
    return commonWindow
      (w.rowsForReport none userIds (some since) (some untilTs) key reportMaxRows)
      { scope with since := some since, untilTs := some untilTs }

def reportNodes (obs : List (ReportRow δ)) : tools.Nodes := tools.nodesAround w.nodes obs

def makeReport (q : ReportQuery) : Except HttpError (Scope × tools.Report) := do
  let rows ← w.reportRows tools viewer now q
  return (rows.2.2.2, tools.buildReport rows.1 rows.2.1 (w.reportNodes tools rows.1) q.res rows.2.2.1
    false)

def exportMedia : List String := ["receptions.csv", "cells.csv", "drives.geojson", "drives.gpx"]

/-- `make_export`: the file and its name. -/
def makeExport (kind : String) (q : ReportQuery) : Except HttpError (String × String) := do
  if kind ∉ exportMedia then throw (.notFound "No such export")
  let rows ← w.reportRows tools viewer now q
  let report := tools.buildReport rows.1 rows.2.1 (w.reportNodes tools rows.1) q.res rows.2.2.1 true
  let ids := ((rows.1 ++ rows.2.1).map ReportRow.driveId).eraseDups
  let listed := (w.queryDrives none none none none none (max ids.length 1) (some ids)).1
  let names := listed.map (fun d => (d.drive.id, d.drive.name))
  return (tools.render kind rows.1 rows.2.1 report names rows.2.2.1,
    tools.filename kind now rows.2.2.1)

end World

/-- What a driver asks for. -/
inductive Ask
  | listDrives (since untilTs : Option ℤ) (userId groupId : Option ℕ) (radioKey : Option String)
    (limit : ℕ)
  | visibleDrive (id : ℕ)
  | report (q : ReportQuery)
  | exportFile (kind : String) (q : ReportQuery)

/-- What is answered. -/
inductive Answer (tools : Rendering δ ν)
  | drives (answer : Except HttpError (List ListedDrive × Bool))
  | drive (answer : Except HttpError Drive)
  | report (answer : Except HttpError (Scope × tools.Report))
  | exportFile (answer : Except HttpError (String × String))

def World.answer (tools : Rendering δ ν) (w : World δ ν) (viewer : User) (now : ℤ) :
    Ask → Answer tools
  | .listDrives since untilTs userId groupId radioKey limit =>
    .drives (w.listDrives tools (some viewer) since untilTs userId groupId radioKey limit)
  | .visibleDrive id => .drive (w.visibleDrive id (some viewer))
  | .report q => .report (w.makeReport tools (some viewer) now q)
  | .exportFile kind q => .exportFile (w.makeExport tools (some viewer) now kind q)

end RtfmEv.Wardrive
