import Mathlib.Data.Int.Notation
import Mathlib.Data.Nat.Notation
import Mathlib.Logic.Function.Basic
import Mathlib.Tactic.SplitIfs
import Mathlib.Tactic.Tauto
import RtfmEv.Lib.Proc

/-!
# Restoring a backup (`app/services/db_restore.py`)

A staged backup takes the place of the database at the next start. The database is its
main file with the pages that are committed to its WAL; closing the last connection to it
folds them into the main file. Each step on the files can raise, and the process can die
at it, before or after it took effect.
-/

namespace RtfmEv.DbRestore

open RtfmEv.Lib

/-- The pages of a database file. -/
abbrev Pages (β : Type) := ℕ → Option β

/-- The main file as it is read, under the pages of the WAL. -/
def overlay {β : Type} (main wal : Pages β) : Pages β := fun p => (wal p).or (main p)

/-- A checkpoint that has written some pages. -/
def fold {β : Type} (written : ℕ → Bool) (main wal : Pages β) : Pages β := fun p =>
  if written p then overlay main wal p else main p

/-! ### Files -/

/-- The description of a staged backup. -/
structure Meta where
  source : Option String
  originalName : Option String

structure Result where
  ok : Bool := false
  appliedAt : ℤ
  source : String
  originalName : String
  preRestoreSnapshot : Option String := none
  error : Option String := none
  schemaVersion : Option ℕ := none

/-- The files beside the live path. The snapshot is the file of the name that this start
gives it; a description or a result is none where the file is missing or not readable. -/
structure Disk (β : Type) where
  db : Option (Pages β)
  wal : Option (Pages β) := none
  shm : Bool := false
  journal : Bool := false
  pending : Option (Pages β) := none
  pendingWal : Bool := false
  pendingShm : Bool := false
  pendingJournal : Bool := false
  pendingMeta : Option Meta := none
  snapshot : Option (Pages β) := none
  failed : Option (Pages β) := none
  result : Option Result := none
  resultTmp : Option Result := none

variable {β : Type}

/-- What a connection to the live path reads. -/
def Disk.read (disk : Disk β) : Option (Pages β) :=
  disk.db.map (fun main => overlay main (disk.wal.getD (fun _ => none)))

/-! ### Steps -/

inductive Kind
  | os
  | value
  | sqlite
  | database
  | validation
  | other
  | interrupt
  deriving DecidableEq

inductive Raised
  | exn (kind : Kind) (text : String)
  | died
  deriving DecidableEq

/-- It is caught by `except Exception`. -/
def Raised.isException : Raised → Bool
  | .exn kind _ => kind ≠ .interrupt
  | .died => false

def Raised.isOs : Raised → Bool
  | .exn kind _ => kind = .os
  | .died => false

def Raised.text : Raised → String
  | .exn _ text => text
  | .died => ""

/-- The steps on the files; each is run once at most. -/
inductive Step
  | readMeta
  | readHeader
  | connectPending
  | check
  | closePending
  | removePendingWal
  | removePendingShm
  | removePendingJournal
  | connect
  | vacuum
  | close
  | removeWal
  | removeShm
  | removeJournal
  | replace
  | moveAside
  | removePending
  | removeMeta
  | writeTmp
  | replaceResult
  deriving DecidableEq

/-- How a step ends, and whether it took effect. -/
inductive Outcome
  | returns
  | raises (done : Bool) (kind : Kind) (text : String)
  | dies (done : Bool)
  deriving DecidableEq

def Outcome.done : Outcome → Bool
  | .returns => true
  | .raises done _ _ => done
  | .dies done => done

/-- What a start meets: how the steps end, whether other connections to the database are
open, the pages that the checkpoint of a close has written where it does not come through,
and the file that a broken `VACUUM INTO` leaves. -/
structure Env (β : Type) where
  outcome : Step → Outcome
  last : Bool
  checkpoint : Option (ℕ → Bool) := none
  torn : Option (Pages β) := none

/-- What SQLite finds in a file: its magic, and its schema version when it is whole. -/
structure Sqlite (β : Type) where
  magic : Pages β → Bool
  check : Pages β → Except String ℕ
  latest : ℕ

structure State (β : Type) where
  disk : Disk β
  ran : Step → Option Outcome := fun _ => none
  dead : Bool := false
  result : Option Result := none

/-- The state after a step that left these files. -/
def State.after (s : State β) (name : Step) (outcome : Outcome) (disk : Disk β) : State β :=
  { s with disk := disk, ran := Function.update s.ran name (some outcome) }

/-- A step: what it does, and what it leaves when it does not get to that. A dead process
does nothing more. -/
def step (env : Env β) (name : Step) (act : Disk β → Except Raised (Disk β))
    (half : Disk β → Disk β := id) : Proc (State β) Raised Unit := fun s =>
  if s.dead then (.error .died, s)
  else
    let left (done : Bool) : Disk β :=
      if done then (act s.disk).toOption.getD s.disk else half s.disk
    match env.outcome name with
    | .returns =>
      match act s.disk with
      | .ok disk => (.ok (), s.after name .returns disk)
      | .error e => (.error e, s.after name .returns s.disk)
    | .raises done kind text =>
      (.error (.exn kind text), s.after name (.raises done kind text) (left done))
    | .dies done => (.error .died, { s.after name (.dies done) (left done) with dead := true })

/-- A step that reads, or that does not matter to the files. -/
def look (env : Env β) (name : Step) : Proc (State β) Raised Unit := step env name .ok

/-- `_remove`: a file that is not there is no error. -/
def remove (env : Env β) (name : Step) (act : Disk β → Disk β) : Proc (State β) Raised Unit :=
  step env name (fun disk => .ok (act disk))

/-- `except` for some exceptions. -/
def handleIf {α : Type} (caught : Raised → Bool) (x : Proc (State β) Raised α)
    (h : Raised → Proc (State β) Raised α) : Proc (State β) Raised α :=
  Proc.handle x (fun e => if caught e then h e else Proc.raise e)

def setResult (f : Result → Result) : Proc (State β) Raised Unit :=
  Proc.update (fun s => { s with result := s.result.map f })

/-! ### `validate_backup_file` -/

section Apply

variable (sql : Sqlite β) (env : Env β)

def Raised.isSqlite : Raised → Bool
  | .exn kind _ => kind = .sqlite || kind = .database
  | .died => false

def Raised.isDatabase : Raised → Bool
  | .exn kind _ => kind = .database
  | .died => false

/-- The integrity check, the tables and the version of the staged file. -/
def checkPending (image : Pages β) : Proc (State β) Raised ℕ :=
  handleIf Raised.isDatabase
    (do
      look env .check
      match sql.check image with
      | .ok version => pure version
      | .error text => Proc.raise (.exn .validation text))
    (fun e => Proc.raise (.exn .validation ("Backup file is damaged: " ++ e.text)))

def closePending : Proc (State β) Raised Unit := do
  look env .closePending
  remove env .removePendingWal (fun disk => { disk with pendingWal := false })
  remove env .removePendingShm (fun disk => { disk with pendingShm := false })
  remove env .removePendingJournal (fun disk => { disk with pendingJournal := false })

/-- `validate_backup_file` of the staged file. -/
def validateBackupFile (image : Pages β) : Proc (State β) Raised ℕ := do
  handleIf Raised.isOs (look env .readHeader)
    (fun e => Proc.raise (.exn .validation ("Cannot read backup file: " ++ e.text)))
  if sql.magic image then do
    handleIf Raised.isSqlite (look env .connectPending)
      (fun e => Proc.raise (.exn .validation ("Cannot open backup file: " ++ e.text)))
    let version ← Proc.ensuring (checkPending sql env image) (closePending env)
    if sql.latest < version then
      Proc.raise (.exn .validation (s!"Backup was made by a newer version (schema {version}; this build supports up to {sql.latest}). " ++
        "Update RemoteTerm before restoring it."))
    else pure version
  else Proc.raise (.exn .validation "File is not a SQLite database")

/-! ### `apply_pending_restore` -/

/-- Closing folds the WAL into the main file only on the last connection. -/
def Disk.close (disk : Disk β) : Disk β :=
  if env.last then
    match env.checkpoint with
    | none => { disk with db := disk.read, wal := none, shm := false }
    | some written =>
      { disk with
        db := disk.db.map (fun main => fold written main (disk.wal.getD (fun _ => none))) }
  else disk

/-- What a close that does not return leaves. -/
def Disk.halfClose (disk : Disk β) : Disk β :=
  if env.last && env.checkpoint.isSome then disk.close env else disk

/-- `VACUUM INTO`, which does not write over a file. -/
def Disk.vacuum (disk : Disk β) : Except Raised (Disk β) :=
  if disk.snapshot.isSome then .error (.exn .database "output file already exists")
  else .ok { disk with snapshot := disk.read }

def Disk.halfVacuum (disk : Disk β) : Disk β :=
  if disk.snapshot.isSome then disk else { disk with snapshot := env.torn }

/-- `os.replace` of the live path. -/
def Disk.replace (disk : Disk β) : Except Raised (Disk β) :=
  match disk.pending with
  | some image => .ok { disk with db := some image, pending := none }
  | none => .error (.exn .os "No such file or directory")

def Disk.moveAside (disk : Disk β) : Except Raised (Disk β) :=
  match disk.pending with
  | some image => .ok { disk with failed := some image, pending := none }
  | none => .error (.exn .os "No such file or directory")

def Disk.replaceResult (disk : Disk β) : Except Raised (Disk β) :=
  .ok { disk with result := disk.resultTmp, resultTmp := none }

/-- The old database is written to the snapshot. -/
def snapshotOld (snapshot : String) : Proc (State β) Raised Unit := do
  look env .connect
  Proc.ensuring (step env .vacuum Disk.vacuum (Disk.halfVacuum env))
    (step env .close (fun disk => .ok (disk.close env)) (Disk.halfClose env))
  setResult (fun result => { result with preRestoreSnapshot := some snapshot })

/-- The sidecars of the old database are removed and the staged file takes its place. -/
def swapIn : Proc (State β) Raised Unit := do
  remove env .removeWal (fun disk => { disk with wal := none })
  remove env .removeShm (fun disk => { disk with shm := false })
  remove env .removeJournal (fun disk => { disk with journal := false })
  step env .replace Disk.replace
  setResult (fun result => { result with ok := true })

def restore (snapshot : String) (image : Pages β) : Proc (State β) Raised Unit := do
  let version ← validateBackupFile sql env image
  setResult (fun result => { result with schemaVersion := some version })
  let isfile ← Proc.ask (fun s => s.disk.db.isSome)
  if isfile then snapshotOld env snapshot else pure ()
  swapIn env

/-- A staged file that is not applied is moved aside, or removed. -/
def setAside (e : Raised) : Proc (State β) Raised Unit := do
  setResult (fun result => { result with error := some e.text })
  handleIf Raised.isOs (step env .moveAside Disk.moveAside)
    (fun _ => remove env .removePending (fun disk => { disk with pending := none }))

def readMeta : Proc (State β) Raised (Option Meta) :=
  handleIf (fun e => e.isOs || e matches .exn .value _)
    (do look env .readMeta; Proc.ask (fun s => s.disk.pendingMeta)) (fun _ => pure none)

/-- `_write_json` of the result. -/
def writeResult : Proc (State β) Raised Unit := do
  let result ← Proc.ask State.result
  step env .writeTmp (fun disk => .ok { disk with resultTmp := result })
    (fun disk => { disk with resultTmp := none })
  step env .replaceResult Disk.replaceResult

def applyPendingRestore (now : ℤ) (snapshot : String) :
    Proc (State β) Raised (Option Result) := do
  let pending ← Proc.ask (fun s => s.disk.pending)
  match pending with
  | none => pure none
  | some image => do
    let found ← readMeta env
    Proc.update (fun s =>
      { s with
        result := some
          { appliedAt := now
            source := (found.bind Meta.source).getD "unknown"
            originalName := (found.bind Meta.originalName).getD "" } })
    Proc.ensuring (handleIf Raised.isException (restore sql env snapshot image) (setAside env))
      (remove env .removeMeta (fun disk => { disk with pendingMeta := none }))
    handleIf Raised.isOs (writeResult env) (fun _ => pure ())
    Proc.ask State.result

end Apply

/-!
## Steps of a restore

What a step leaves, however it ends, and the steps that leave what a restore is judged
by: the main file, the WAL, the staged file and the snapshot.
-/

variable {β : Type} {env : Env β} {name : Step} {act : Disk β → Except Raised (Disk β)}

/-! #### Pages -/

theorem overlay_fold (written : ℕ → Bool) (main wal : Pages β) :
    overlay (fold written main wal) wal = overlay main wal := by
  funext p
  show (wal p).or (if written p then (wal p).or (main p) else main p) = (wal p).or (main p)
  cases wal p with
  | some b => rfl
  | none => simp

theorem Disk.read_close (env : Env β) (disk : Disk β) : (disk.close env).read = disk.read := by
  unfold Disk.close
  split_ifs
  · split
    · show (disk.read.map fun main => overlay main fun _ => none) = disk.read
      cases disk.read <;> rfl
    · show (disk.db.map _).map _ = disk.db.map _
      rw [Option.map_map]
      congr 1
      funext main
      exact overlay_fold _ _ _
  · rfl

/-! #### What the steps change -/

/-- The part of a state that a restore is judged by: the files, and the steps that make
a difference to them. -/
structure Core (β : Type) where
  db : Option (Pages β)
  wal : Option (Pages β)
  pending : Option (Pages β)
  failed : Option (Pages β)
  snapshot : Option (Pages β)
  removeWal : Option Outcome
  replace : Option Outcome
  moveAside : Option Outcome
  removePending : Option Outcome

def State.core (s : State β) : Core β where
  db := s.disk.db
  wal := s.disk.wal
  pending := s.disk.pending
  failed := s.disk.failed
  snapshot := s.disk.snapshot
  removeWal := s.ran .removeWal
  replace := s.ran .replace
  moveAside := s.ran .moveAside
  removePending := s.ran .removePending

/-- A step took effect. -/
def did (outcome : Option Outcome) : Bool := outcome.any Outcome.done

def Outcome.raised : Outcome → Raised
  | .raises _ kind text => .exn kind text
  | _ => .died

/-- What is left of a step: it took effect, or it did not, or nothing of it happened. -/
theorem meets_step {half : Disk β → Disk β} {A B : Core β → Prop} {C : Raised → Core β → Prop}
    (hdone : ∀ (s : State β) (out : Outcome) disk, A s.core → out.done = true → act s.disk = .ok disk →
      B (s.after name out disk).core)
    (hundone : ∀ (s : State β) (out : Outcome), A s.core → out.done = false →
      C out.raised (s.after name out (half s.disk)).core)
    (hfail : ∀ (s : State β) (out : Outcome) e e', A s.core → act s.disk = .error e →
      C e' (s.after name out s.disk).core) :
    Proc.Meets (fun s => A s.core) (step env name act half) (fun _ s => B s.core)
      (fun e s => (e = .died ∧ A s.core) ∨ B s.core ∨ C e s.core) := by
  intro s hs
  unfold step
  split_ifs
  · exact Or.inl ⟨rfl, hs⟩
  cases hout : env.outcome name with
  | returns =>
    cases hact : act s.disk with
    | ok disk => exact hdone s .returns disk hs rfl hact
    | error e => exact Or.inr (Or.inr (hfail s .returns e e hs hact))
  | raises done kind text =>
    cases done with
    | false => exact Or.inr (Or.inr (hundone s (.raises false kind text) hs rfl))
    | true =>
      show _ ∨ B (s.after name (.raises true kind text) ((act s.disk).toOption.getD s.disk)).core ∨ _
      cases hact : act s.disk with
      | ok disk => exact Or.inr (Or.inl (hdone s (.raises true kind text) disk hs rfl hact))
      | error e => exact Or.inr (Or.inr (hfail s (.raises true kind text) e _ hs hact))
  | dies done =>
    cases done with
    | false => exact Or.inr (Or.inr (hundone s (.dies false) hs rfl))
    | true =>
      show _ ∨ B (s.after name (.dies true) ((act s.disk).toOption.getD s.disk)).core ∨ _
      cases hact : act s.disk with
      | ok disk => exact Or.inr (Or.inl (hdone s (.dies true) disk hs rfl hact))
      | error e => exact Or.inr (Or.inr (hfail s (.dies true) e _ hs hact))

/-- A program that leaves what a restore is judged by. -/
def Quiet {α : Type} (x : Proc (State β) Raised α) : Prop :=
  ∀ c, Proc.Keeps (fun s => s.core = c) x

theorem Quiet.meets {α : Type} {x : Proc (State β) Raised α} (h : Quiet x) (A : Core β → Prop) :
    Proc.Keeps (fun s => A s.core) x := by
  intro s hs
  refine (h s.core s rfl).mono ?_ ?_ <;>
  · intro _ s' hs'
    rw [hs']
    exact hs

theorem quiet_step {half : Disk β → Disk β}
    (hdone : ∀ (s : State β) out disk, act s.disk = .ok disk → (s.after name out disk).core = s.core)
    (hundone : ∀ (s : State β) out, (s.after name out (half s.disk)).core = s.core)
    (hfail : ∀ (s : State β) out, (s.after name out s.disk).core = s.core) :
    Quiet (step env name act half) := by
  intro c
  refine (meets_step (A := (· = c)) (B := (· = c)) (C := fun _ => (· = c)) ?_ ?_ ?_).mono
    (fun _ h => h) (fun _ _ h => h) (fun _ _ h => by tauto)
  · intro s out disk hs _ hact
    exact (hdone s out disk hact).trans hs
  · intro s out hs _
    exact (hundone s out).trans hs
  · intro s out e e' hs _
    exact (hfail s out).trans hs

theorem quiet_write {act half : Disk β → Disk β}
    (h : name ∉ [Step.removeWal, .replace, .moveAside, .removePending])
    (hact : ∀ s : State β, { s with disk := act s.disk }.core = s.core)
    (hhalf : ∀ s : State β, { s with disk := half s.disk }.core = s.core) :
    Quiet (step env name (fun d => .ok (act d)) half) := by
  have hran : ∀ (s : State β) out disk, { s with disk := disk }.core = s.core →
      (s.after name out disk).core = s.core := by
    intro s out disk hdisk
    simp only [List.mem_cons, List.not_mem_nil, or_false, not_or] at h
    rw [← hdisk]
    simp [State.after, State.core, Function.update, Ne.symm h.1, Ne.symm h.2.1, Ne.symm h.2.2.1,
      Ne.symm h.2.2.2]
  refine quiet_step (fun s out disk hdone => ?_) (fun s out => hran s out _ (hhalf s))
    (fun s out => hran s out s.disk rfl)
  cases hdone
  exact hran s out _ (hact s)

theorem quiet_remove {act : Disk β → Disk β}
    (h : name ∉ [Step.removeWal, .replace, .moveAside, .removePending])
    (hact : ∀ s : State β, { s with disk := act s.disk }.core = s.core) :
    Quiet (remove env name act) := quiet_write h hact (fun _ => rfl)

theorem quiet_look
    (h : name ∉ [Step.removeWal, .replace, .moveAside, .removePending]) : Quiet (look env name) :=
  quiet_remove h (fun _ => rfl)

theorem quiet_update {f : State β → State β} (h : ∀ s, (f s).core = s.core) :
    Quiet (Proc.update f) := fun _ => Proc.keeps_update (fun s hs => (h s).trans hs)

theorem quiet_setResult (f : Result → Result) : Quiet (setResult (β := β) f) :=
  quiet_update (fun _ => rfl)

theorem quiet_handleIf {α : Type} {caught : Raised → Bool} {x : Proc (State β) Raised α}
    {h : Raised → Proc (State β) Raised α} (hx : Quiet x) (hh : ∀ e, Quiet (h e)) :
    Quiet (handleIf caught x h) := by
  intro c
  refine Proc.keeps_handle (hx c) fun e => ?_
  split_ifs
  · exact hh e c
  · exact Proc.keeps_raise e

/-! #### Validation -/

section Restore

variable (sql : Sqlite β) (env : Env β)

/-- A file that the validation lets through. -/
def Sqlite.Accepts (image : Pages β) : Prop :=
  sql.magic image = true ∧ ∃ version ≤ sql.latest, sql.check image = .ok version

theorem quiet_checkPending (image : Pages β) : Quiet (checkPending sql env image) := by
  refine quiet_handleIf (fun c => ?_) (fun e _ => Proc.keeps_raise _)
  refine Proc.keeps_bind (quiet_look (by decide) c) fun _ => ?_
  cases sql.check image with
  | ok version => exact Proc.keeps_pure _
  | error text => exact Proc.keeps_raise _

theorem quiet_closePending : Quiet (closePending env) := by
  intro c
  refine Proc.keeps_bind (quiet_look (by decide) c) fun _ => ?_
  refine Proc.keeps_bind (quiet_remove (by decide) (fun _ => rfl) c) fun _ => ?_
  refine Proc.keeps_bind (quiet_remove (by decide) (fun _ => rfl) c) fun _ => ?_
  exact quiet_remove (by decide) (fun _ => rfl) c

theorem quiet_validateBackupFile (image : Pages β) : Quiet (validateBackupFile sql env image) := by
  intro c
  refine Proc.keeps_bind (quiet_handleIf (quiet_look (by decide))
    (fun e _ => Proc.keeps_raise _) c) fun _ => ?_
  split_ifs
  · refine Proc.keeps_bind (quiet_handleIf (quiet_look (by decide))
      (fun e _ => Proc.keeps_raise _) c) fun _ => ?_
    refine Proc.keeps_bind (Proc.keeps_ensuring (quiet_checkPending sql env image c)
      (quiet_closePending env c)) fun version => ?_
    split_ifs
    · exact Proc.keeps_raise _
    · exact Proc.keeps_pure _
  · exact Proc.keeps_raise _

theorem meets_validateBackupFile (image : Pages β) :
    Proc.Meets (fun _ => True) (validateBackupFile sql env image)
      (fun _ _ => sql.Accepts image) (fun _ _ => True) := by
  have hchecked : Proc.Meets (fun _ => True) (checkPending sql env image)
      (fun version _ => sql.check image = .ok version) (fun _ _ => True) := by
    refine Proc.meets_handle (E := fun _ _ => True) ?_ fun e => ?_
    · refine Proc.meets_bind (fun s _ => (quiet_look (by decide)).meets (fun _ => True) s trivial)
        fun _ => ?_
      cases hcheck : sql.check image with
      | ok version => exact Proc.meets_pure fun _ _ => rfl
      | error text => exact Proc.meets_raise fun _ _ => trivial
    · split_ifs
      · exact Proc.meets_raise fun _ _ => trivial
      · exact Proc.meets_raise fun _ _ => trivial
  refine Proc.meets_bind ((quiet_handleIf (quiet_look (by decide))
    (fun e _ => Proc.keeps_raise _)).meets (fun _ => True)) fun _ => ?_
  split_ifs with hmagic
  · refine Proc.meets_bind ((quiet_handleIf (quiet_look (by decide))
      (fun e _ => Proc.keeps_raise _)).meets (fun _ => True)) fun _ => ?_
    refine Proc.meets_bind (Q := fun version _ => sql.check image = .ok version)
      (Proc.meets_ensuring hchecked (fun version s hs => ?_) fun e s _ => ?_) fun version => ?_
    · refine ((quiet_closePending env).meets (fun _ => True) s trivial).mono ?_ ?_
      · exact fun _ _ _ => hs
      · exact fun _ _ _ => trivial
    · exact (quiet_closePending env).meets (fun _ => True) s trivial
    · split_ifs with hnew
      · exact Proc.meets_raise fun _ _ => trivial
      · exact Proc.meets_pure fun _ hs => ⟨hmagic, version, Nat.le_of_not_lt hnew, hs⟩
  · exact Proc.meets_raise fun _ _ => trivial

end Restore

end RtfmEv.DbRestore
