import RtfmEv.DbRestore.Apply

/-!
# A restore that fails

Where a start stops, at whichever step, the live path holds the old content or the staged
backup, and the old content is there or in the snapshot. Two ways lead astray. The WAL is
removed before the staged file is moved in, so that a stop between them leaves the main
file alone, without what a close did not fold into it. And a staged file that cannot be
moved aside is removed.
-/

namespace RtfmEv.DbRestore

open RtfmEv.Lib

variable {β : Type}

section Restore

variable (sql : Sqlite β) (env : Env β)

/-! ### What the live path holds -/

def Core.read (c : Core β) : Option (Pages β) :=
  c.db.map (fun main => overlay main (c.wal.getD (fun _ => none)))

variable (disk : Disk β) (staged : Pages β)

/-- The old content is in the snapshot. -/
def Saved (c : Core β) : Prop := ∀ image, disk.read = some image → c.snapshot = some image

/-- The live path after a stop: nothing is changed, or the main file is left alone, or the
staged file has its place. -/
inductive Live (c : Core β) : Prop
  | kept (hread : c.read = disk.read) (hwal : did c.removeWal = false)
    (hreplace : did c.replace = false)
  | dropped (hdb : c.db = (disk.close env).db) (hnone : c.wal = none) (hsaved : Saved disk c)
    (hwal : did c.removeWal = true) (hreplace : did c.replace = false)
  | applied (hdb : c.db = some staged) (hnone : c.wal = none) (hsaved : Saved disk c)
    (haccepts : sql.Accepts staged) (hreplace : did c.replace = true)

/-- The staged file is where it was, unless it was moved into place. -/
structure Unmoved (c : Core β) : Prop where
  pending : c.pending = if did c.replace then none else some staged
  moveAside : c.moveAside = none
  removePending : c.removePending = none

/-- Nothing was removed yet. -/
structure Kept (c : Core β) : Prop where
  read : c.read = disk.read
  wal : did c.removeWal = false
  replace : did c.replace = false
  unmoved : Unmoved staged c

/-- The old content is in the snapshot, and the main file is as the close left it. -/
structure Closed (c : Core β) : Prop extends Kept disk staged c where
  db : c.db = (disk.close env).db
  saved : Saved disk c

/-- The WAL is gone. -/
structure Dropped (c : Core β) : Prop where
  db : c.db = (disk.close env).db
  none : c.wal = none
  saved : Saved disk c
  wal : did c.removeWal = true
  replace : did c.replace = false
  unmoved : Unmoved staged c

/-- What a stop of the restore leaves. -/
structure Stopped (c : Core β) : Prop where
  live : Live sql env disk staged c
  unmoved : Unmoved staged c

variable {sql env disk staged} {c : Core β}

theorem Kept.stopped (h : Kept disk staged c) : Stopped sql env disk staged c :=
  ⟨.kept h.read h.wal h.replace, h.unmoved⟩

theorem Dropped.stopped (h : Dropped env disk staged c) : Stopped sql env disk staged c :=
  ⟨.dropped h.db h.none h.saved h.wal h.replace, h.unmoved⟩

theorem close_db {d : Disk β} (hdb : d.db = disk.db) (hwal : d.wal = disk.wal) :
    (d.close env).db = (disk.close env).db := by
  unfold Disk.close Disk.read
  rw [hdb, hwal]
  split_ifs
  · split <;> rfl
  · exact hdb

/-- A close leaves the other files. -/
theorem core_close (s : State β) (out : Outcome) (d : Disk β)
    (hd : d = s.disk.close env ∨ d = s.disk) :
    (s.after .close out d).core =
      { s.core with db := d.db, wal := d.wal } ∧ d.read = s.disk.read := by
  rcases hd with rfl | rfl
  · refine ⟨?_, Disk.read_close env s.disk⟩
    unfold Disk.close
    split_ifs
    · split <;> rfl
    · rfl
  · exact ⟨rfl, rfl⟩

theorem Kept.close {s : State β} (h : Kept disk staged s.core) (out : Outcome) {d : Disk β}
    (hd : d = s.disk.close env ∨ d = s.disk) : Kept disk staged (s.after .close out d).core := by
  obtain ⟨hcore, hread⟩ := core_close s out d hd
  rw [hcore]
  exact ⟨hread.trans h.read, h.wal, h.replace, ⟨h.unmoved.pending, h.unmoved.moveAside,
    h.unmoved.removePending⟩⟩

theorem halfClose_eq (d : Disk β) : d.halfClose env = d.close env ∨ d.halfClose env = d := by
  unfold Disk.halfClose
  split_ifs
  · exact Or.inl rfl
  · exact Or.inr rfl

theorem keeps_close : Proc.Keeps (fun s => Kept disk staged s.core)
    (step env .close (fun d => .ok (d.close env)) (Disk.halfClose env)) := by
  refine (meets_step (B := Kept disk staged) (C := fun _ => Kept disk staged) ?_ ?_ ?_).mono
    (fun _ h => h) (fun _ _ h => h) (fun _ _ h => by tauto)
  · intro s out d hs _ hact
    exact hs.close out (Or.inl (Except.ok.inj hact).symm)
  · intro s out hs _
    exact hs.close out (halfClose_eq s.disk)
  · intro s out e e' _ hact
    cases hact

theorem meets_snapshotOld (snapshot : String)
    (hstart : Kept disk staged ({ disk := disk } : State β).core) :
    Proc.Meets (fun s => s.core = ({ disk := disk } : State β).core) (snapshotOld env snapshot)
      (fun _ s => Closed env disk staged s.core) (fun _ s => Kept disk staged s.core) := by
  let start : Core β := ({ disk := disk } : State β).core
  have hkept : ∀ snap, Kept disk staged { start with snapshot := snap } := fun snap =>
    ⟨hstart.read, hstart.wal, hstart.replace, ⟨hstart.unmoved.pending, hstart.unmoved.moveAside,
      hstart.unmoved.removePending⟩⟩
  refine Proc.meets_bind (Q := fun _ s => s.core = start)
    (((quiet_look (by decide)) start).mono (fun _ h => h) (fun _ _ h => h)
      (fun _ s h => ?_)) fun _ => ?_
  · rw [h]
    exact hstart
  refine Proc.meets_bind (Q := fun _ (s : State β) => Closed env disk staged s.core)
    (Proc.meets_ensuring (Q := fun _ (s : State β) => s.core = { start with snapshot := disk.read })
      (E := fun _ (s : State β) => Kept disk staged s.core) ?_ (fun _ => ?_) fun _ => keeps_close)
    fun _ => ?_
  · refine (meets_step (A := (· = start)) (B := (· = { start with snapshot := disk.read }))
      (C := fun _ c => ∃ snap, c = { start with snapshot := snap }) ?_ ?_ ?_).mono (fun _ h => h)
      (fun _ _ h => h) ?_
    · intro s out d hs _ hact
      unfold Disk.vacuum at hact
      split_ifs at hact
      rw [← Except.ok.inj hact, ← hs]
      have hread : s.disk.read = disk.read := congrArg Core.read hs
      rw [← hread]
      rfl
    · intro s out hs _
      refine ⟨(s.disk.halfVacuum env).snapshot, ?_⟩
      rw [← hs]
      unfold Disk.halfVacuum
      split_ifs <;> rfl
    · intro s out e e' hs _
      exact ⟨start.snapshot, hs⟩
    · intro e s h
      rcases h with ⟨_, h⟩ | h | ⟨snap, h⟩ <;> rw [h]
      · exact hstart
      · exact hkept _
      · exact hkept snap
  · refine (meets_step (A := (· = { start with snapshot := disk.read })) (B := Closed env disk staged)
      (C := fun _ => Kept disk staged) ?_ ?_ ?_).mono (fun _ h => h) (fun _ _ h => h) ?_
    · intro s out d hs _ hact
      have hd := Or.inl (b := d = s.disk) (Except.ok.inj hact).symm
      have hclosed : Kept disk staged (s.after .close out d).core :=
        Kept.close (hs ▸ hkept disk.read) out hd
      refine ⟨hclosed, ?_, ?_⟩
      · show d.db = _
        rw [← Except.ok.inj hact]
        exact close_db (congrArg Core.db hs) (congrArg Core.wal hs)
      · intro image himage
        rw [(core_close s out d hd).1, hs]
        exact himage
    · intro s out hs _
      exact Kept.close (hs ▸ hkept disk.read) out (halfClose_eq s.disk)
    · intro s out e e' _ hact
      cases hact
    · intro e s h
      rcases h with ⟨_, h⟩ | h | h
      · rw [h]
        exact hkept _
      · exact h.toKept
      · exact h
  · exact ((quiet_setResult _).meets (Closed env disk staged)).mono (fun _ h => h) (fun _ _ h => h)
      (fun _ _ h => h.toKept)

/-- **The swap.** The WAL goes first, and then the staged file is moved into its place. -/
theorem meets_swapIn (haccepts : sql.Accepts staged) :
    Proc.Meets (fun s => Closed env disk staged s.core) (swapIn env)
      (fun _ s => Stopped sql env disk staged s.core)
      (fun _ s => Stopped sql env disk staged s.core) := by
  refine Proc.meets_bind (Q := fun _ (s : State β) => Dropped env disk staged s.core)
    ((meets_step (A := Closed env disk staged) (B := Dropped env disk staged)
      (C := fun _ => Kept disk staged) ?_ ?_ ?_).mono (fun _ h => h) (fun _ _ h => h) ?_) fun _ => ?_
  · intro s out d hs hout hact
    rw [← Except.ok.inj hact]
    exact ⟨hs.db, rfl, hs.saved, hout, hs.replace,
      ⟨hs.unmoved.pending, hs.unmoved.moveAside, hs.unmoved.removePending⟩⟩
  · intro s out hs hout
    exact ⟨hs.read, hout, hs.replace,
      ⟨hs.unmoved.pending, hs.unmoved.moveAside, hs.unmoved.removePending⟩⟩
  · intro s out e e' _ hact
    cases hact
  · intro e s h
    rcases h with ⟨_, h⟩ | h | h
    · exact h.toKept.stopped
    · exact h.stopped
    · exact h.stopped
  have hquiet : ∀ {α : Type} {x : Proc (State β) Raised α}, Quiet x →
      Proc.Meets (fun s => Dropped env disk staged s.core) x
        (fun _ s => Dropped env disk staged s.core)
        (fun _ s => Stopped sql env disk staged s.core) := fun hx =>
    (hx.meets (Dropped env disk staged)).mono (fun _ h => h) (fun _ _ h => h)
      (fun _ _ h => h.stopped)
  refine Proc.meets_bind (hquiet (quiet_remove (by decide) (fun _ => rfl))) fun _ => ?_
  refine Proc.meets_bind (hquiet (quiet_remove (by decide) (fun _ => rfl))) fun _ => ?_
  refine Proc.meets_bind (Q := fun _ (s : State β) => Stopped sql env disk staged s.core)
    ((meets_step (A := Dropped env disk staged) (B := Stopped sql env disk staged)
      (C := fun _ => Dropped env disk staged) ?_ ?_ ?_).mono (fun _ h => h) (fun _ _ h => h) ?_)
      fun _ => (quiet_setResult _).meets (Stopped sql env disk staged)
  · intro s out d hs hout hact
    have hpending : s.disk.pending = some staged := by
      have := hs.unmoved.pending
      rwa [hs.replace, if_neg Bool.false_ne_true] at this
    rw [Disk.replace, hpending] at hact
    rw [← Except.ok.inj hact]
    exact ⟨.applied rfl hs.none hs.saved haccepts hout,
      ⟨(if_pos hout).symm, hs.unmoved.moveAside, hs.unmoved.removePending⟩⟩
  · intro s out hs hout
    refine ⟨hs.db, hs.none, hs.saved, hs.wal, hout, ⟨?_, hs.unmoved.moveAside,
      hs.unmoved.removePending⟩⟩
    have := hs.unmoved.pending
    rw [hs.replace, if_neg Bool.false_ne_true] at this
    show s.disk.pending = if out.done = true then none else some staged
    rw [hout]
    exact this
  · intro s out e e' hs hact
    have := hs.unmoved.pending
    rw [hs.replace, if_neg Bool.false_ne_true] at this
    have hpending : s.disk.pending = some staged := this
    rw [Disk.replace, hpending] at hact
    cases hact
  · intro e s h
    rcases h with ⟨_, h⟩ | h | h
    · exact h.stopped
    · exact h
    · exact h.stopped

theorem meets_restore (snapshot : String)
    (hstart : Kept disk staged ({ disk := disk } : State β).core) :
    Proc.Meets (fun s => s.core = ({ disk := disk } : State β).core) (restore sql env snapshot staged)
      (fun _ s => Stopped sql env disk staged s.core)
      (fun _ s => Stopped sql env disk staged s.core) := by
  have hstopped : ∀ s : State β, s.core = ({ disk := disk } : State β).core →
      Stopped sql env disk staged s.core := by
    intro s hs
    rw [hs]
    exact hstart.stopped
  refine Proc.meets_bind (Q := fun _ (s : State β) =>
    s.core = ({ disk := disk } : State β).core ∧ sql.Accepts staged) ?_ fun version => ?_
  · refine ((quiet_validateBackupFile sql env staged _).and
      (meets_validateBackupFile sql env staged)).mono (fun s hs => ⟨hs, trivial⟩) (fun _ _ h => h) ?_
    exact fun _ s h => hstopped s h.1
  intro s hs
  have haccepts := hs.2
  revert s
  refine Proc.meets_bind (Q := fun _ (s : State β) => s.core = ({ disk := disk } : State β).core)
    ((quiet_setResult _ _).mono (fun _ h => h.1) (fun _ _ h => h) (fun _ s h => hstopped s h))
    fun _ => ?_
  refine Proc.meets_bind (Q := fun isfile (s : State β) =>
    s.core = ({ disk := disk } : State β).core ∧ isfile = disk.db.isSome)
    (Proc.meets_ask fun s hs => ⟨hs, congrArg (fun c : Core β => c.db.isSome) hs⟩)
    fun isfile => ?_
  split_ifs
  · show Proc.Meets _ (snapshotOld env snapshot >>= fun _ => swapIn env) _ _
    exact Proc.meets_bind ((meets_snapshotOld snapshot hstart).mono (fun _ h => h.1)
      (fun _ _ h => h) (fun _ _ h => h.stopped)) fun _ => meets_swapIn haccepts
  · show Proc.Meets _ (swapIn env) _ _
    refine (meets_swapIn haccepts).mono (fun s hs => ?_) (fun _ _ h => h) (fun _ _ h => h)
    have hnone : disk.db = none := by
      cases hdb : disk.db with
      | none => rfl
      | some main =>
        rw [hdb] at hs
        exact absurd hs.2 (by assumption)
    have hread : disk.read = none := by rw [Disk.read, hnone]; rfl
    rw [hs.1]
    refine ⟨hstart, ?_, fun image himage => by rw [hread] at himage; cases himage⟩
    show disk.db = _
    unfold Disk.close
    split_ifs
    · split
      · exact hnone.trans hread.symm
      · rw [hnone]
        rfl
    · rfl

/-! ### What becomes of the staged file -/

/-- It cannot be moved aside. -/
def Refused (c : Core β) : Prop := ∃ text, c.moveAside = some (.raises false .os text)

/-- What became of the staged file. -/
inductive Settled (staged : Pages β) (c : Core β) : Prop
  | applied (hreplace : did c.replace = true)
  | pending (hreplace : did c.replace = false) (hpending : c.pending = some staged)
    (hremove : did c.removePending = false)
  | aside (hreplace : did c.replace = false) (hmove : did c.moveAside = true)
    (hfailed : c.failed = some staged)
  | lost (hreplace : did c.replace = false) (hrefused : Refused c)
    (hremove : did c.removePending = true) (hpending : c.pending = none)

theorem Unmoved.settled (h : Unmoved staged c) : Settled staged c := by
  have hpending := h.pending
  cases hreplace : did c.replace with
  | true => exact .applied hreplace
  | false =>
    rw [hreplace] at hpending
    exact .pending hreplace hpending (by rw [h.removePending]; rfl)

/-- The live path is judged by its own files. -/
theorem Live.congr {c' : Core β} (h : Live sql env disk staged c) (hdb : c'.db = c.db)
    (hwal : c'.wal = c.wal) (hsnapshot : c'.snapshot = c.snapshot)
    (hremove : c'.removeWal = c.removeWal) (hreplace : c'.replace = c.replace) :
    Live sql env disk staged c' := by
  cases c
  cases c'
  cases hdb
  cases hwal
  cases hsnapshot
  cases hremove
  cases hreplace
  cases h with
  | kept hread hwal hreplace => exact .kept hread hwal hreplace
  | dropped hdb hnone hsaved hwal hreplace => exact .dropped hdb hnone hsaved hwal hreplace
  | applied hdb hnone hsaved haccepts hreplace => exact .applied hdb hnone hsaved haccepts hreplace

/-- Where the staged file is when the handler may remove it. -/
inductive Moving (staged : Pages β) (e : Raised) (c : Core β) : Prop
  | applied (hreplace : did c.replace = true)
  | aside (hreplace : did c.replace = false) (hmove : did c.moveAside = true)
    (hfailed : c.failed = some staged)
  | pending (hreplace : did c.replace = false) (hpending : c.pending = some staged)
    (hremove : c.removePending = none) (hrefused : e.isOs = true → Refused c)

theorem Moving.settled {e : Raised} (h : Moving staged e c) : Settled staged c := by
  cases h with
  | applied hreplace => exact .applied hreplace
  | aside hreplace hmove hfailed => exact .aside hreplace hmove hfailed
  | pending hreplace hpending hremove _ =>
    exact .pending hreplace hpending (by rw [hremove]; rfl)

theorem meets_moveAside : Proc.Meets (fun s => Stopped sql env disk staged s.core)
    (step env .moveAside Disk.moveAside)
    (fun _ s => Live sql env disk staged s.core ∧ Settled staged s.core)
    (fun e s => Live sql env disk staged s.core ∧ Moving staged e s.core) := by
  refine (meets_step (A := Stopped sql env disk staged)
    (B := fun c => Live sql env disk staged c ∧ did c.replace = false ∧ did c.moveAside = true ∧
      c.failed = some staged)
    (C := fun e c => Live sql env disk staged c ∧ Moving staged e c) ?_ ?_ ?_).mono (fun _ h => h)
      (fun _ s h => ⟨h.1, .aside h.2.1 h.2.2.1 h.2.2.2⟩) ?_
  · intro s out d hs hout hact
    have hpending := hs.unmoved.pending
    cases hreplace : did s.core.replace with
    | true =>
      rw [hreplace] at hpending
      have hnone : s.disk.pending = none := hpending
      rw [Disk.moveAside, hnone] at hact
      cases hact
    | false =>
      rw [hreplace] at hpending
      have hsome : s.disk.pending = some staged := hpending
      rw [Disk.moveAside, hsome] at hact
      rw [← Except.ok.inj hact]
      exact ⟨hs.live.congr rfl rfl rfl rfl rfl, hreplace, hout, rfl⟩
  · intro s out hs hout
    refine ⟨hs.live.congr rfl rfl rfl rfl rfl, ?_⟩
    have hpending := hs.unmoved.pending
    cases hreplace : did s.core.replace with
    | true => exact .applied hreplace
    | false =>
      rw [hreplace] at hpending
      refine .pending hreplace hpending hs.unmoved.removePending fun hos => ?_
      cases out with
      | returns => cases hout
      | dies done => cases hos
      | raises done kind text =>
        have hkind : kind = .os := of_decide_eq_true hos
        have hdone : done = false := hout
        exact ⟨text, by rw [hkind, hdone]; rfl⟩
  · intro s out e e' hs hact
    refine ⟨hs.live.congr rfl rfl rfl rfl rfl, .applied ?_⟩
    have hpending := hs.unmoved.pending
    cases hreplace : did s.core.replace with
    | true => exact hreplace
    | false =>
      rw [hreplace] at hpending
      have hsome : s.disk.pending = some staged := hpending
      rw [Disk.moveAside, hsome] at hact
      cases hact
  · intro e s h
    rcases h with ⟨rfl, h⟩ | h | h
    · refine ⟨h.live, ?_⟩
      have hpending := h.unmoved.pending
      cases hreplace : did s.core.replace with
      | true => exact .applied hreplace
      | false =>
        rw [hreplace] at hpending
        exact .pending hreplace hpending h.unmoved.removePending fun hos => by cases hos
    · exact ⟨h.1, .aside h.2.1 h.2.2.1 h.2.2.2⟩
    · exact h

theorem meets_removePending {e : Raised} (he : e.isOs = true) :
    Proc.Meets (fun s => Live sql env disk staged s.core ∧ Moving staged e s.core)
      (remove env .removePending (fun d => { d with pending := none }))
      (fun _ s => Live sql env disk staged s.core ∧ Settled staged s.core)
      (fun _ s => Live sql env disk staged s.core ∧ Settled staged s.core) := by
  refine (meets_step (A := fun c => Live sql env disk staged c ∧ Moving staged e c)
    (B := fun c => Live sql env disk staged c ∧ Settled staged c)
    (C := fun _ c => Live sql env disk staged c ∧ Settled staged c) ?_ ?_ ?_).mono (fun _ h => h)
      (fun _ _ h => h) ?_
  · intro s out d hs hout hact
    rw [← Except.ok.inj hact]
    refine ⟨hs.1.congr rfl rfl rfl rfl rfl, ?_⟩
    cases hs.2 with
    | applied hreplace => exact .applied hreplace
    | aside hreplace hmove hfailed => exact .aside hreplace hmove hfailed
    | pending hreplace hpending hremove hrefused => exact .lost hreplace (hrefused he) hout rfl
  · intro s out hs hout
    refine ⟨hs.1.congr rfl rfl rfl rfl rfl, ?_⟩
    cases hs.2 with
    | applied hreplace => exact .applied hreplace
    | aside hreplace hmove hfailed => exact .aside hreplace hmove hfailed
    | pending hreplace hpending hremove hrefused => exact .pending hreplace hpending hout
  · intro s out e e' _ hact
    cases hact
  · intro e s h
    rcases h with ⟨_, h⟩ | h | h
    · exact ⟨h.1, h.2.settled⟩
    · exact h
    · exact h

theorem meets_setAside (e : Raised) :
    Proc.Meets (fun s => Stopped sql env disk staged s.core) (setAside env e)
      (fun _ s => Live sql env disk staged s.core ∧ Settled staged s.core)
      (fun _ s => Live sql env disk staged s.core ∧ Settled staged s.core) := by
  refine Proc.meets_bind (((quiet_setResult _).meets (Stopped sql env disk staged)).mono
    (fun _ h => h) (fun _ _ h => h) (fun _ _ h => ⟨h.live, h.unmoved.settled⟩)) fun _ => ?_
  refine Proc.meets_handle meets_moveAside fun e => ?_
  split_ifs with he
  · exact meets_removePending he
  · exact Proc.meets_raise fun _ h => ⟨h.1, h.2.settled⟩

/-! ### A whole start -/

theorem quiet_readMeta : Quiet (readMeta env) :=
  quiet_handleIf (fun c => Proc.keeps_bind (quiet_look (by decide) c) fun _ => Proc.keeps_ask _)
    fun _ _ => Proc.keeps_pure _

theorem quiet_writeResult : Quiet (writeResult env) := by
  intro c
  refine Proc.keeps_bind (Proc.keeps_ask _) fun result => ?_
  refine Proc.keeps_bind (quiet_write (by decide) (fun _ => rfl) (fun _ => rfl) c) fun _ => ?_
  exact @quiet_write _ _ _ (fun d => { d with result := d.resultTmp, resultTmp := none }) _
    (by decide) (fun _ => rfl) (fun _ => rfl) c

/-- What a start leaves of a staged file and of the live path. -/
theorem meets_applyPendingRestore (now : ℤ) (snapshot : String)
    (hpending : disk.pending = some staged) :
    Proc.Meets (fun s => s.core = ({ disk := disk } : State β).core)
      (applyPendingRestore sql env now snapshot)
      (fun _ s => Live sql env disk staged s.core ∧ Settled staged s.core)
      (fun _ s => Live sql env disk staged s.core ∧ Settled staged s.core) := by
  have hstart : Kept disk staged ({ disk := disk } : State β).core :=
    ⟨rfl, rfl, rfl, ⟨hpending, rfl, rfl⟩⟩
  have hleft : ∀ s : State β, s.core = ({ disk := disk } : State β).core →
      Live sql env disk staged s.core ∧ Settled staged s.core := by
    intro s hs
    rw [hs]
    exact ⟨hstart.stopped.live, hstart.unmoved.settled⟩
  have hquiet : ∀ {α : Type} {x : Proc (State β) Raised α}, Quiet x →
      Proc.Keeps (fun s => Live sql env disk staged s.core ∧ Settled staged s.core) x :=
    fun hx => hx.meets (fun c => Live sql env disk staged c ∧ Settled staged c)
  refine Proc.meets_bind (Q := fun pending (s : State β) =>
    s.core = ({ disk := disk } : State β).core ∧ pending = some staged)
    (Proc.meets_ask fun s hs => ⟨hs, (congrArg Core.pending hs).trans hpending⟩) fun pending => ?_
  cases pending with
  | none => exact Proc.meets_pure fun s hs => by cases hs.2
  | some image =>
    by_cases himage : image ≠ staged
    · exact fun s hs => absurd (Option.some.inj hs.2) himage
    rw [not_not.mp himage]
    refine Proc.meets_bind (Q := fun _ (s : State β) => s.core = ({ disk := disk } : State β).core)
      ((quiet_readMeta _).mono (fun s hs => hs.1) (fun _ _ h => h) fun _ s h => hleft s h)
      fun found => ?_
    refine Proc.meets_bind (Q := fun _ (s : State β) => s.core = ({ disk := disk } : State β).core)
      (Proc.meets_update fun s hs => hs) fun _ => ?_
    have hrestore : Proc.Meets (fun s : State β => s.core = ({ disk := disk } : State β).core)
        (handleIf Raised.isException (restore sql env snapshot staged) (setAside env))
        (fun _ s => Live sql env disk staged s.core ∧ Settled staged s.core)
        (fun _ s => Live sql env disk staged s.core ∧ Settled staged s.core) := by
      refine Proc.meets_handle ((meets_restore snapshot hstart).mono (fun _ h => h)
        (fun _ _ h => ⟨h.live, h.unmoved.settled⟩) (fun _ _ h => h)) fun e => ?_
      split_ifs
      · exact meets_setAside e
      · exact Proc.meets_raise fun _ h => ⟨h.live, h.unmoved.settled⟩
    refine Proc.meets_bind (Proc.meets_ensuring hrestore
      (fun _ => hquiet (quiet_remove (by decide) (fun _ => rfl)))
      fun _ => hquiet (quiet_remove (by decide) (fun _ => rfl))) fun _ => ?_
    refine Proc.meets_bind (hquiet (quiet_handleIf quiet_writeResult
      fun _ _ => Proc.keeps_pure _)) fun _ => ?_
    exact Proc.keeps_ask _

/-! ### What is lost -/

/-- The state that a start leaves. -/
def start (sql : Sqlite β) (env : Env β) (now : ℤ) (snapshot : String) (disk : Disk β) : State β :=
  (applyPendingRestore sql env now snapshot { disk := disk }).2

/-- **A start loses nothing.** The live path holds the old content, or the staged backup that
the validation let through; the old content is there or in the snapshot; and a staged file
that was not applied is still pending or moved aside. -/
structure LosesNothing (sql : Sqlite β) (disk : Disk β) (s : State β) : Prop where
  live : s.disk.read = disk.read ∨
    ∃ staged, disk.pending = some staged ∧ sql.Accepts staged ∧ s.disk.read = some staged
  old : ∀ image, disk.read = some image → s.disk.read = some image ∨ s.disk.snapshot = some image
  staged : ∀ staged, disk.pending = some staged → did (s.ran .replace) = true ∨
    s.disk.pending = some staged ∨ did (s.ran .moveAside) = true ∧ s.disk.failed = some staged

/-- The start stops between the removal of the WAL and the move of the staged file, and the
close has left something in the WAL. -/
def StopsBetween (sql : Sqlite β) (env : Env β) (disk : Disk β) (ran : Step → Option Outcome) :
    Prop :=
  did (ran .removeWal) = true ∧ did (ran .replace) = false ∧ (disk.close env).db ≠ disk.read ∧
    ∀ staged, disk.pending = some staged → sql.Accepts staged → (disk.close env).db ≠ some staged

/-- The staged file is not applied, cannot be moved aside and is removed. -/
def DropsStaged (ran : Step → Option Outcome) : Prop :=
  did (ran .replace) = false ∧ (∃ text, ran .moveAside = some (.raises false .os text)) ∧
    did (ran .removePending) = true

variable {s : State β}

theorem not_stopsBetween (hlive : Live sql env disk staged s.core) (h : LosesNothing sql disk s) :
    ¬ StopsBetween sql env disk s.ran := by
  rintro ⟨hwal, hreplace, hread, hstaged⟩
  cases hlive with
  | kept _ hkept _ => exact Bool.false_ne_true (hkept.symm.trans hwal)
  | applied _ _ _ _ happlied => exact Bool.false_ne_true (hreplace.symm.trans happlied)
  | dropped hdb hnone _ _ _ =>
    have hleft : s.disk.read = (disk.close env).db := by
      show (s.core.db.map fun main => overlay main (s.core.wal.getD _)) = _
      rw [hdb, hnone]
      cases (disk.close env).db <;> rfl
    rcases h.live with hold | ⟨image, hpending, haccepts, hnew⟩
    · exact hread (hleft.symm.trans hold)
    · exact hstaged image hpending haccepts (hleft.symm.trans hnew)

theorem not_dropsStaged (hpending : disk.pending = some staged) (hsettled : Settled staged s.core)
    (h : LosesNothing sql disk s) : ¬ DropsStaged s.ran := by
  rintro ⟨hreplace, ⟨text, hmove⟩, hremove⟩
  have hnone : s.disk.pending = none := by
    cases hsettled with
    | applied happlied => exact absurd (hreplace.symm.trans happlied) Bool.false_ne_true
    | pending _ _ hkept => exact absurd (hkept.symm.trans hremove) Bool.false_ne_true
    | aside _ hmoved _ =>
      have hmoved : did (s.ran .moveAside) = true := hmoved
      rw [hmove] at hmoved
      cases hmoved
    | lost _ _ _ hnone => exact hnone
  rcases h.staged staged hpending with happlied | hkept | ⟨hmoved, _⟩
  · exact absurd (hreplace.symm.trans happlied) Bool.false_ne_true
  · rw [hnone] at hkept
    cases hkept
  · rw [hmove] at hmoved
    cases hmoved

theorem losesNothing_of (hpending : disk.pending = some staged)
    (hlive : Live sql env disk staged s.core) (hsettled : Settled staged s.core)
    (hbetween : ¬ StopsBetween sql env disk s.ran) (hdrops : ¬ DropsStaged s.ran) :
    LosesNothing sql disk s := by
  have hstaged : ∀ image, disk.pending = some image → did (s.ran .replace) = true ∨
      s.disk.pending = some image ∨ did (s.ran .moveAside) = true ∧ s.disk.failed = some image := by
    intro image himage
    rw [← Option.some.inj (hpending.symm.trans himage)]
    cases hsettled with
    | applied happlied => exact Or.inl happlied
    | pending _ hkept _ => exact Or.inr (Or.inl hkept)
    | aside _ hmoved hfailed => exact Or.inr (Or.inr ⟨hmoved, hfailed⟩)
    | lost hreplace hrefused hremove _ => exact absurd ⟨hreplace, hrefused, hremove⟩ hdrops
  cases hlive with
  | kept hread _ _ =>
    have hread : s.disk.read = disk.read := hread
    exact ⟨Or.inl hread, fun image himage => Or.inl (hread.trans himage), hstaged⟩
  | applied hdb hnone hsaved haccepts _ =>
    have hread : s.disk.read = some staged := by
      show (s.core.db.map fun main => overlay main (s.core.wal.getD _)) = _
      rw [hdb, hnone]
      rfl
    exact ⟨Or.inr ⟨staged, hpending, haccepts, hread⟩,
      fun image himage => Or.inr (hsaved image himage), hstaged⟩
  | dropped hdb hnone hsaved hwal hreplace =>
    have hleft : s.disk.read = (disk.close env).db := by
      show (s.core.db.map fun main => overlay main (s.core.wal.getD _)) = _
      rw [hdb, hnone]
      cases (disk.close env).db <;> rfl
    refine ⟨?_, fun image himage => Or.inr (hsaved image himage), hstaged⟩
    by_contra hlost
    rw [not_or] at hlost
    refine hbetween ⟨hwal, hreplace, fun h => hlost.1 (hleft.trans h), fun image himage haccepts h =>
      hlost.2 ⟨image, himage, haccepts, hleft.trans h⟩⟩

/-- **When a restore loses nothing.** -/
theorem loses_nothing_iff (sql : Sqlite β) (env : Env β) (now : ℤ) (snapshot : String)
    (disk : Disk β) : LosesNothing sql disk (start sql env now snapshot disk) ↔
      ¬ StopsBetween sql env disk (start sql env now snapshot disk).ran ∧
        ¬ DropsStaged (start sql env now snapshot disk).ran := by
  cases hpending : disk.pending with
  | none =>
    have hstart : start sql env now snapshot disk = { disk := disk } := by
      rw [start, applyPendingRestore]
      simp only [Bind.bind, Proc.bind, Proc.ask, hpending]
      rfl
    rw [hstart]
    refine ⟨fun _ => ⟨fun h => ?_, fun h => ?_⟩, fun _ => ⟨Or.inl rfl, fun _ h => Or.inl h, ?_⟩⟩
    · cases h.1
    · cases h.2.2
    · intro staged hstaged
      rw [hpending] at hstaged
      cases hstaged
  | some staged =>
    obtain ⟨hlive, hsettled⟩ :=
      (@meets_applyPendingRestore _ sql env _ _ now snapshot hpending).state
        (s := { disk := disk }) rfl
    exact ⟨fun h => ⟨not_stopsBetween hlive h, not_dropsStaged hpending hsettled h⟩,
      fun h => losesNothing_of hpending hlive hsettled h.1 h.2⟩

end Restore

/-! ### Two starts that lose something -/

/-- A file whose first page holds a number. -/
def onePage (n : ℕ) : Pages ℕ := fun p => if p = 1 then some n else none

def anyFile : Sqlite ℕ where
  magic _ := true
  check _ := .ok 56
  latest := 56

/-- A commit that is in the WAL only, and a staged backup. -/
def committed : Disk ℕ where
  db := some (onePage 1)
  wal := some (onePage 2)
  pending := some (onePage 3)

/-- Another process has the database open, and the process dies before the move. -/
def killed : Env ℕ where
  outcome name := if name = .replace then .dies false else .returns
  last := false

/-- The disk is full, and a directory is in the way of the file that is moved aside. -/
def refused : Env ℕ where
  outcome
    | .vacuum => .raises false .database "database or disk is full"
    | .moveAside => .raises false .os "Is a directory"
    | _ => .returns
  last := true

/-- **What is lost.** A start that is killed after the WAL went leaves the main file without its
last commit; a staged file that was not applied is deleted. -/
theorem not_loses_nothing : ¬ LosesNothing anyFile committed (start anyFile killed 1700000000
      "meshcore-pre-restore.db" committed) ∧
    ¬ LosesNothing anyFile committed (start anyFile refused 1700000000
      "meshcore-pre-restore.db" committed) := by
  constructor
  · intro h
    have hleft : (start anyFile killed 1700000000 "meshcore-pre-restore.db"
        committed).disk.read.map (fun image => image 1) = some (some 1) := by decide
    rcases h.live with hold | ⟨staged, hpending, _, hnew⟩
    · rw [hold] at hleft
      exact absurd hleft (by decide)
    · rw [hnew, ← Option.some.inj hpending] at hleft
      exact absurd hleft (by decide)
  · intro h
    rcases h.staged (onePage 3) rfl with happlied | hkept | ⟨hmoved, _⟩
    · exact absurd happlied (by decide)
    · have hnone : (start anyFile refused 1700000000 "meshcore-pre-restore.db"
          committed).disk.pending.isSome = false := by decide
      rw [hkept] at hnone
      cases hnone
    · exact absurd hmoved (by decide)

end RtfmEv.DbRestore
