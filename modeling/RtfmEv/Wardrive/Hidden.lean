import RtfmEv.Wardrive.DriveRuns
import RtfmEv.Wardrive.Queries

/-!
# What a driver learns of hidden drivers

Two databases that differ in hidden drivers alone answer a driver in the same way, but for
one thing: a listed drive shows the name of its radio, which is looked up by the key
alone. A radio that left its account and joined another one is listed under the name that
its new driver gave it.
-/

namespace RtfmEv.Wardrive

open RtfmEv.Lib

variable {δ ν : Type} {w w' : World δ ν} {viewer : User} {userIds driveIds : Option (List ℕ)}
  {radioKey : Option String} {untilTs since : Option ℤ}

/-! ### What every stored database is like -/

/-- Drives have ids of their own, and a row in a drive is of the drive's user. -/
structure Db.Owned (db : Db δ) : Prop where
  ids : (db.drives.map Drive.id).Nodup
  rows : ∀ row ∈ db.rows, ∀ d ∈ db.drives, d.id = row.driveId → d.userId = row.userId

/-- The viewer may see the user. -/
def World.sees (w : World δ ν) (viewer : User) (userId : ℕ) : Bool :=
  (w.visibleUserIds viewer).all (fun visible => userId ∈ visible)

/-- Two databases that differ in hidden users alone. -/
structure Agree (viewer : User) (w w' : World δ ν) : Prop where
  users : w'.users = w.users
  groups : w'.groups = w.groups
  nodes : w'.nodes = w.nodes
  drives : w'.db.drives.filter (fun d => w.sees viewer d.userId) =
    w.db.drives.filter (fun d => w.sees viewer d.userId)
  rows : w'.db.rows.filter (fun row => w.sees viewer row.userId) =
    w.db.rows.filter (fun row => w.sees viewer row.userId)

namespace Agree

variable {viewer : User} {w w' : World δ ν}

theorem visibleUserIds (h : Agree viewer w w') :
    w'.visibleUserIds viewer = w.visibleUserIds viewer := by
  unfold World.visibleUserIds
  rw [h.groups]

theorem sees (h : Agree viewer w w') (userId : ℕ) :
    w'.sees viewer userId = w.sees viewer userId := by
  unfold World.sees
  rw [h.visibleUserIds]

theorem symm (h : Agree viewer w w') : Agree viewer w' w := by
  have hsees : (fun userId => w'.sees viewer userId) = fun userId => w.sees viewer userId :=
    funext h.sees
  refine ⟨h.users.symm, h.groups.symm, h.nodes.symm, ?_, ?_⟩
  · simp only [h.sees]
    exact h.drives.symm
  · simp only [h.sees]
    exact h.rows.symm

theorem username (h : Agree viewer w w') (userId : ℕ) : w'.username userId = w.username userId := by
  unfold World.username
  rw [h.users]

theorem scopeUserIds (h : Agree viewer w w') (userId groupId : Option ℕ) :
    w'.scopeUserIds (some viewer) userId groupId = w.scopeUserIds (some viewer) userId groupId := by
  unfold World.scopeUserIds World.groupIds
  rw [h.groups, Option.bind_some, Option.bind_some, h.visibleUserIds]

end Agree

theorem filter_of_sees {α : Type} {p q : α → Bool} {xs : List α}
    (h : ∀ x ∈ xs, p x = true → q x = true) : xs.filter p = (xs.filter q).filter p := by
  rw [List.filter_filter]
  refine List.filter_congr fun x hx => ?_
  cases hp : p x with
  | false => rfl
  | true => rw [h x hx hp]; rfl

theorem scope_sees {userId groupId : Option ℕ}
    {ids : Option (List ℕ)} (h : w.scopeUserIds (some viewer) userId groupId = .ok ids) (u : ℕ)
    (hu : chosen ids (fun ids => u ∈ ids) = true) : w.sees viewer u = true := by
  unfold World.sees
  cases hvisible : w.visibleUserIds viewer with
  | none => rfl
  | some visible =>
    show decide (u ∈ visible) = true
    simp only [World.scopeUserIds, Option.bind_some, hvisible] at h
    cases hgroup : w.groupIds groupId with
    | error _ =>
      rw [hgroup] at h
      cases h
    | ok first =>
      rw [hgroup] at h
      rw [← Except.ok.inj h] at hu
      cases userId <;> cases first <;> simp [chosen] at hu ⊢ <;> tauto

/-! ### Picked drives -/

namespace Agree

variable {viewer : User} {w w' : World δ ν}

theorem mem_drives (h : Agree viewer w w') {d : Drive} (hsees : w.sees viewer d.userId = true) :
    d ∈ w'.db.drives ↔ d ∈ w.db.drives := by
  have hfilter : ∀ db : Db δ, d ∈ db.drives.filter (fun d => w.sees viewer d.userId) ↔
      d ∈ db.drives := fun db => by simp [List.mem_filter, hsees]
  rw [← hfilter w'.db, h.drives, hfilter w.db]

theorem get (h : Agree viewer w w') (howned' : w'.db.Owned) {id : ℕ} {d : Drive}
    (hget : w.db.get id = some d) (hsees : w.sees viewer d.userId = true) :
    w'.db.get id = some d := by
  obtain ⟨hmem, hid⟩ := Db.get_eq_some hget
  have hmem' := (h.mem_drives hsees).mpr hmem
  cases hget' : w'.db.get id with
  | none => exact absurd (List.find?_eq_none.mp hget' d hmem') (by simp [hid])
  | some d' =>
    obtain ⟨hd', hid'⟩ := Db.get_eq_some hget'
    rw [List.inj_on_of_nodup_map howned'.ids hd' hmem' (hid'.trans hid.symm)]

theorem visibleDrive (h : Agree viewer w w') (howned : w.db.Owned) (howned' : w'.db.Owned)
    (id : ℕ) :
    w'.visibleDrive id (some viewer) = w.visibleDrive id (some viewer) := by
  have hfound : ∀ {v v' : World δ ν}, Agree viewer v v' → v'.db.Owned → ∀ {d},
      v.visibleDrive id (some viewer) = .ok d → v'.visibleDrive id (some viewer) = .ok d := by
    intro v v' hagree howned' d hd
    unfold World.visibleDrive at hd ⊢
    cases hget : v.db.get id with
    | none =>
      rw [hget] at hd
      cases hd
    | some drive =>
      rw [hget] at hd
      dsimp only at hd
      split_ifs at hd with hsees
      rw [hagree.get howned' hget hsees, Option.bind_some, hagree.visibleUserIds]
      exact (if_pos hsees).trans hd
  have hnotFound : ∀ v : World δ ν, ∀ e, v.visibleDrive id (some viewer) = .error e →
      e = .notFound "No such drive" := by
    intro v e he
    unfold World.visibleDrive at he
    split at he
    · exact (Except.error.inj he).symm
    · split_ifs at he
      exact (Except.error.inj he).symm
  cases hd : w.visibleDrive id (some viewer) with
  | ok d => exact hfound h howned' hd
  | error e =>
    cases hd' : w'.visibleDrive id (some viewer) with
    | ok d' =>
      have hback := hfound h.symm howned hd'
      rw [hd] at hback
      cases hback
    | error e' => rw [hnotFound w e hd, hnotFound w' e' hd']

end Agree

/-- A picked drive that is found is one that the viewer sees. -/
theorem sees_of_visibleDrive {id : ℕ} {d : Drive} (h : w.visibleDrive id (some viewer) = .ok d) :
    d ∈ w.db.drives ∧ d.id = id ∧ w.sees viewer d.userId = true := by
  unfold World.visibleDrive at h
  cases hget : w.db.get id with
  | none =>
    rw [hget] at h
    cases h
  | some drive =>
    rw [hget] at h
    dsimp only at h
    split_ifs at h with hsees
    rw [← Except.ok.inj h]
    obtain ⟨hmem, hid⟩ := Db.get_eq_some hget
    exact ⟨hmem, hid, hsees⟩

/-! ### Rows -/

/-- Ids of drives that the viewer sees, when they are there. -/
def SeenDrives (w : World δ ν) (viewer : User) (ids : List ℕ) : Prop :=
  ∀ id ∈ ids, ∃ d ∈ w.db.drives, d.id = id ∧ w.sees viewer d.userId = true

/-- Drives of these ids are drives that the viewer sees. -/
def SeenIds (w : World δ ν) (viewer : User) (ids : List ℕ) : Prop :=
  ∀ d ∈ w.db.drives, d.id ∈ ids → w.sees viewer d.userId = true

/-- A choice of rows that stays within what the viewer sees. -/
def SeenRows (w : World δ ν) (viewer : User) (driveIds userIds : Option (List ℕ)) : Prop :=
  match driveIds with
  | some ids => SeenDrives w viewer ids
  | none => ∀ u, chosen userIds (fun ids => u ∈ ids) = true → w.sees viewer u = true

/-- The rows of a kind before the order and the limit. -/
def wantedRow (isObs : Bool) (driveIds userIds : Option (List ℕ)) (since untilTs : Option ℤ)
    (radioKey : Option String) (row : Row δ) : Bool :=
  row.reading.isObs = isObs &&
    match driveIds with
    | some ids => row.driveId ∈ ids
    | none => chosen userIds (fun ids => row.userId ∈ ids) &&
        chosen since (fun since => since ≤ row.reading.ts) &&
        chosen untilTs (fun untilTs => row.reading.ts ≤ untilTs) &&
        chosen radioKey (fun key => row.radioKey = key)

theorem sees_of_wantedRow (howned : w.db.Owned) {isObs : Bool}
    (hseen : SeenRows w viewer driveIds userIds) {row : Row δ} (hrow : row ∈ w.db.rows)
    (hwanted : wantedRow isObs driveIds userIds since untilTs radioKey row = true) :
    w.sees viewer row.userId = true := by
  unfold wantedRow at hwanted
  obtain ⟨_, hwanted⟩ := Bool.and_eq_true_iff.mp hwanted
  cases driveIds with
  | some ids =>
    obtain ⟨d, hd, hid, hsees⟩ := hseen row.driveId (by simpa using hwanted)
    rw [← howned.rows row hrow d hd hid]
    exact hsees
  | none =>
    simp only [Bool.and_eq_true] at hwanted
    exact hseen row.userId hwanted.1.1.1

/-- Rows of what the viewer sees are the same in both. -/
theorem Agree.rowsOfKind (h : Agree viewer w w')
    (howned : w.db.Owned) (howned' : w'.db.Owned) (isObs : Bool)
    (hseen : SeenRows w viewer driveIds userIds)
    (hseen' : SeenRows w' viewer driveIds userIds) (since untilTs : Option ℤ)
    (radioKey : Option String) (limit : ℕ) :
    w'.rowsOfKind isObs driveIds userIds since untilTs radioKey limit =
      w.rowsOfKind isObs driveIds userIds since untilTs radioKey limit := by
  have hfilter : w'.db.rows.filter (wantedRow isObs driveIds userIds since untilTs radioKey) =
      w.db.rows.filter (wantedRow isObs driveIds userIds since untilTs radioKey) := by
    rw [filter_of_sees fun row hrow hwanted => sees_of_wantedRow howned hseen hrow hwanted,
      filter_of_sees fun row hrow hwanted => sees_of_wantedRow howned' hseen' hrow hwanted]
    simp only [h.sees]
    rw [h.rows]
  have hjoin : w'.reportRow = w.reportRow := by
    funext row
    unfold World.reportRow
    rw [h.username]
  show (((w'.db.rows.filter (wantedRow isObs driveIds userIds since untilTs radioKey)).insertionSort
    newerRow).filterMap w'.reportRow).take (limit + 1) = _
  rw [hfilter, hjoin]
  rfl

/-- The rows of a report come from rows that the viewer sees. -/
theorem mem_rowsOfKind (howned : w.db.Owned) {isObs : Bool}
    (hseen : SeenRows w viewer driveIds userIds) {limit : ℕ} {r : ReportRow δ}
    (hr : r ∈ w.rowsOfKind isObs driveIds userIds since untilTs radioKey limit) :
    ∃ row ∈ w.db.rows, row.driveId = r.driveId ∧ w.sees viewer row.userId = true := by
  obtain ⟨row, hrow, hjoin⟩ := List.mem_filterMap.mp (List.mem_of_mem_take hr)
  rw [List.mem_insertionSort] at hrow
  obtain ⟨hrow, hwanted⟩ := List.mem_filter.mp hrow
  refine ⟨row, hrow, ?_, sees_of_wantedRow howned hseen hrow hwanted⟩
  obtain ⟨username, _, rfl⟩ := Option.map_eq_some_iff.mp hjoin
  rfl

/-! ### Listed drives -/

/-- The drives of a list before the order and the limit. -/
def wantedDrive (userIds : Option (List ℕ)) (since untilTs : Option ℤ) (radioKey : Option String)
    (driveIds : Option (List ℕ)) (d : Drive) : Bool :=
  chosen driveIds (fun ids => d.id ∈ ids) && chosen userIds (fun ids => d.userId ∈ ids) &&
    chosen since (fun since => since ≤ d.endTs) &&
    chosen untilTs (fun untilTs => d.startTs ≤ untilTs) &&
    chosen radioKey (fun key => d.radioKey = key)

/-- The names of the radios of the drives that the viewer sees. -/
def SameRadioNames (viewer : User) (w w' : World δ ν) : Prop :=
  ∀ d ∈ w.db.drives, w.sees viewer d.userId = true → (w.username d.userId).isSome = true →
    w'.radioName d.radioKey = w.radioName d.radioKey

namespace Agree

variable {viewer : User} {w w' : World δ ν}

theorem drives_filter (h : Agree viewer w w') {p : Drive → Bool}
    (hp : ∀ d ∈ w.db.drives, p d = true → w.sees viewer d.userId = true)
    (hp' : ∀ d ∈ w'.db.drives, p d = true → w'.sees viewer d.userId = true) :
    w'.db.drives.filter p = w.db.drives.filter p := by
  rw [filter_of_sees hp, filter_of_sees hp']
  simp only [h.sees]
  rw [h.drives]

theorem rowsOf (h : Agree viewer w w') (howned : w.db.Owned) (howned' : w'.db.Owned) {d : Drive}
    (hd : d ∈ w.db.drives) (hsees : w.sees viewer d.userId = true) :
    w'.db.rowsOf d.id = w.db.rowsOf d.id := by
  have hd' := (h.mem_drives hsees).mpr hd
  have hmine : ∀ {v : World δ ν}, v.db.Owned → d ∈ v.db.drives → v.sees viewer d.userId = true →
      ∀ row ∈ v.db.rows, decide (row.driveId = d.id) = true → v.sees viewer row.userId = true := by
    intro v hv hmem hsees row hrow hid
    rw [← hv.rows row hrow d hmem (by simpa using (of_decide_eq_true hid).symm)]
    exact hsees
  unfold Db.rowsOf
  rw [filter_of_sees (hmine howned hd hsees),
    filter_of_sees (hmine howned' hd' ((h.sees d.userId).trans hsees))]
  simp only [h.sees]
  rw [h.rows]

/-- A listed drive is the same in both, its radio's name included. -/
theorem listed (h : Agree viewer w w') (howned : w.db.Owned) (howned' : w'.db.Owned)
    (hnames : SameRadioNames viewer w w') {d : Drive} (hd : d ∈ w.db.drives)
    (hsees : w.sees viewer d.userId = true) (asked : Option User) :
    w'.listed asked d = w.listed asked d := by
  unfold World.listed
  rw [h.username, h.rowsOf howned howned' hd hsees]
  cases huser : w.username d.userId with
  | none => rfl
  | some username =>
    rw [hnames d hd hsees (by rw [huser]; rfl)]

theorem queryDrives (h : Agree viewer w w') (howned : w.db.Owned) (howned' : w'.db.Owned)
    (hnames : SameRadioNames viewer w w') {userIds : Option (List ℕ)}
    (hseen : ∀ u, chosen userIds (fun ids => u ∈ ids) = true → w.sees viewer u = true)
    (asked : Option User) (since untilTs : Option ℤ) (radioKey : Option String) (limit : ℕ) :
    w'.queryDrives asked userIds since untilTs radioKey limit none =
      w.queryDrives asked userIds since untilTs radioKey limit none := by
  have hwanted : ∀ d, wantedDrive userIds since untilTs radioKey none d = true →
      w.sees viewer d.userId = true := by
    intro d hd
    simp only [wantedDrive, Bool.and_eq_true] at hd
    exact hseen d.userId hd.1.1.1.2
  have hfilter : w'.db.drives.filter (wantedDrive userIds since untilTs radioKey none) =
      w.db.drives.filter (wantedDrive userIds since untilTs radioKey none) :=
    h.drives_filter (fun d _ => hwanted d) (fun d _ hd => (h.sees d.userId).trans (hwanted d hd))
  have hlisted : ((w.db.drives.filter (wantedDrive userIds since untilTs radioKey none)).insertionSort
      newerDrive).filterMap (w'.listed asked) =
      ((w.db.drives.filter (wantedDrive userIds since untilTs radioKey none)).insertionSort
        newerDrive).filterMap (w.listed asked) := by
    refine List.filterMap_congr fun d hd => ?_
    rw [List.mem_insertionSort] at hd
    obtain ⟨hd, hwant⟩ := List.mem_filter.mp hd
    exact h.listed howned howned' hnames hd (hwanted d hwant) asked
  unfold World.queryDrives
  show (let found := (((w'.db.drives.filter (wantedDrive userIds since untilTs radioKey
    none)).insertionSort newerDrive).filterMap (w'.listed asked)).take (limit + 1)
    (found.take limit, decide (limit < found.length))) = _
  rw [hfilter, hlisted]
  rfl

/-- The names of the drives of an export do not depend on the radios. -/
theorem driveNames (h : Agree viewer w w') {ids : List ℕ} (hseen : SeenIds w viewer ids)
    (hseen' : SeenIds w' viewer ids) (limit : ℕ) :
    (w'.queryDrives none none none none none limit (some ids)).1.map
        (fun d => (d.drive.id, d.drive.name)) =
      (w.queryDrives none none none none none limit (some ids)).1.map
        (fun d => (d.drive.id, d.drive.name)) := by
  have hwanted : ∀ (v : World δ ν), SeenIds v viewer ids → ∀ d ∈ v.db.drives,
      wantedDrive none none none none (some ids) d = true → v.sees viewer d.userId = true := by
    intro v hv d hd hwant
    simp only [wantedDrive, Bool.and_eq_true] at hwant
    exact hv d hd (by simpa [chosen] using hwant.1.1.1.1)
  have hfilter := h.drives_filter (hwanted w hseen) (hwanted w' hseen')
  have hnames : ∀ (v : World δ ν) (ds : List Drive),
      (ds.filterMap (v.listed none)).map (fun d => (d.drive.id, d.drive.name)) =
        ds.filterMap (fun d => (v.username d.userId).map (fun _ => (d.id, d.name))) := by
    intro v ds
    rw [List.map_filterMap]
    refine List.filterMap_congr fun d _ => ?_
    unfold World.listed
    rw [Option.map_map]
    rfl
  have hquery : ∀ v : World δ ν, (v.queryDrives none none none none none limit (some ids)).1.map
      (fun d => (d.drive.id, d.drive.name)) =
      (((v.db.drives.filter (wantedDrive none none none none (some ids))).insertionSort
        newerDrive).filterMap
          (fun d => (v.username d.userId).map (fun _ => (d.id, d.name)))).take
            (min limit (limit + 1)) := by
    intro v
    rw [← hnames, ← List.map_take, ← List.take_take]
    rfl
  rw [hquery, hquery, hfilter]
  simp only [h.username]

end Agree

/-! ### Reports and exports -/

theorem forM_visibleDrive {ids : List ℕ} {u : PUnit}
    (h : ids.forM (fun id => discard (w.visibleDrive id (some viewer))) = .ok u) :
    ∀ id ∈ ids, ∃ d, w.visibleDrive id (some viewer) = .ok d := by
  induction ids with
  | nil => simp
  | cons id ids ih =>
    rw [List.forM_eq_forM, List.forM_cons] at h
    cases hd : w.visibleDrive id (some viewer) with
    | error e =>
      rw [hd] at h
      cases h
    | ok d =>
      rw [hd] at h
      intro i hi
      rcases List.mem_cons.mp hi with rfl | hi
      · exact ⟨d, hd⟩
      · exact ih h i hi

theorem mem_commonWindow {rows : List (ReportRow δ) × List (ReportRow δ) × Bool} {scope : Scope}
    {r : ReportRow δ} (h : r ∈ (World.commonWindow rows scope).1 ∨
      r ∈ (World.commonWindow rows scope).2.1) : r ∈ rows.1 ∨ r ∈ rows.2.1 := by
  unfold World.commonWindow at h
  split_ifs at h
  · unfold trimToCommonWindow at h
    dsimp only at h
    split at h
    · exact h
    · exact h.imp List.mem_of_mem_filter List.mem_of_mem_filter
  · exact h

/-- What is read for a report: rows that the viewer sees. -/
structure ReadsSeen (viewer : User) (w : World δ ν)
    (read : List (ReportRow δ) × List (ReportRow δ) × Bool × Scope) : Prop where
  rows : ∀ r, r ∈ read.1 ∨ r ∈ read.2.1 →
    ∃ row ∈ w.db.rows, row.driveId = r.driveId ∧ w.sees viewer row.userId = true

theorem readsSeen_of_rows (howned : w.db.Owned) (hseen : SeenRows w viewer driveIds userIds)
    (since untilTs : Option ℤ) (radioKey : Option String) (limit : ℕ) (scope : Scope) :
    ReadsSeen viewer w (World.commonWindow
      (w.rowsForReport driveIds userIds since untilTs radioKey limit) scope) := by
  refine ⟨fun r hr => ?_⟩
  rcases mem_commonWindow hr with hr | hr
  · exact mem_rowsOfKind howned hseen (List.mem_of_mem_take hr)
  · exact mem_rowsOfKind howned hseen (List.mem_of_mem_take hr)

theorem Agree.rowsForReport (h : Agree viewer w w') (howned : w.db.Owned) (howned' : w'.db.Owned)
    (hseen : SeenRows w viewer driveIds userIds) (hseen' : SeenRows w' viewer driveIds userIds)
    (since untilTs : Option ℤ) (radioKey : Option String) (limit : ℕ) :
    w'.rowsForReport driveIds userIds since untilTs radioKey limit =
      w.rowsForReport driveIds userIds since untilTs radioKey limit := by
  unfold World.rowsForReport
  rw [h.rowsOfKind howned howned' true hseen hseen', h.rowsOfKind howned howned' false hseen hseen']

variable (tools : Rendering δ ν)

/-- **A report reads the same rows** in both, and only rows that the viewer sees. -/
theorem Agree.reportRows
    (h : Agree viewer w w') (howned : w.db.Owned) (howned' : w'.db.Owned) (now : ℤ)
    (q : ReportQuery) :
    w'.reportRows tools (some viewer) now q = w.reportRows tools (some viewer) now q ∧
      ∀ read, w.reportRows tools (some viewer) now q = .ok read → ReadsSeen viewer w read := by
  unfold World.reportRows
  dsimp only
  split_ifs with hpicked
  · have hvisible : (fun id => discard (w'.visibleDrive id (some viewer))) =
        fun id => discard (w.visibleDrive id (some viewer)) := by
      funext id
      rw [h.visibleDrive howned howned' id]
    rw [hvisible]
    cases hall : q.drive.eraseDups.forM (fun id => discard (w.visibleDrive id (some viewer))) with
    | error e => exact ⟨rfl, fun read hread => by cases hread⟩
    | ok u =>
      have hfound := forM_visibleDrive hall
      have hseen : SeenRows w viewer (some q.drive.eraseDups) none := by
        intro id hid
        obtain ⟨d, hd⟩ := hfound id hid
        obtain ⟨hmem, hd', hsees⟩ := sees_of_visibleDrive hd
        exact ⟨d, hmem, hd', hsees⟩
      have hseen' : SeenRows w' viewer (some q.drive.eraseDups) none := by
        intro id hid
        obtain ⟨d, hmem, hd, hsees⟩ := hseen id hid
        exact ⟨d, (h.mem_drives hsees).mpr hmem, hd, (h.sees _).trans hsees⟩
      have hrows := h.rowsForReport howned howned' hseen hseen' none none none reportMaxRows
      refine ⟨by rw [hrows], fun read hread => ?_⟩
      rw [← Except.ok.inj hread]
      exact readsSeen_of_rows howned hseen _ _ _ _ _
  · rw [h.scopeUserIds]
    cases hscope : w.scopeUserIds (some viewer) q.userId q.groupId with
    | error e => exact ⟨rfl, fun read hread => by cases hread⟩
    | ok userIds =>
      cases hkey : World.keyOf tools q.radioKey with
      | error e => exact ⟨rfl, fun read hread => by cases hread⟩
      | ok key =>
        have hseen : SeenRows w viewer none userIds := fun u hu => scope_sees hscope u hu
        have hseen' : SeenRows w' viewer none userIds :=
          fun u hu => (h.sees u).trans (scope_sees hscope u hu)
        have hrows := h.rowsForReport howned howned' hseen hseen'
          (some (q.since.getD (q.untilTs.getD now - defaultReportWindowS)))
          (some (q.untilTs.getD now)) key reportMaxRows
        refine ⟨?_, fun read hread => ?_⟩
        · show Except.ok (World.commonWindow (w'.rowsForReport _ _ _ _ _ _) _) = Except.ok _
          rw [hrows]
        · rw [← Except.ok.inj hread]
          exact readsSeen_of_rows howned hseen _ _ _ _ _

/-- **An export writes the same file** in both. -/
theorem Agree.makeExport
    (h : Agree viewer w w') (howned : w.db.Owned) (howned' : w'.db.Owned) (now : ℤ) (kind : String)
    (q : ReportQuery) :
    w'.makeExport tools (some viewer) now kind q = w.makeExport tools (some viewer) now kind q := by
  obtain ⟨hreport, hreads⟩ := h.reportRows tools howned howned' now q
  unfold World.makeExport World.reportNodes
  rw [hreport, h.nodes]
  split_ifs
  swap
  · rfl
  cases hread : w.reportRows tools (some viewer) now q with
  | error e => rfl
  | ok read =>
    have hrows := (hreads read hread).rows
    have hids : ∀ (v : World δ ν), v.db.Owned → (∀ r, r ∈ read.1 ∨ r ∈ read.2.1 →
        ∃ row ∈ v.db.rows, row.driveId = r.driveId ∧ v.sees viewer row.userId = true) →
        SeenIds v viewer ((read.1 ++ read.2.1).map ReportRow.driveId).eraseDups := by
      intro v hv hrows d hd hid
      rw [List.mem_eraseDups] at hid
      obtain ⟨r, hr, hid⟩ := List.mem_map.mp hid
      obtain ⟨row, hrow, hdrive, hsees⟩ := hrows r (List.mem_append.mp hr)
      rw [hv.rows row hrow d hd (hid.symm.trans hdrive.symm)]
      exact hsees
    have hrows' : ∀ r, r ∈ read.1 ∨ r ∈ read.2.1 →
        ∃ row ∈ w'.db.rows, row.driveId = r.driveId ∧ w'.sees viewer row.userId = true := by
      intro r hr
      obtain ⟨row, hrow, hid, hsees⟩ := hrows r hr
      have hmem : row ∈ w'.db.rows.filter (fun row => w.sees viewer row.userId) := by
        rw [h.rows]
        exact List.mem_filter.mpr ⟨hrow, hsees⟩
      exact ⟨row, List.mem_of_mem_filter hmem, hid, (h.sees _).trans hsees⟩
    have hnames := h.driveNames (hids w howned hrows) (hids w' howned' hrows')
      (max ((read.1 ++ read.2.1).map ReportRow.driveId).eraseDups.length 1)
    show Except.ok (tools.render kind read.1 read.2.1 _ (List.map _ _) _, _) = Except.ok _
    rw [hnames]

/-! ### Answers -/

/-- A driver is answered in the same way where the names of the radios are the same. -/
theorem Agree.answer (h : Agree viewer w w') (howned : w.db.Owned) (howned' : w'.db.Owned)
    (hnames : SameRadioNames viewer w w') (now : ℤ) (ask : Ask) :
    w'.answer tools viewer now ask = w.answer tools viewer now ask := by
  cases ask with
  | listDrives since untilTs userId groupId radioKey limit =>
    refine congrArg Answer.drives ?_
    unfold World.listDrives
    rw [h.scopeUserIds]
    cases hscope : w.scopeUserIds (some viewer) userId groupId with
    | error e => rfl
    | ok ids =>
      cases World.keyOf tools radioKey with
      | error e => rfl
      | ok key =>
        have hquery := h.queryDrives howned howned' hnames (fun u hu => scope_sees hscope u hu)
          (some viewer) since untilTs key limit
        show Except.ok (w'.queryDrives _ _ _ _ _ _ _) = Except.ok _
        rw [hquery]
  | visibleDrive id => exact congrArg Answer.drive (h.visibleDrive howned howned' id)
  | report q =>
    refine congrArg Answer.report ?_
    obtain ⟨hreport, _⟩ := h.reportRows tools howned howned' now q
    unfold World.makeReport World.reportNodes
    rw [hreport, h.nodes]
  | exportFile kind q =>
    exact congrArg Answer.exportFile (h.makeExport tools howned howned' now kind q)

/-- The list of all drives tells the names of their radios. -/
theorem sameRadioNames_of_answer (h : Agree viewer w w') {now : ℤ}
    (hanswer : w'.answer tools viewer now
        (.listDrives none none none none none w.db.drives.length) =
      w.answer tools viewer now (.listDrives none none none none none w.db.drives.length)) :
    SameRadioNames viewer w w' := by
  intro d hd hsees huser
  have hall : ∀ (v : World δ ν), v.listDrives tools (some viewer) none none none none none
      w.db.drives.length = .ok (v.queryDrives (some viewer) (v.visibleUserIds viewer) none none none
        w.db.drives.length none) := by
    intro v
    unfold World.listDrives World.scopeUserIds
    rw [Option.bind_some]
    cases v.visibleUserIds viewer <;> rfl
  have hlists := Answer.drives.inj hanswer
  rw [hall, hall, h.visibleUserIds] at hlists
  have hlists := congrArg Prod.fst (Except.ok.inj hlists)
  have hmem : ∀ (v : World δ ν) (x : ListedDrive), x ∈ (v.queryDrives (some viewer)
      (w.visibleUserIds viewer) none none none w.db.drives.length none).1 →
      v.listed (some viewer) x.drive = some x := by
    intro v x hx
    obtain ⟨e, _, he⟩ := List.mem_filterMap.mp (List.mem_of_mem_take (List.mem_of_mem_take hx))
    obtain ⟨username, husername, rfl⟩ := Option.map_eq_some_iff.mp he
    exact he
  obtain ⟨x, hx⟩ : ∃ x, w.listed (some viewer) d = some x := by
    obtain ⟨username, husername⟩ := Option.isSome_iff_exists.mp huser
    exact ⟨_, by rw [World.listed, husername]; rfl⟩
  have hin : x ∈ (w.queryDrives (some viewer) (w.visibleUserIds viewer) none none none
      w.db.drives.length none).1 := by
    have hwanted : wantedDrive (w.visibleUserIds viewer) none none none none d = true := by
      simpa [wantedDrive, chosen, World.sees] using hsees
    have hfound : x ∈ ((w.db.drives.filter
        (wantedDrive (w.visibleUserIds viewer) none none none none)).insertionSort
          newerDrive).filterMap (w.listed (some viewer)) :=
      List.mem_filterMap.mpr
        ⟨d, (List.mem_insertionSort _).mpr (List.mem_filter.mpr ⟨hd, hwanted⟩), hx⟩
    have hlen : (((w.db.drives.filter
        (wantedDrive (w.visibleUserIds viewer) none none none none)).insertionSort
          newerDrive).filterMap (w.listed (some viewer))).length ≤ w.db.drives.length := by
      refine (List.length_filterMap_le _ _).trans ?_
      rw [List.length_insertionSort]
      exact List.length_filter_le _ _
    show x ∈ ((List.filterMap (w.listed (some viewer)) _).take (w.db.drives.length + 1)).take
      w.db.drives.length
    rw [List.take_take, List.take_of_length_le (by rw [min_eq_left (Nat.le_succ _)]; exact hlen)]
    exact hfound
  have hin' := hin
  rw [← hlists] at hin'
  have hlisted' := hmem w' x hin'
  obtain ⟨username, _, rfl⟩ := Option.map_eq_some_iff.mp hx
  obtain ⟨username', _, hsame⟩ := Option.map_eq_some_iff.mp hlisted'
  exact congrArg ListedDrive.radioName hsame

/-- **What a driver learns of hidden drivers.** Two databases that differ in hidden drivers
alone answer a driver's every request in the same way if and only if the radios of the
drives that they see go by the same names in both. -/
theorem answers_agree_iff (tools : Rendering δ ν) {viewer : User} {w w' : World δ ν}
    (h : Agree viewer w w') (howned : w.db.Owned) (howned' : w'.db.Owned) (now : ℤ) :
    (∀ ask, w'.answer tools viewer now ask = w.answer tools viewer now ask) ↔
      SameRadioNames viewer w w' := by
  constructor
  · intro hall
    exact sameRadioNames_of_answer tools h (hall _)
  · intro hnames ask
    exact h.answer tools howned howned' hnames now ask

/-- A rendering that writes how many rows there are. -/
def countingRendering : Rendering Unit Unit where
  Nodes := Unit
  Report := ℕ × ℕ × ℕ × Bool
  normalizeKey key :=
    if key.length = 64 ∧ key.toUpper.all (fun c => c.isDigit || 'A' ≤ c && c ≤ 'F') then
      some key.toUpper
    else none
  nodesAround _ _ := ()
  buildReport obs tracks _ res truncated _ := (obs.length, tracks.length, res, truncated)
  render kind obs tracks _ _ _ := kind ++ toString (obs.length + tracks.length)
  filename kind _ _ := "wardrive-" ++ kind

def ann : User := { id := 1, username := "ann", visibility := .own }
def bob : User := { id := 2, username := "bob", visibility := .own }

/-- A drive of Ann's, on a radio that Bob has registered since. -/
def annsDrive : Drive :=
  { id := 1, uid := none, userId := 1, radioKey := "AA", startTs := 1000, endTs := 1300 }

/-- Ann's drive, drives of Bob's, and the name of Bob's radio. -/
def twoDrivers (bobs : List Drive) (name : String) : World Unit Unit where
  db := { drives := annsDrive :: bobs, nextDriveId := 3 }
  users := [ann, bob]
  groups := []
  radios := [{ publicKey := "AA", userId := 2, name := some name }]
  nodes := ()

def bobsDrive : Drive :=
  { id := 2, uid := none, userId := 2, radioKey := "AA", startTs := 5000, endTs := 5300 }

theorem agree_twoDrivers (bobs : List Drive) (hbobs : ∀ d ∈ bobs, d.userId = 2)
    (name name' : String) : Agree ann (twoDrivers [] name) (twoDrivers bobs name') := by
  refine ⟨rfl, rfl, rfl, ?_, rfl⟩
  have hhidden : bobs.filter (fun d => (twoDrivers [] name).sees ann d.userId) = [] := by
    refine List.filter_eq_nil_iff.mpr fun d hd => ?_
    rw [hbobs d hd]
    show ¬ decide (2 ∈ [1]) = true
    decide
  show (annsDrive :: bobs).filter _ = [annsDrive].filter _
  rw [List.filter_cons, List.filter_cons, hhidden, List.filter_nil]

/-- Ann is not told of Bob's drive. -/
theorem answers_agree_hidden :
    SameRadioNames ann (twoDrivers [] "van") (twoDrivers [bobsDrive] "van") ∧
    ∀ ask, (twoDrivers [bobsDrive] "van").answer countingRendering ann 9000 ask =
      (twoDrivers [] "van").answer countingRendering ann 9000 ask := by
  have hnames : SameRadioNames ann (twoDrivers [] "van") (twoDrivers [bobsDrive] "van") :=
    fun _ _ _ _ => rfl
  refine ⟨hnames, (answers_agree_iff countingRendering
    (agree_twoDrivers [bobsDrive] (by simp [bobsDrive]) "van" "van") ⟨by decide, by decide⟩
    ⟨by decide, by decide⟩ 9000).mpr hnames⟩

/-- **The name that Bob gave his radio.** Ann's drive is listed under it, as she drove with that
radio before. -/
theorem not_forall_answers_agree : ¬ ∀ (viewer : User) (w w' : World Unit Unit),
    Agree viewer w w' → w.db.Owned → w'.db.Owned → ∀ now ask,
      w'.answer countingRendering viewer now ask = w.answer countingRendering viewer now ask := by
  intro h
  have hsame := sameRadioNames_of_answer countingRendering (agree_twoDrivers [] (by simp) "van" "truck")
    (h ann (twoDrivers [] "van") (twoDrivers [] "truck") (agree_twoDrivers [] (by simp) "van" "truck")
      ⟨by decide, by decide⟩ ⟨by decide, by decide⟩ 9000 _)
  have hname := hsame annsDrive (by decide) (by decide) (by decide)
  exact absurd hname (by decide)

end RtfmEv.Wardrive
