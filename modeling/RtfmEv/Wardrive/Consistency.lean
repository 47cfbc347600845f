import Mathlib.Data.List.Dedup
import RtfmEv.Wardrive.Store

/-!
# Drives and rows belong together

Every row is in a drive of its user and radio, every drive spans exactly its rows, and
no uid is both live and retired, as long as the drive that others are merged into is
still there when the merge is written: a merge trusts what it read of that drive before.
Within a transaction some of it is suspended: the spans of the drives that the rows go
to, and the uids of those that are about to go.
-/

namespace RtfmEv.Wardrive

open RtfmEv.Lib

variable {δ : Type} {owner owner₀ : ℕ → ℕ × String} {db db₀ : Db δ} {retiring stale : List ℕ}
  {id userId into : ℕ} {key : String} {gap : Db.Gap δ} {f : Drive → Drive} {chosen : Row δ → Bool}

/-! ### Spans -/

namespace Db

/-- Where the rows of a drive start. -/
def starts (db : Db δ) (id : ℕ) : Set ℤ :=
  {t | ∃ row ∈ db.rows, row.driveId = id ∧ row.reading.ts = t}

/-- Where they end. -/
def ends (db : Db δ) (id : ℕ) : Set ℤ :=
  {t | ∃ row ∈ db.rows, row.driveId = id ∧ row.reading.endTs = t}

variable {id : ℕ} {db : Db δ}

theorem mem_rowsOf {row : Row δ} :
    row ∈ db.rowsOf id ↔ row ∈ db.rows ∧ row.driveId = id := by
  simp [rowsOf]

theorem mem_map_rowsOf {f : Row δ → ℤ} {t : ℤ} :
    t ∈ (db.rowsOf id).map f ↔ ∃ row ∈ db.rows, row.driveId = id ∧ f row = t := by
  simp [rowsOf, and_assoc]

theorem min?_eq_some_iff_isLeast {t : ℤ} :
    ((db.rowsOf id).map (fun row => row.reading.ts)).min? = some t ↔ IsLeast (db.starts id) t := by
  rw [List.min?_eq_some_iff]
  simp only [mem_map_rowsOf]
  exact Iff.rfl

theorem max?_eq_some_iff_isGreatest {t : ℤ} :
    ((db.rowsOf id).map (fun row => row.reading.endTs)).max? = some t ↔
      IsGreatest (db.ends id) t := by
  rw [List.max?_eq_some_iff]
  simp only [mem_map_rowsOf]
  exact Iff.rfl

theorem spanOf_eq_some_iff {startTs endTs : ℤ} :
    db.spanOf id = some (startTs, endTs) ↔
      IsLeast (db.starts id) startTs ∧ IsGreatest (db.ends id) endTs := by
  rw [← min?_eq_some_iff_isLeast, ← max?_eq_some_iff_isGreatest, spanOf]
  cases hmin : ((db.rowsOf id).map (fun row => row.reading.ts)).min? with
  | none => simp
  | some a =>
    cases hmax : ((db.rowsOf id).map (fun row => row.reading.endTs)).max? with
    | none => simp
    | some b => simp

theorem spanOf_eq_none_iff :
    db.spanOf id = none ↔ ∀ row ∈ db.rows, row.driveId ≠ id := by
  rw [spanOf]
  cases hmin : ((db.rowsOf id).map (fun row => row.reading.ts)).min? with
  | none =>
    have hnil : db.rowsOf id = [] := by simpa using hmin
    simp only [true_iff]
    intro row hrow hid
    have hmem := mem_rowsOf.mpr ⟨hrow, hid⟩
    rw [hnil] at hmem
    cases hmem
  | some a =>
    obtain ⟨row, hrow, hid, _⟩ := (min?_eq_some_iff_isLeast.mp hmin).1
    cases hmax : ((db.rowsOf id).map (fun row => row.reading.endTs)).max? with
    | none =>
      have hnil : db.rowsOf id = [] := by simpa using hmax
      have hmem := mem_rowsOf.mpr ⟨hrow, hid⟩
      rw [hnil] at hmem
      cases hmem
    | some b =>
      simp only [reduceCtorEq, false_iff]
      exact fun hall => hall row hrow hid

theorem spanOf_congr {db' : Db δ} (h : db'.rowsOf id = db.rowsOf id) :
    db'.spanOf id = db.spanOf id := by
  simp only [spanOf, h]

theorem get_eq_some {d : Drive} (h : db.get id = some d) :
    d ∈ db.drives ∧ d.id = id := by
  have hid := List.find?_some h
  exact ⟨List.mem_of_find?_eq_some h, by simpa using hid⟩

end Db

/-! ### The invariants -/

/-- The parts of a drive that no change of its span or notes concerns. -/
structure SameDrive (d e : Drive) : Prop where
  id : e.id = d.id
  uid : e.uid = d.uid
  userId : e.userId = d.userId
  radioKey : e.radioKey = d.radioKey

/-- `owner` says whose every drive is or was. The uids of the drives in `retiring` may be
retired already. -/
structure Keyed (owner : ℕ → ℕ × String) (retiring : List ℕ) (db : Db δ) : Prop where
  ids : (db.drives.map Drive.id).Nodup
  next : ∀ d ∈ db.drives, d.id < db.nextDriveId
  rowNext : ∀ row ∈ db.rows, row.driveId < db.nextDriveId
  drives : ∀ d ∈ db.drives, owner d.id = (d.userId, d.radioKey)
  rows : ∀ row ∈ db.rows, owner row.driveId = (row.userId, row.radioKey)
  uids : ∀ d ∈ db.drives, ∀ e ∈ db.drives, ∀ uid, d.uid = some uid → e.uid = some uid → d.id = e.id
  live : ∀ d ∈ db.drives, d.id ∉ retiring → ∀ t ∈ db.tombstones, d.uid ≠ some t.uid

/-- The spans of the drives in `stale` may be out of date. -/
structure Whole (stale : List ℕ) (db : Db δ) : Prop where
  linked : ∀ row ∈ db.rows, ∃ d ∈ db.drives, d.id = row.driveId
  spans : ∀ d ∈ db.drives, d.id ∉ stale → db.spanOf d.id = some (d.startTs, d.endTs)

/-! ### Changes of the drives -/

theorem Keyed.map
    (h : Keyed owner retiring db) (hf : ∀ d, SameDrive d (f d)) :
    Keyed owner retiring { db with drives := db.drives.map f } := by
  have hids : (db.drives.map f).map Drive.id = db.drives.map Drive.id := by
    rw [List.map_map]
    exact List.map_congr_left fun d _ => (hf d).id
  refine ⟨?_, fun d hd => ?_, h.rowNext, fun d hd => ?_, h.rows, fun d hd e he uid hdu heu => ?_,
    fun d hd hnot t ht => ?_⟩
  · show ((db.drives.map f).map Drive.id).Nodup
    rw [hids]
    exact h.ids
  · obtain ⟨d, hmem, rfl⟩ := List.mem_map.mp hd
    rw [(hf d).id]
    exact h.next d hmem
  · obtain ⟨d, hmem, rfl⟩ := List.mem_map.mp hd
    rw [(hf d).id, (hf d).userId, (hf d).radioKey]
    exact h.drives d hmem
  · obtain ⟨d, hd', rfl⟩ := List.mem_map.mp hd
    obtain ⟨e, he', rfl⟩ := List.mem_map.mp he
    rw [(hf d).uid] at hdu
    rw [(hf e).uid] at heu
    rw [(hf d).id, (hf e).id]
    exact h.uids d hd' e he' uid hdu heu
  · obtain ⟨d, hmem, rfl⟩ := List.mem_map.mp hd
    rw [(hf d).id] at hnot
    rw [(hf d).uid]
    exact h.live d hmem hnot t ht

theorem Keyed.filter
    (h : Keyed owner retiring db) (p : Drive → Bool) :
    Keyed owner retiring { db with drives := db.drives.filter p } := by
  have hsub : ∀ d ∈ db.drives.filter p, d ∈ db.drives := fun d hd => List.mem_of_mem_filter hd
  exact ⟨h.ids.sublist (List.filter_sublist.map _), fun d hd => h.next d (hsub d hd), h.rowNext,
    fun d hd => h.drives d (hsub d hd), h.rows,
    fun d hd e he => h.uids d (hsub d hd) e (hsub e he), fun d hd => h.live d (hsub d hd)⟩

theorem Whole.map (h : Whole stale db)
    (hf : ∀ d, SameDrive d (f d)) (hother : ∀ d, d.id ≠ id → f d = d) (hid : id ∈ stale) :
    Whole stale { db with drives := db.drives.map f } := by
  refine ⟨fun row hrow => ?_, fun d hd hnot => ?_⟩
  · obtain ⟨d, hd, hd'⟩ := h.linked row hrow
    exact ⟨f d, List.mem_map_of_mem hd, (hf d).id.trans hd'⟩
  · obtain ⟨d, hmem, rfl⟩ := List.mem_map.mp hd
    rw [(hf d).id] at hnot
    have hne : d.id ≠ id := fun heq => hnot (heq ▸ hid)
    rw [hother d hne]
    exact h.spans d hmem hnot

theorem sameDrive_span (d : Drive) (id : ℕ) (startTs endTs : ℤ) :
    SameDrive d (if d.id = id then { d with startTs := startTs, endTs := endTs } else d) := by
  split_ifs <;> exact ⟨rfl, rfl, rfl, rfl⟩

/-! ### Spans follow the rows -/

theorem Db.refreshSpan_rows (db : Db δ) (id : ℕ) : (db.refreshSpan id).rows = db.rows ∧
    (db.refreshSpan id).tombstones = db.tombstones ∧
      (db.refreshSpan id).nextDriveId = db.nextDriveId := by
  unfold Db.refreshSpan
  split <;> exact ⟨rfl, rfl, rfl⟩

theorem Keyed.refreshSpan
    (h : Keyed owner retiring db) (id : ℕ) : Keyed owner retiring (db.refreshSpan id) := by
  unfold Db.refreshSpan
  split
  · exact h.map fun d => sameDrive_span d id _ _
  · exact h.filter _

theorem Whole.refreshSpan (h : Whole (id :: stale) db) :
    Whole stale (db.refreshSpan id) := by
  unfold Db.refreshSpan
  cases hspan : db.spanOf id with
  | some span =>
    obtain ⟨startTs, endTs⟩ := span
    refine ⟨fun row hrow => ?_, fun d hd hnot => ?_⟩
    · obtain ⟨d, hd, hd'⟩ := h.linked row hrow
      exact ⟨_, List.mem_map_of_mem hd, (sameDrive_span d id _ _).id.trans hd'⟩
    · obtain ⟨d, hmem, rfl⟩ := List.mem_map.mp hd
      show db.spanOf _ = _
      split_ifs at hnot ⊢ with hid
      · show db.spanOf d.id = _
        rw [hid, hspan]
      · exact h.spans d hmem (by simpa [hid] using hnot)
  | none =>
    have hnone := Db.spanOf_eq_none_iff.mp hspan
    refine ⟨fun row hrow => ?_, fun d hd hnot => ?_⟩
    · obtain ⟨d, hd, hd'⟩ := h.linked row hrow
      refine ⟨d, List.mem_filter.mpr ⟨hd, ?_⟩, hd'⟩
      simpa [hd'] using hnone row hrow
    · obtain ⟨hd, hne⟩ := List.mem_filter.mp hd
      have hid : d.id ≠ id := by simpa using hne
      exact h.spans d hd (by simpa [hid] using hnot)

theorem Whole.mono {stale' : List ℕ} (h : Whole stale db)
    (hsub : ∀ id ∈ stale, id ∈ stale' ∨ ∀ d ∈ db.drives, d.id ≠ id) : Whole stale' db :=
  ⟨h.linked, fun d hd hnot => h.spans d hd fun hmem =>
    (hsub d.id hmem).elim hnot fun hgone => hgone d hd rfl⟩

theorem Whole.foldl_refreshSpan (ids : List ℕ) (h : Whole ids db) :
    Whole [] (ids.foldl Db.refreshSpan db) := by
  induction ids generalizing db with
  | nil => exact h
  | cons id ids ih => exact ih h.refreshSpan

theorem Keyed.foldl_refreshSpan
    (h : Keyed owner retiring db) (ids : List ℕ) :
    Keyed owner retiring (ids.foldl Db.refreshSpan db) := by
  induction ids generalizing db with
  | nil => exact h
  | cons id ids ih => exact ih (h.refreshSpan id)

theorem Db.foldl_refreshSpan_rows (db : Db δ) (ids : List ℕ) :
    (ids.foldl Db.refreshSpan db).rows = db.rows ∧
      (ids.foldl Db.refreshSpan db).tombstones = db.tombstones ∧
      (ids.foldl Db.refreshSpan db).nextDriveId = db.nextDriveId := by
  induction ids generalizing db with
  | nil => exact ⟨rfl, rfl, rfl⟩
  | cons id ids ih =>
    obtain ⟨hrows, htombs, hnext⟩ := ih (db.refreshSpan id)
    obtain ⟨hrows', htombs', hnext'⟩ := db.refreshSpan_rows id
    exact ⟨hrows.trans hrows', htombs.trans htombs', hnext.trans hnext'⟩

theorem Whole.refreshSpans {ids : List ℕ} (h : Whole ids db) :
    Whole [] (db.refreshSpans ids) := by
  refine Whole.foldl_refreshSpan _ (h.mono fun id hid => Or.inl ?_)
  rw [List.mem_insertionSort, List.mem_dedup]
  exact hid

/-! ### Uploads -/

/-- Whose the next drive will be. -/
def ownerWith (owner : ℕ → ℕ × String) (db : Db δ) (userId : ℕ) (key : String) : ℕ → ℕ × String :=
  Function.update owner db.nextDriveId (userId, key)

theorem ownerWith_of_lt
    (h : id < db.nextDriveId) : ownerWith owner db userId key id = owner id :=
  Function.update_of_ne h.ne ..

theorem Keyed.createDrive
    (h : Keyed owner retiring db) (userId : ℕ) (key : String) {uid : Option Uid}
    (hfree : ∀ u, uid = some u → (∀ d ∈ db.drives, d.uid ≠ some u) ∧ ∀ t ∈ db.tombstones, t.uid ≠ u)
    (startTs endTs : ℤ) : Keyed (ownerWith owner db userId key) retiring
      (db.createDrive userId key uid startTs endTs) := by
  have hmem : ∀ {d}, d ∈ (db.createDrive userId key uid startTs endTs).drives → d ∈ db.drives ∨
      (d.id = db.nextDriveId ∧ d.uid = uid ∧ d.userId = userId ∧ d.radioKey = key) := by
    intro d hd
    rcases List.mem_append.mp hd with hd | hd
    · exact Or.inl hd
    · rw [List.mem_singleton.mp hd]
      exact Or.inr ⟨rfl, rfl, rfl, rfl⟩
  refine ⟨?_, fun d hd => ?_, fun row hrow => Nat.lt_succ_of_lt (h.rowNext row hrow), fun d hd => ?_,
    fun row hrow => ?_, fun d hd e he u hdu heu => ?_, fun d hd hnot t ht => ?_⟩
  · show ((db.drives ++ _).map Drive.id).Nodup
    rw [List.map_append, List.nodup_append]
    refine ⟨h.ids, by simp, fun id hid id' hid' => ?_⟩
    obtain ⟨d, hd, rfl⟩ := List.mem_map.mp hid
    rw [show id' = db.nextDriveId by simpa using hid']
    exact (h.next d hd).ne
  · rcases hmem hd with hd | ⟨hid, _⟩
    · exact Nat.lt_succ_of_lt (h.next d hd)
    · rw [hid]
      exact Nat.lt_succ_self _
  · rcases hmem hd with hd | ⟨hid, _, huser, hkey⟩
    · rw [ownerWith_of_lt (h.next d hd)]
      exact h.drives d hd
    · rw [hid, huser, hkey]
      exact Function.update_self ..
  · rw [ownerWith_of_lt (h.rowNext row hrow)]
    exact h.rows row hrow
  · rcases hmem hd with hd | ⟨hid, hduid, _⟩ <;> rcases hmem he with he | ⟨hid', heuid, _⟩
    · exact h.uids d hd e he u hdu heu
    · exact absurd hdu ((hfree u (heuid.symm.trans heu)).1 d hd)
    · exact absurd heu ((hfree u (hduid.symm.trans hdu)).1 e he)
    · rw [hid, hid']
  · rcases hmem hd with hd | ⟨_, hduid, _⟩
    · exact h.live d hd hnot t ht
    · intro hu
      exact (hfree t.uid (hduid.symm.trans hu)).2 t ht rfl

theorem Whole.createDrive (h : Whole stale db) (userId : ℕ)
    (key : String) (uid : Option Uid) (startTs endTs : ℤ) :
    Whole (db.nextDriveId :: stale) (db.createDrive userId key uid startTs endTs) := by
  refine ⟨fun row hrow => ?_, fun d hd hnot => ?_⟩
  · obtain ⟨d, hd, hd'⟩ := h.linked row hrow
    exact ⟨d, List.mem_append_left _ hd, hd'⟩
  · rcases List.mem_append.mp hd with hd | hd
    · exact h.spans d hd fun hmem => hnot (List.mem_cons_of_mem _ hmem)
    · rw [List.mem_singleton.mp hd] at hnot
      exact absurd List.mem_cons_self hnot

/-- A drive that rows of a user and a radio may go to. -/
def Target (owner : ℕ → ℕ × String) (userId : ℕ) (key : String) (db : Db δ) (id : ℕ) : Prop :=
  (∃ d ∈ db.drives, d.id = id) ∧ owner id = (userId, key)

theorem Keyed.insert
    (h : Keyed owner retiring db)
    (hid : Target owner userId key db id) (reading : Reading δ) :
    Keyed owner retiring (db.insert userId key id reading) := by
  obtain ⟨⟨d, hd, rfl⟩, howner⟩ := hid
  unfold Db.insert
  split_ifs
  · exact h
  · refine ⟨h.ids, h.next, fun row hrow => ?_, h.drives, fun row hrow => ?_, h.uids, h.live⟩
    · rcases List.mem_append.mp hrow with hrow | hrow
      · exact h.rowNext row hrow
      · rw [List.mem_singleton.mp hrow]
        exact h.next d hd
    · rcases List.mem_append.mp hrow with hrow | hrow
      · exact h.rows row hrow
      · rw [List.mem_singleton.mp hrow]
        exact howner

theorem Whole.insert (h : Whole stale db) (userId : ℕ) (key : String)
    (hid : ∃ d ∈ db.drives, d.id = id) (hstale : id ∈ stale) (reading : Reading δ) :
    Whole stale (db.insert userId key id reading) := by
  unfold Db.insert
  split_ifs
  · exact h
  · refine ⟨fun row hrow => ?_, fun d hd hnot => ?_⟩
    · rcases List.mem_append.mp hrow with hrow | hrow
      · exact h.linked row hrow
      · rw [List.mem_singleton.mp hrow]
        exact hid
    · have hne : id ≠ d.id := fun heq => hnot (heq ▸ hstale)
      refine (Db.spanOf_congr ?_).trans (h.spans d hd hnot)
      simp [Db.rowsOf, List.filter_append, hne]

theorem Db.insert_drives (db : Db δ) (userId : ℕ) (key : String) (id : ℕ) (reading : Reading δ) :
    (db.insert userId key id reading).drives = db.drives ∧
      (db.insert userId key id reading).tombstones = db.tombstones ∧
      (db.insert userId key id reading).nextDriveId = db.nextDriveId := by
  unfold Db.insert
  split_ifs <;> exact ⟨rfl, rfl, rfl⟩

/-- The rows of a group go to its drive. -/
theorem insertAll_keeps (stale : List ℕ) (readings : List (Reading δ)) (h : Keyed owner retiring db)
    (hid : Target owner userId key db id) :
    Keyed owner retiring (db.insertAll userId key id readings) ∧
      (db.insertAll userId key id readings).drives = db.drives ∧
      (db.insertAll userId key id readings).tombstones = db.tombstones ∧
      (db.insertAll userId key id readings).nextDriveId = db.nextDriveId ∧
      (Whole stale db → id ∈ stale → Whole stale (db.insertAll userId key id readings)) := by
  unfold Db.insertAll
  generalize readings.filter Reading.isObs ++ readings.filter (fun r => !r.isObs) = rows
  induction rows generalizing db with
  | nil => exact ⟨h, rfl, rfl, rfl, fun hwhole _ => hwhole⟩
  | cons reading rows ih =>
    obtain ⟨hdrives, htombs, hnext⟩ := db.insert_drives userId key id reading
    have hid' : Target owner userId key (db.insert userId key id reading) id := by
      unfold Target
      rw [hdrives]
      exact hid
    obtain ⟨hkeyed, hdrives', htombs', hnext', hwhole⟩ := ih (h.insert hid reading) hid'
    exact ⟨hkeyed, hdrives'.trans hdrives, htombs'.trans htombs, hnext'.trans hnext,
      fun hw hstale => hwhole (hw.insert userId key hid.1 hstale reading) hstale⟩

/-- The rows of all groups go to their drives. -/
theorem storeGroups_keeps (groups : Db.Groups δ) (h : Keyed owner retiring db)
    (hgroups : ∀ id ∈ groups.map Prod.fst, Target owner userId key db id) :
    Keyed owner retiring (db.storeGroups userId key groups) ∧
      (db.storeGroups userId key groups).tombstones = db.tombstones ∧
      (db.storeGroups userId key groups).nextDriveId = db.nextDriveId ∧
      (Whole (groups.map Prod.fst) db → Whole [] (db.storeGroups userId key groups)) := by
  have hfold : ∀ (gs : Db.Groups δ) (db : Db δ), Keyed owner retiring db →
      (∀ id ∈ gs.map Prod.fst, Target owner userId key db id) →
      (∀ id ∈ gs.map Prod.fst, id ∈ groups.map Prod.fst) →
      let stored := gs.foldl (fun db group => db.insertAll userId key group.1 group.2) db
      Keyed owner retiring stored ∧ stored.tombstones = db.tombstones ∧
        stored.nextDriveId = db.nextDriveId ∧
        (Whole (groups.map Prod.fst) db → Whole (groups.map Prod.fst) stored) := by
    intro gs
    induction gs with
    | nil => exact fun db h _ _ => ⟨h, rfl, rfl, id⟩
    | cons group gs ih =>
      intro db h hids hsub
      obtain ⟨hkeyed, hdrives, htombs, hnext, hwhole⟩ := insertAll_keeps
        (groups.map Prod.fst) group.2 h (hids group.1 (by simp))
      have hids' : ∀ id ∈ gs.map Prod.fst,
          Target owner userId key (db.insertAll userId key group.1 group.2) id := by
        intro id hid
        unfold Target
        rw [hdrives]
        exact hids id (by simp [List.mem_map.mp hid])
      obtain ⟨hkeyed', htombs', hnext', hwhole'⟩ :=
        ih _ hkeyed hids' fun id hid => hsub id (by simp [List.mem_map.mp hid])
      exact ⟨hkeyed', htombs'.trans htombs, hnext'.trans hnext,
        fun hw => hwhole' (hwhole hw (hsub group.1 (by simp)))⟩
  obtain ⟨hkeyed, htombs, hnext, hwhole⟩ := hfold groups db h hgroups fun _ hid => hid
  obtain ⟨_, htombs', hnext'⟩ := Db.foldl_refreshSpan_rows
    (groups.foldl (fun db group => db.insertAll userId key group.1 group.2) db)
    ((groups.map Prod.fst).dedup.insertionSort (· ≤ ·))
  exact ⟨hkeyed.foldl_refreshSpan _, htombs'.trans htombs, hnext'.trans hnext,
    fun hw => (hwhole hw).refreshSpans⟩

/-- The drive of the gap rule is one of the user and the radio. -/
theorem Db.driveForGapRow_spec {ts : ℤ}
    (h : db.driveForGapRow userId key ts = some id) :
    ∃ d ∈ db.drives, d.id = id ∧ d.userId = userId ∧ d.radioKey = key := by
  obtain ⟨d, hd, rfl⟩ := Option.map_eq_some_iff.mp h
  have hmem := List.mem_of_mem_head? hd
  rw [List.mem_insertionSort, List.mem_filter] at hmem
  obtain ⟨hmem, hcond⟩ := hmem
  simp only [Bool.and_eq_true, decide_eq_true_eq] at hcond
  exact ⟨d, hmem, rfl, hcond.1.1.1, hcond.1.1.2⟩

theorem mem_addTo {groups : Db.Groups δ} {i : ℕ} {reading : Reading δ} :
    i ∈ (Db.addTo groups id reading).map Prod.fst ↔ i = id ∨ i ∈ groups.map Prod.fst := by
  induction groups with
  | nil => simp [Db.addTo]
  | cons group groups ih =>
    unfold Db.addTo
    split_ifs with h
    · simp only [List.map_cons, List.mem_cons]
      rw [← h]
      tauto
    · simp only [List.map_cons, List.mem_cons, ih]
      tauto

/-- What holds while the rows of an upload are assigned. -/
structure Assigned (owner₀ : ℕ → ℕ × String) (db₀ : Db δ) (userId : ℕ) (key : String)
    (gap : Db.Gap δ) (owner : ℕ → ℕ × String) : Prop where
  keyed : Keyed owner [] gap.db
  owners : ∀ id < db₀.nextDriveId, owner id = owner₀ id
  next : db₀.nextDriveId ≤ gap.db.nextDriveId
  rows : gap.db.rows = db₀.rows
  tombstones : gap.db.tombstones = db₀.tombstones
  groups : ∀ id ∈ gap.groups.map Prod.fst, Target owner userId key gap.db id
  whole : Whole [] db₀ → Whole (gap.groups.map Prod.fst) gap.db

theorem Assigned.assign (h : Assigned owner₀ db₀ userId key gap owner)
    (tomb : Option Tombstone) (reading : Reading δ) :
    ∃ owner', Assigned owner₀ db₀ userId key (Db.assign userId key tomb gap reading) owner' := by
  unfold Db.assign
  split_ifs
  · exact ⟨owner, h.keyed, h.owners, h.next, h.rows, h.tombstones, h.groups, h.whole⟩
  cases hfound : gap.db.driveForGapRow userId key reading.ts with
  | some found =>
    obtain ⟨d, hd, hid, huser, hkey⟩ := Db.driveForGapRow_spec hfound
    have hsame : ∀ d : Drive, SameDrive d (if d.id = found then { d with
        startTs := min d.startTs reading.ts, endTs := max d.endTs reading.ts } else d) := by
      intro d
      split_ifs <;> exact ⟨rfl, rfl, rfl, rfl⟩
    have hkeep : ∀ id, (∃ d ∈ gap.db.drives, d.id = id) →
        ∃ d ∈ (gap.db.widen found reading.ts).drives, d.id = id := by
      rintro id ⟨d, hd, hid⟩
      exact ⟨_, List.mem_map_of_mem hd, (hsame d).id.trans hid⟩
    refine ⟨owner, h.keyed.map hsame, h.owners, h.next, h.rows, h.tombstones, fun id hmem => ?_,
      fun hw => ?_⟩
    · rcases mem_addTo.mp hmem with rfl | hmem
      · refine ⟨hkeep _ ⟨d, hd, hid⟩, ?_⟩
        rw [← hid, h.keyed.drives d hd, huser, hkey]
      · exact ⟨hkeep id (h.groups id hmem).1, (h.groups id hmem).2⟩
    · have hstale : Whole ((Db.addTo gap.groups found reading).map Prod.fst) gap.db :=
        (h.whole hw).mono fun id hmem => Or.inl (mem_addTo.mpr (Or.inr hmem))
      exact hstale.map hsame (fun d hne => if_neg hne) (mem_addTo.mpr (Or.inl rfl))
  | none =>
    refine ⟨ownerWith owner gap.db userId key, h.keyed.createDrive userId key (by simp) _ _,
      fun id hid => ?_, Nat.le_succ_of_le h.next, h.rows, h.tombstones, fun id hmem => ?_,
      fun hw => ?_⟩
    · rw [ownerWith_of_lt (hid.trans_le h.next)]
      exact h.owners id hid
    · rcases mem_addTo.mp hmem with rfl | hmem
      · exact ⟨⟨_, List.mem_concat_self, rfl⟩,
          Function.update_self ..⟩
      · obtain ⟨⟨d, hd, rfl⟩, howner⟩ := h.groups id hmem
        refine ⟨⟨d, List.mem_append_left _ hd, rfl⟩, ?_⟩
        rw [ownerWith_of_lt (h.keyed.next d hd)]
        exact howner
    · refine ((h.whole hw).createDrive userId key none _ _).mono fun id hmem => Or.inl ?_
      rcases List.mem_cons.mp hmem with rfl | hmem
      · exact mem_addTo.mpr (Or.inl rfl)
      · exact mem_addTo.mpr (Or.inr hmem)

theorem Assigned.foldl
    (tomb : Option Tombstone) (rows : List (Reading δ))
    (h : Assigned owner₀ db₀ userId key gap owner) :
    ∃ owner', Assigned owner₀ db₀ userId key (rows.foldl (Db.assign userId key tomb) gap) owner' := by
  induction rows generalizing gap owner with
  | nil => exact ⟨owner, h⟩
  | cons reading rows ih =>
    obtain ⟨owner', h'⟩ := h.assign tomb reading
    exact ih h'

/-- What an upload keeps. -/
structure Stored (owner₀ : ℕ → ℕ × String) (db₀ db : Db δ) (owner : ℕ → ℕ × String) : Prop where
  keyed : Keyed owner [] db
  owners : ∀ id < db₀.nextDriveId, owner id = owner₀ id
  next : db₀.nextDriveId ≤ db.nextDriveId
  tombstones : db.tombstones = db₀.tombstones
  whole : Whole [] db₀ → Whole [] db

theorem Assigned.stored (h : Assigned owner₀ db₀ userId key gap owner) :
    Stored owner₀ db₀ (gap.db.storeGroups userId key gap.groups) owner := by
  obtain ⟨hkeyed, htombs, hnext, hwhole⟩ := storeGroups_keeps gap.groups h.keyed h.groups
  exact ⟨hkeyed, h.owners, h.next.trans hnext.ge, htombs.trans h.tombstones,
    fun hw => hwhole (h.whole hw)⟩

/-- The drive of a live uid. -/
theorem Keyed.driveForUid (h : Keyed owner [] db) {uid : Uid}
    (htomb : db.tombstones.find? (fun t => t.uid = uid) = none)
    (howner : (db.ownerOf uid).all (fun owner => owner = (userId, key)) = true) (times : List ℤ)
    (now : ℤ) (rows : List (Reading δ)) :
    ∃ owner', Assigned owner db userId key
      { db := (db.driveForUid userId key uid times now).1
        groups := [((db.driveForUid userId key uid times now).2, rows)] } owner' := by
  unfold Db.driveForUid
  have htombs : ∀ t ∈ db.tombstones, t.uid ≠ uid := by
    simpa using List.find?_eq_none.mp htomb
  rw [Db.ownerOf, htomb] at howner
  cases hfind : db.drives.find? (fun d => d.uid = some uid) with
  | some drive =>
    have hmem := List.mem_of_find?_eq_some hfind
    rw [hfind] at howner
    have hsame : (drive.userId, drive.radioKey) = (userId, key) := by simpa using howner
    refine ⟨owner, h, fun _ _ => rfl, le_rfl, rfl, rfl, fun id hid => ?_, fun hw => ?_⟩
    · rw [show id = drive.id by simpa using hid]
      exact ⟨⟨drive, hmem, rfl⟩, (h.drives drive hmem).trans hsame⟩
    · exact hw.mono fun id hid => by cases hid
  | none =>
    have hnone : ∀ d ∈ db.drives, d.uid ≠ some uid := by
      simpa using List.find?_eq_none.mp hfind
    refine ⟨ownerWith owner db userId key, h.createDrive userId key (fun u hu => ?_) _ _,
      fun id hid => ownerWith_of_lt hid, Nat.le_succ _, rfl, rfl, fun id hid => ?_, fun hw => ?_⟩
    · rw [← Option.some.inj hu]
      exact ⟨hnone, htombs⟩
    · rw [show id = db.nextDriveId by simpa using hid]
      exact ⟨⟨_, List.mem_concat_self, rfl⟩,
        Function.update_self ..⟩
    · exact hw.createDrive userId key (some uid) _ _

/-- **An upload** keeps drives and rows together. -/
theorem Keyed.storeUpload (h : Keyed owner [] db) {uid : Option Uid} {obs tracks : List (Reading δ)}
    {now : ℤ}
    {stored : Db δ × Db.UploadResult}
    (hstore : db.storeUpload userId key uid obs tracks now = .ok stored) :
    ∃ owner', Stored owner db stored.1 owner' := by
  have hgap : ∀ tomb, ∃ owner', Stored owner db ((((Db.inOrder obs tracks).foldl
      (Db.assign userId key tomb) { db := db }).db).storeGroups userId key
        ((Db.inOrder obs tracks).foldl (Db.assign userId key tomb) { db := db }).groups) owner' := by
    intro tomb
    have hstart : Assigned owner db userId key { db := db } owner :=
      ⟨h, fun _ _ => rfl, le_rfl, rfl, rfl, fun _ hid => (by cases hid), id⟩
    obtain ⟨owner', hassigned⟩ := hstart.foldl tomb (Db.inOrder obs tracks)
    exact ⟨owner', hassigned.stored⟩
  cases uid with
  | none =>
    rw [← Except.ok.inj hstore]
    exact hgap none
  | some uid =>
    cases htomb : db.tombstones.find? (fun t => t.uid = uid) with
    | none =>
      simp only [Db.storeUpload, Option.bind_some, htomb] at hstore
      split_ifs at hstore with howner
      rw [← Except.ok.inj hstore]
      obtain ⟨owner', hassigned⟩ := h.driveForUid htomb howner
        ((Db.inOrder obs tracks).map Reading.ts) now (obs ++ tracks)
      exact ⟨owner', hassigned.stored⟩
    | some tomb =>
      simp only [Db.storeUpload, Option.bind_some, htomb] at hstore
      split_ifs at hstore
      rw [← Except.ok.inj hstore]
      exact hgap (some tomb)

/-! ### Deletes, merges and splits -/

theorem Keyed.mono {retiring' : List ℕ}
    (h : Keyed owner retiring db) (hsub : ∀ id ∈ retiring, id ∈ retiring') :
    Keyed owner retiring' db :=
  ⟨h.ids, h.next, h.rowNext, h.drives, h.rows, h.uids,
    fun d hd hnot => h.live d hd fun hmem => hnot (hsub _ hmem)⟩

theorem Keyed.settle
    (h : Keyed owner retiring db) (hgone : ∀ d ∈ db.drives, d.id ∈ retiring → d.uid = none) :
    Keyed owner [] db := by
  refine ⟨h.ids, h.next, h.rowNext, h.drives, h.rows, h.uids, fun d hd _ t ht => ?_⟩
  by_cases hmem : d.id ∈ retiring
  · rw [hgone d hd hmem]
    simp
  · exact h.live d hd hmem t ht

theorem Db.retireUid_drives (db : Db δ) (d : Drive) (kind : TombKind) :
    (db.retireUid d kind).drives = db.drives ∧ (db.retireUid d kind).rows = db.rows ∧
      (db.retireUid d kind).nextDriveId = db.nextDriveId := by
  unfold Db.retireUid
  split <;> exact ⟨rfl, rfl, rfl⟩

theorem Keyed.retireUid
    (h : Keyed owner retiring db) {d : Drive} (hd : d ∈ db.drives) (hid : d.id ∈ retiring)
    (kind : TombKind) : Keyed owner retiring (db.retireUid d kind) := by
  unfold Db.retireUid
  cases huid : d.uid with
  | none => exact h
  | some uid =>
    refine ⟨h.ids, h.next, h.rowNext, h.drives, h.rows, h.uids, fun e he hnot t ht => ?_⟩
    rcases List.mem_append.mp ht with ht | ht
    · exact h.live e he hnot t (List.mem_of_mem_filter ht)
    · rw [List.mem_singleton.mp ht]
      intro heuid
      exact hnot (h.uids d hd e he uid huid heuid ▸ hid)

theorem Keyed.filterRows
    (h : Keyed owner retiring db) (p : Row δ → Bool) :
    Keyed owner retiring { db with rows := db.rows.filter p } :=
  ⟨h.ids, h.next, fun row hrow => h.rowNext row (List.mem_of_mem_filter hrow), h.drives,
    fun row hrow => h.rows row (List.mem_of_mem_filter hrow), h.uids, h.live⟩

theorem Keyed.deleteWithRows (h : Keyed owner [] db) (id : ℕ) :
    Keyed owner [] (db.deleteWithRows id) := by
  have hremoved : ∀ db' : Db δ, Keyed owner [id] db' → Keyed owner []
      (({ db' with rows := db'.rows.filter (fun row => row.driveId ≠ id) } : Db δ).removeDrive
        id) := by
    intro db' hretired
    refine ((hretired.filterRows _).filter _).settle fun d hd hmem => ?_
    have hne := (List.mem_filter.mp hd).2
    exact absurd (List.mem_singleton.mp hmem) (by simpa using hne)
  unfold Db.deleteWithRows
  cases hget : db.get id with
  | none => exact hremoved db (h.mono (by simp))
  | some drive =>
    obtain ⟨hmem, hid⟩ := Db.get_eq_some hget
    exact hremoved _ ((h.mono (by simp)).retireUid hmem (by simp [hid]) _)

theorem Db.deleteWithRows_rows (db : Db δ) (id : ℕ) :
    (db.deleteWithRows id).drives = db.drives.filter (fun d => d.id ≠ id) ∧
      (db.deleteWithRows id).rows = db.rows.filter (fun row => row.driveId ≠ id) ∧
      (db.deleteWithRows id).nextDriveId = db.nextDriveId := by
  unfold Db.deleteWithRows
  cases db.get id with
  | none => exact ⟨rfl, rfl, rfl⟩
  | some drive =>
    obtain ⟨hdrives, hrows, hnext⟩ := db.retireUid_drives drive (.deleted drive.endTs)
    refine ⟨?_, ?_, hnext⟩
    · show (db.retireUid drive _).drives.filter _ = _
      rw [hdrives]
    · show (db.retireUid drive _).rows.filter _ = _
      rw [hrows]

theorem Whole.deleteWithRows (h : Whole [] db) (id : ℕ) :
    Whole [] (db.deleteWithRows id) := by
  obtain ⟨hdrives, hrows, _⟩ := db.deleteWithRows_rows id
  refine ⟨fun row hrow => ?_, fun d hd hnot => ?_⟩
  · rw [hrows] at hrow
    obtain ⟨hrow, hne⟩ := List.mem_filter.mp hrow
    obtain ⟨d, hd, hd'⟩ := h.linked row hrow
    refine ⟨d, ?_, hd'⟩
    rw [hdrives]
    exact List.mem_filter.mpr ⟨hd, by rw [hd']; exact hne⟩
  · rw [hdrives] at hd
    obtain ⟨hd, hne⟩ := List.mem_filter.mp hd
    have hid : d.id ≠ id := by simpa using hne
    refine (Db.spanOf_congr ?_).trans (h.spans d hd hnot)
    unfold Db.rowsOf
    rw [hrows, List.filter_filter]
    refine List.filter_congr fun row _ => ?_
    by_cases hrow : row.driveId = d.id
    · simp [hrow, hid]
    · simp [hrow]

theorem Keyed.moveRows
    (h : Keyed owner retiring db) (hinto : into < db.nextDriveId)
    (howner : ∀ row ∈ db.rows, chosen row = true → owner into = owner row.driveId) :
    Keyed owner retiring (db.moveRows into chosen) := by
  refine ⟨h.ids, h.next, fun row hrow => ?_, h.drives, fun row hrow => ?_, h.uids, h.live⟩
  · obtain ⟨row, hmem, rfl⟩ := List.mem_map.mp hrow
    split_ifs
    · exact hinto
    · exact h.rowNext row hmem
  · obtain ⟨row, hmem, rfl⟩ := List.mem_map.mp hrow
    split_ifs with hchosen
    · exact (howner row hmem hchosen).trans (h.rows row hmem)
    · exact h.rows row hmem

/-- The rows that are moved come from drives whose spans go out of date. -/
theorem Whole.moveRows (h : Whole stale db) (hinto : into ∈ stale)
    (hexists : ∀ row ∈ db.rows, chosen row = true → ∃ d ∈ db.drives, d.id = into)
    (hfrom : ∀ row ∈ db.rows, chosen row = true → row.driveId ∈ stale) :
    Whole stale (db.moveRows into chosen) := by
  refine ⟨fun row hrow => ?_, fun d hd hnot => ?_⟩
  · obtain ⟨row, hmem, rfl⟩ := List.mem_map.mp hrow
    split_ifs with hchosen
    · exact hexists row hmem hchosen
    · exact h.linked row hmem
  · have hstarts : (db.moveRows into chosen).rowsOf d.id = db.rowsOf d.id := by
      unfold Db.rowsOf Db.moveRows
      rw [List.filter_map]
      have hsame : db.rows.filter ((fun row => decide (row.driveId = d.id)) ∘ fun row =>
          if chosen row then { row with driveId := into } else row) =
          db.rows.filter (fun row => row.driveId = d.id) := by
        refine List.filter_congr fun row hmem => ?_
        by_cases hchosen : chosen row = true
        · have hne : into ≠ d.id := fun heq => hnot (heq ▸ hinto)
          have hne' : row.driveId ≠ d.id := fun heq => hnot (heq ▸ hfrom row hmem hchosen)
          simp [hchosen, hne, hne']
        · simp [hchosen]
      rw [hsame]
      refine (List.map_congr_left fun row hmem => ?_).trans (List.map_id _)
      obtain ⟨hmem, hid⟩ := List.mem_filter.mp hmem
      have hid : row.driveId = d.id := by simpa using hid
      refine if_neg fun hchosen => hnot ?_
      rw [← hid]
      exact hfrom row hmem hchosen
    exact (Db.spanOf_congr hstarts).trans (h.spans d hd hnot)

/-- Retiring the others' uids concerns nothing else. -/
theorem Db.foldl_retireOther_frame (db : Db δ) (others : List ℕ) :
    (others.foldl Db.retireOther db).drives = db.drives ∧
      (others.foldl Db.retireOther db).rows = db.rows ∧
      (others.foldl Db.retireOther db).nextDriveId = db.nextDriveId := by
  induction others generalizing db with
  | nil => exact ⟨rfl, rfl, rfl⟩
  | cons id others ih =>
    have hstep : (db.retireOther id).drives = db.drives ∧ (db.retireOther id).rows = db.rows ∧
        (db.retireOther id).nextDriveId = db.nextDriveId := by
      unfold Db.retireOther
      cases db.get id with
      | none => exact ⟨rfl, rfl, rfl⟩
      | some drive => exact db.retireUid_drives drive .retired
    obtain ⟨hdrives, hrows, hnext⟩ := hstep
    obtain ⟨hdrives', hrows', hnext'⟩ := ih (db.retireOther id)
    exact ⟨hdrives'.trans hdrives, hrows'.trans hrows, hnext'.trans hnext⟩

theorem Keyed.retireOthers
    (h : Keyed owner retiring db) (others : List ℕ) (hsub : ∀ id ∈ others, id ∈ retiring) :
    Keyed owner retiring (others.foldl Db.retireOther db) := by
  induction others generalizing db with
  | nil => exact h
  | cons id others ih =>
    refine ih ?_ fun id hid => hsub id (List.mem_cons_of_mem _ hid)
    unfold Db.retireOther
    cases hget : db.get id with
    | none => exact h
    | some drive =>
      obtain ⟨hmem, hid⟩ := Db.get_eq_some hget
      exact h.retireUid hmem (hid ▸ hsub id List.mem_cons_self) _

theorem sameDrive_notes (d : Drive) (id : ℕ) (notes : Option String) :
    SameDrive d (if d.id = id then { d with notes := notes } else d) := by
  split_ifs <;> exact ⟨rfl, rfl, rfl, rfl⟩

/-- **A merge** keeps the keys whatever became of the drive that it merges into. -/
theorem Keyed.merge (h : Keyed owner [] db)
    {others : List ℕ} (hinto : into < db.nextDriveId)
    (howner : ∀ id ∈ others, owner id = owner into)
    (notes : Option String) : Keyed owner [] (db.merge into others notes) := by
  unfold Db.merge
  have hsuspended : Keyed owner others db := h.mono (by simp)
  have hkeyed := hsuspended.retireOthers others fun _ hid => hid
  obtain ⟨_, _, hnext⟩ := db.foldl_retireOther_frame others
  have hmoved : Keyed owner others ((others.foldl Db.retireOther db).moveRows into
      (fun row => row.driveId ∈ others)) :=
    hkeyed.moveRows (by rw [hnext]; exact hinto)
      fun row _ hchosen => (howner _ (by simpa using hchosen)).symm
  have hgone := (hmoved.filter (fun d => d.id ∉ others)).settle fun d hd hmem =>
    absurd hmem (by simpa using (List.mem_filter.mp hd).2)
  exact (hgone.map fun d => sameDrive_notes d into notes).foldl_refreshSpan _

theorem Db.merge_rows (db : Db δ) (into : ℕ) (others : List ℕ) (notes : Option String) :
    (db.merge into others notes).rows = (db.moveRows into (fun row => row.driveId ∈ others)).rows ∧
      (db.merge into others notes).nextDriveId = db.nextDriveId := by
  obtain ⟨_, hrows, hnext⟩ := db.foldl_retireOther_frame others
  unfold Db.merge Db.refreshSpans
  obtain ⟨hrows', _, hnext'⟩ := Db.foldl_refreshSpan_rows (Db.setNotes { (others.foldl Db.retireOther
    db).moveRows into (fun row => row.driveId ∈ others) with
      drives := ((others.foldl Db.retireOther db).moveRows into
        (fun row => row.driveId ∈ others)).drives.filter (fun d => d.id ∉ others) } into notes)
    ([into].dedup.insertionSort (· ≤ ·))
  refine ⟨hrows'.trans ?_, hnext'.trans hnext⟩
  show (others.foldl Db.retireOther db).rows.map _ = db.rows.map _
  rw [hrows]

/-- The merge finds the drive that it merges into, or nothing to move. -/
def MergeFinds (db : Db δ) (into : ℕ) (others : List ℕ) : Prop :=
  (∃ d ∈ db.drives, d.id = into) ∨ ∀ row ∈ db.rows, row.driveId ∉ others

theorem Whole.merge (h : Whole [] db) {others : List ℕ}
    (hnot : into ∉ others) (hfinds : MergeFinds db into others) (notes : Option String) :
    Whole [] (db.merge into others notes) := by
  unfold Db.merge
  obtain ⟨hdrives, hrows, _⟩ := db.foldl_retireOther_frame others
  extract_lets retired moved cleared
  have hstale : Whole (into :: others) retired := by
    refine ⟨fun row hrow => ?_, fun d hd _ => ?_⟩
    · rw [hrows] at hrow
      rw [hdrives]
      exact h.linked row hrow
    · rw [hdrives] at hd
      exact (Db.spanOf_congr (by unfold Db.rowsOf; rw [hrows])).trans (h.spans d hd (by simp))
  have hmoved : Whole (into :: others) moved := by
    refine hstale.moveRows List.mem_cons_self (fun row hrow hchosen => ?_) fun row _ hchosen => ?_
    · rw [hrows] at hrow
      rw [hdrives]
      rcases hfinds with hinto | hnone
      · exact hinto
      · exact absurd (by simpa using hchosen) (hnone row hrow)
    · exact List.mem_cons_of_mem _ (by simpa using hchosen)
  have hcleared : Whole [into] cleared := by
    refine ⟨fun row hrow => ?_, fun d hd hne => ?_⟩
    · obtain ⟨d, hd, hid⟩ := hmoved.linked row hrow
      refine ⟨d, List.mem_filter.mpr ⟨hd, ?_⟩, hid⟩
      obtain ⟨row, hmem, rfl⟩ := List.mem_map.mp hrow
      rw [hid]
      split_ifs with hchosen
      · simpa using hnot
      · simpa using hchosen
    · obtain ⟨hd, hout⟩ := List.mem_filter.mp hd
      refine hmoved.spans d hd fun hmem => ?_
      rcases List.mem_cons.mp hmem with hid | hmem
      · exact hne (by simp [hid])
      · exact absurd hmem (by simpa using hout)
  exact (hcleared.map (fun d => sameDrive_notes d into notes) (fun d hd => if_neg hd)
    (List.mem_singleton_self _)).refreshSpans

theorem Keyed.clearUid
    (h : Keyed owner retiring db) (id : ℕ) : Keyed owner retiring (db.clearUid id) := by
  have hids : (db.clearUid id).drives.map Drive.id = db.drives.map Drive.id := by
    show (db.drives.map _).map Drive.id = _
    rw [List.map_map]
    refine List.map_congr_left fun d _ => ?_
    show (if d.id = id then _ else d).id = d.id
    split_ifs <;> rfl
  have hmem : ∀ {e}, e ∈ (db.clearUid id).drives → ∃ d ∈ db.drives, e.id = d.id ∧
      e.userId = d.userId ∧ e.radioKey = d.radioKey ∧ ∀ uid, e.uid = some uid → d.uid = some uid := by
    intro e he
    obtain ⟨d, hd, rfl⟩ := List.mem_map.mp he
    refine ⟨d, hd, ?_⟩
    split_ifs
    · exact ⟨rfl, rfl, rfl, fun uid hu => by cases hu⟩
    · exact ⟨rfl, rfl, rfl, fun uid hu => hu⟩
  refine ⟨by rw [hids]; exact h.ids, fun e he => ?_, h.rowNext, fun e he => ?_, h.rows,
    fun e he e' he' uid hu hu' => ?_, fun e he hnot t ht hu => ?_⟩
  · obtain ⟨d, hd, hid, _⟩ := hmem he
    rw [hid]
    exact h.next d hd
  · obtain ⟨d, hd, hid, huser, hkey, _⟩ := hmem he
    rw [hid, huser, hkey]
    exact h.drives d hd
  · obtain ⟨d, hd, hid, _, _, huid⟩ := hmem he
    obtain ⟨d', hd', hid', _, _, huid'⟩ := hmem he'
    rw [hid, hid']
    exact h.uids d hd d' hd' uid (huid uid hu) (huid' uid hu')
  · obtain ⟨d, hd, hid, _, _, huid⟩ := hmem he
    exact h.live d hd (hid ▸ hnot) t ht (huid t.uid hu)

/-- **A split** of a drive. -/
theorem Keyed.split (h : Keyed owner [] db) (id : ℕ)
    (atTs : ℤ) : ∃ owner', Keyed owner' [] (db.split id atTs) ∧
      (∀ i < db.nextDriveId, owner' i = owner i) ∧
      db.nextDriveId ≤ (db.split id atTs).nextDriveId := by
  unfold Db.split
  cases hget : db.get id with
  | none => exact ⟨owner, h, fun _ _ => rfl, le_rfl⟩
  | some drive =>
    obtain ⟨hmem, hid⟩ := Db.get_eq_some hget
    dsimp only
    split_ifs
    swap
    · exact ⟨owner, h, fun _ _ => rfl, le_rfl⟩
    have hcreated : Keyed (ownerWith owner db drive.userId drive.radioKey) [id]
        (db.createDrive drive.userId drive.radioKey none atTs drive.endTs) :=
      (h.mono (by simp)).createDrive _ _ (by simp) _ _
    have hmoved := hcreated.moveRows (Nat.lt_succ_self db.nextDriveId)
      (fun row hrow (hchosen : (row.driveId = id && atTs ≤ row.reading.ts : Bool) = true) => by
        simp only [Bool.and_eq_true, decide_eq_true_eq] at hchosen
        have hlt := h.rowNext row hrow
        rw [ownerWith_of_lt hlt, hchosen.1, ← hid, h.drives drive hmem]
        exact Function.update_self ..)
    have hretired := hmoved.retireUid (List.mem_append_left _ hmem) (by simp [hid]) .retired
    have hcleared : Keyed (ownerWith owner db drive.userId drive.radioKey) [] ((((db.createDrive
        drive.userId drive.radioKey none atTs drive.endTs).moveRows db.nextDriveId (fun row =>
          row.driveId = id && atTs ≤ row.reading.ts)).retireUid drive .retired).clearUid id) := by
      refine (hretired.clearUid id).settle fun d hd hgone => ?_
      obtain ⟨e, _, rfl⟩ := List.mem_map.mp hd
      split_ifs at hgone ⊢ with he
      · rfl
      · exact absurd (List.mem_singleton.mp hgone) he
    refine ⟨_, hcleared.foldl_refreshSpan _, fun i hi => ownerWith_of_lt hi, ?_⟩
    obtain ⟨_, _, hnext⟩ := Db.foldl_refreshSpan_rows ((((db.createDrive drive.userId
      drive.radioKey none atTs drive.endTs).moveRows db.nextDriveId (fun row =>
        row.driveId = id && atTs ≤ row.reading.ts)).retireUid drive .retired).clearUid id)
      ([id, db.nextDriveId].dedup.insertionSort (· ≤ ·))
    obtain ⟨_, _, hnext'⟩ := ((db.createDrive drive.userId drive.radioKey none atTs
      drive.endTs).moveRows db.nextDriveId (fun row =>
        row.driveId = id && atTs ≤ row.reading.ts)).retireUid_drives drive .retired
    exact (Nat.le_succ _).trans (hnext.trans hnext').ge

theorem Whole.split (h : Whole [] db) (id : ℕ) (atTs : ℤ) :
    Whole [] (db.split id atTs) := by
  unfold Db.split
  cases hget : db.get id with
  | none => exact h
  | some drive =>
    dsimp only
    split_ifs
    swap
    · exact h
    have hcreated : Whole [id, db.nextDriveId]
        (db.createDrive drive.userId drive.radioKey none atTs drive.endTs) :=
      (h.createDrive _ _ _ _ _).mono (by simp)
    have hmoved : Whole [id, db.nextDriveId] ((db.createDrive drive.userId drive.radioKey none atTs
        drive.endTs).moveRows db.nextDriveId
          (fun row => row.driveId = id && atTs ≤ row.reading.ts)) := by
      refine hcreated.moveRows (by simp) (fun _ _ _ => ?_) fun row _ hchosen => ?_
      · exact ⟨_, List.mem_concat_self, rfl⟩
      · simp only [Bool.and_eq_true, decide_eq_true_eq] at hchosen
        simp [hchosen.1]
    refine Whole.refreshSpans ?_
    generalize (db.createDrive drive.userId drive.radioKey none atTs
      drive.endTs).moveRows db.nextDriveId
        (fun row => row.driveId = id && atTs ≤ row.reading.ts) = moved at hmoved
    obtain ⟨hdrives, hrows, _⟩ := moved.retireUid_drives drive .retired
    have hid : ∀ d : Drive, (if d.id = id then { d with uid := none } else d).id = d.id := by
      intro d
      split_ifs <;> rfl
    refine ⟨fun row hrow => ?_, fun d hd hnot => ?_⟩
    · replace hrow : row ∈ (moved.retireUid drive .retired).rows := hrow
      rw [hrows] at hrow
      obtain ⟨d, hd, hd'⟩ := hmoved.linked row hrow
      exact ⟨_, List.mem_map_of_mem (hdrives ▸ hd), (hid d).trans hd'⟩
    · obtain ⟨e, he, rfl⟩ := List.mem_map.mp hd
      rw [hid] at hnot
      rw [hdrives] at he
      have hne : e.id ≠ id := fun heq => hnot (by simp [heq])
      rw [if_neg hne]
      refine (Db.spanOf_congr ?_).trans (hmoved.spans e he hnot)
      unfold Db.rowsOf
      show List.filter _ (moved.retireUid drive .retired).rows = _
      rw [hrows]

/-! ### Pruning -/

theorem Keyed.deleteEmpty (h : Keyed owner [] db) :
    Keyed owner [] db.deleteEmpty :=
  (h.filter _).map fun _ => ⟨rfl, rfl, rfl, rfl⟩

theorem Reading.ts_lt_noTs (reading : Reading δ) : reading.ts ≤ Db.noTs := by
  have hts : ∀ t : Instant, t.ts ≤ Db.noTs := by
    intro t
    have hupper := t.upper
    unfold Instant.ts Db.noTs
    have hsign : Int.sign 1000 = 1 := rfl
    rw [Int.tdiv_eq_ediv]
    split_ifs <;> omega
  cases reading
  · exact hts _
  · exact hts _

/-- The least of the receptions and of the track rows is the least of all. -/
theorem min_getD_eq {xs ys : List ℤ} {least top : ℤ} (hmem : least ∈ xs ∨ least ∈ ys)
    (hle : ∀ a, a ∈ xs ∨ a ∈ ys → least ≤ a) (htop : least ≤ top) :
    min (xs.min?.getD top) (ys.min?.getD top) = least := by
  have hge : ∀ zs : List ℤ, (∀ a ∈ zs, least ≤ a) → least ≤ zs.min?.getD top := by
    intro zs hzs
    cases hmin : zs.min? with
    | none => exact htop
    | some a => exact hzs a (List.min?_eq_some_iff.mp hmin).1
  have hle' : ∀ zs : List ℤ, least ∈ zs → zs.min?.getD top ≤ least := by
    intro zs hzs
    cases hmin : zs.min? with
    | none =>
      rw [List.min?_eq_none_iff] at hmin
      rw [hmin] at hzs
      cases hzs
    | some a => exact (List.min?_eq_some_iff.mp hmin).2 least hzs
  refine le_antisymm ?_ (le_min (hge xs fun a ha => hle a (Or.inl ha))
    (hge ys fun a ha => hle a (Or.inr ha)))
  rcases hmem with hmem | hmem
  · exact (min_le_left _ _).trans (hle' xs hmem)
  · exact (min_le_right _ _).trans (hle' ys hmem)

theorem max_getD_eq {xs ys : List ℤ} {greatest bottom : ℤ} (hmem : greatest ∈ xs ∨ greatest ∈ ys)
    (hle : ∀ a, a ∈ xs ∨ a ∈ ys → a ≤ greatest) (hbottom : bottom ≤ greatest) :
    max (xs.max?.getD bottom) (ys.max?.getD bottom) = greatest := by
  have hle' : ∀ zs : List ℤ, (∀ a ∈ zs, a ≤ greatest) → zs.max?.getD bottom ≤ greatest := by
    intro zs hzs
    cases hmax : zs.max? with
    | none => exact hbottom
    | some a => exact hzs a (List.max?_eq_some_iff.mp hmax).1
  have hge : ∀ zs : List ℤ, greatest ∈ zs → greatest ≤ zs.max?.getD bottom := by
    intro zs hzs
    cases hmax : zs.max? with
    | none =>
      rw [List.max?_eq_none_iff] at hmax
      rw [hmax] at hzs
      cases hzs
    | some a => exact (List.max?_eq_some_iff.mp hmax).2 greatest hzs
  refine le_antisymm (max_le (hle' xs fun a ha => hle a (Or.inl ha))
    (hle' ys fun a ha => hle a (Or.inr ha))) ?_
  rcases hmem with hmem | hmem
  · exact (hge xs hmem).trans (le_max_left _ _)
  · exact (hge ys hmem).trans (le_max_right _ _)

/-- Pruning finds the span of a drive that does not end before the epoch. -/
theorem Db.prunedSpan_eq {startTs endTs : ℤ}
    (hspan : db.spanOf id = some (startTs, endTs)) (hend : -1 ≤ endTs) :
    db.prunedSpan id = (startTs, endTs) := by
  obtain ⟨⟨hstart, hleast⟩, ⟨hendMem, hgreatest⟩⟩ := Db.spanOf_eq_some_iff.mp hspan
  unfold Db.prunedSpan
  have hparts : ∀ (value : Reading δ → ℤ) (a : ℤ),
      (a ∈ ((db.rowsOf id).filter (fun row => row.reading.isObs)).map (fun row => value row.reading) ∨
        a ∈ ((db.rowsOf id).filter (fun row => !row.reading.isObs)).map
          (fun row => value row.reading)) ↔
      ∃ row ∈ db.rows, row.driveId = id ∧ value row.reading = a := by
    intro value a
    simp only [List.mem_map, List.mem_filter, Db.mem_rowsOf, Bool.not_eq_true']
    constructor
    · rintro (⟨row, ⟨⟨hrow, hid⟩, _⟩, ha⟩ | ⟨row, ⟨⟨hrow, hid⟩, _⟩, ha⟩)
      · exact ⟨row, hrow, hid, ha⟩
      · exact ⟨row, hrow, hid, ha⟩
    · rintro ⟨row, hrow, hid, ha⟩
      cases hobs : row.reading.isObs
      · exact Or.inr ⟨row, ⟨⟨hrow, hid⟩, hobs⟩, ha⟩
      · exact Or.inl ⟨row, ⟨⟨hrow, hid⟩, hobs⟩, ha⟩
  refine Prod.ext ?_ ?_
  · refine min_getD_eq ((hparts Reading.ts _).mpr hstart)
      (fun a ha => hleast ((hparts Reading.ts a).mp ha)) ?_
    obtain ⟨row, _, _, hts⟩ := hstart
    rw [← hts]
    exact row.reading.ts_lt_noTs
  · exact max_getD_eq ((hparts Reading.endTs _).mpr hendMem)
      (fun a ha => hgreatest ((hparts Reading.endTs a).mp ha)) hend

/-- Pruning keeps the spans of drives that do not end before the epoch. -/
theorem Whole.deleteEmpty (h : Whole [] db) (hend : ∀ d ∈ db.drives, -1 ≤ d.endTs) :
    Whole [] db.deleteEmpty := by
  refine ⟨fun row hrow => ?_, fun d hd _ => ?_⟩
  · obtain ⟨d, hd, hid⟩ := h.linked row hrow
    refine ⟨_, List.mem_map_of_mem (List.mem_filter.mpr ⟨hd, ?_⟩), hid⟩
    have hmem : row ∈ db.rowsOf d.id := Db.mem_rowsOf.mpr ⟨hrow, hid.symm⟩
    cases hrows : db.rowsOf d.id with
    | nil =>
      rw [hrows] at hmem
      cases hmem
    | cons _ _ => rfl
  · obtain ⟨e, he, rfl⟩ := List.mem_map.mp hd
    have hmem := List.mem_of_mem_filter he
    have hspan := h.spans e hmem (by simp)
    show db.spanOf e.id = some ((db.prunedSpan e.id).1, (db.prunedSpan e.id).2)
    rw [Db.prunedSpan_eq hspan (hend e hmem), hspan]

end RtfmEv.Wardrive
