import RtfmEv.Lib.Lists
import RtfmEv.Wardrive.Consistency

/-!
# Stored drives over any run

Requests to change drives read them one after the other and write at the end, with
uploads, pruning and other requests in between. What a request has read of a drive stays
true of it as long as it is there, and its id is never used again: only the drive that
others are merged into has to be there still.
-/

namespace RtfmEv.Wardrive

open RtfmEv.Lib

variable {δ : Type} {owner : ℕ → ℕ × String} {r : Request} {next id : ℕ}

/-! ### What a request knows -/

/-- The drives that a request has read are or were the owner's, and are not read again. -/
structure Knows (owner : ℕ → ℕ × String) (next : ℕ) (r : Request) : Prop where
  read : ∀ d ∈ r.checked, d.id < next ∧ owner d.id = (d.userId, d.radioKey)
  distinct : (r.checked.map Drive.id ++ r.todo).Nodup

/-- The invariant of every run. -/
structure Held (s : State δ) (owner : ℕ → ℕ × String) : Prop where
  keyed : Keyed owner [] s.db
  requests : ∀ i r, s.requests i = some r → Knows owner s.db.nextDriveId r

theorem Knows.mono {owner owner' : ℕ → ℕ × String} {next' : ℕ}
    (h : Knows owner next r) (hnext : next ≤ next') (howner : ∀ id < next, owner' id = owner id) :
    Knows owner' next' r := by
  refine ⟨fun d hd => ?_, h.distinct⟩
  obtain ⟨hlt, hd'⟩ := h.read d hd
  exact ⟨hlt.trans_le hnext, (howner d.id hlt).trans hd'⟩

/-- What a merge plan takes from the drives that were read. -/
theorem mergePlan_spec (h : Knows owner next r)
    {into : Drive} {others : List Drive} {notes : Option String}
    (hplan : mergePlan r.checked = some (into, others, notes)) :
    into.id < next ∧ (into.id :: others.map Drive.id).Nodup ∧
      ∀ id ∈ others.map Drive.id, owner id = owner into.id := by
  unfold mergePlan at hplan
  have hperm := List.perm_insertionSort earlier r.checked
  cases hsorted : r.checked.insertionSort earlier with
  | nil =>
    rw [hsorted] at hplan
    cases hplan
  | cons first rest =>
    rw [hsorted] at hplan hperm
    dsimp only at hplan
    split_ifs at hplan with hall _
    obtain ⟨rfl, hrest⟩ := Prod.mk.inj (Option.some.inj hplan)
    obtain ⟨rfl, _⟩ := Prod.mk.inj hrest
    have hread : ∀ d ∈ first :: rest, d.id < next ∧ owner d.id = (d.userId, d.radioKey) :=
      fun d hd => h.read d (hperm.mem_iff.mp hd)
    have hnodup : ((first :: rest).map Drive.id).Nodup :=
      (hperm.map Drive.id).nodup_iff.mpr h.distinct.of_append_left
    refine ⟨(hread first List.mem_cons_self).1, hnodup, fun id hid => ?_⟩
    obtain ⟨d, hd, rfl⟩ := List.mem_map.mp hid
    have hsame := List.all_eq_true.mp hall d hd
    simp only [Bool.and_eq_true, decide_eq_true_eq] at hsame
    rw [(hread d (List.mem_cons_of_mem _ hd)).2, (hread first List.mem_cons_self).2, hsame.1,
      hsame.2]

/-- **The write of a request** keeps the keys. -/
theorem Keyed.change {db : Db δ} (h : Keyed owner [] db)
    (hknows : Knows owner db.nextDriveId r) : ∃ owner', Keyed owner' [] (db.change r) ∧
      (∀ i < db.nextDriveId, owner' i = owner i) ∧ db.nextDriveId ≤ (db.change r).nextDriveId := by
  unfold Db.change
  split
  · exact ⟨owner, h.deleteWithRows _, fun _ _ => rfl, (db.deleteWithRows_rows _).2.2.ge⟩
  · split_ifs
    · exact h.split _ _
    · exact ⟨owner, h, fun _ _ => rfl, le_rfl⟩
  · cases hplan : mergePlan r.checked with
    | none => exact ⟨owner, h, fun _ _ => rfl, le_rfl⟩
    | some plan =>
      obtain ⟨into, others, notes⟩ := plan
      obtain ⟨hlt, _, howner⟩ := mergePlan_spec hknows hplan
      exact ⟨owner, h.merge hlt howner notes, fun _ _ => rfl, (db.merge_rows ..).2.ge⟩
  · exact ⟨owner, h, fun _ _ => rfl, le_rfl⟩

/-- What is asked of a write: a merge finds the drive that it merges into, or has nothing
to move. -/
def Db.ChangeFinds (db : Db δ) (r : Request) : Prop :=
  r.change = .merge → ∀ into others notes, mergePlan r.checked = some (into, others, notes) →
    MergeFinds db into.id (others.map Drive.id)

theorem Whole.change {db : Db δ} (h : Whole [] db)
    (hknows : Knows owner db.nextDriveId r) (hfinds : db.ChangeFinds r) : Whole [] (db.change r) := by
  unfold Db.change
  split
  · exact h.deleteWithRows _
  · split_ifs
    · exact h.split _ _
    · exact h
  case h_3 hmerge =>
    cases hplan : mergePlan r.checked with
    | none => exact h
    | some plan =>
      obtain ⟨into, others, notes⟩ := plan
      obtain ⟨_, hnodup, _⟩ := mergePlan_spec hknows hplan
      exact h.merge (List.nodup_cons.mp hnodup).1 (hfinds hmerge into others notes hplan) notes
  · exact h

/-! ### Rows are only moved -/

/-- A row without its drive. -/
def Row.content (row : Row δ) : ℕ × ℕ × String × Reading δ :=
  (row.id, row.userId, row.radioKey, row.reading)

theorem Db.moveRows_content (db : Db δ) (into : ℕ) (chosen : Row δ → Bool) :
    (db.moveRows into chosen).rows.map Row.content = db.rows.map Row.content := by
  show (db.rows.map _).map Row.content = _
  rw [List.map_map]
  refine List.map_congr_left fun row _ => ?_
  show Row.content (if chosen row then _ else row) = Row.content row
  split_ifs <;> rfl

theorem Db.split_content (db : Db δ) (id : ℕ) (atTs : ℤ) :
    (db.split id atTs).rows.map Row.content = db.rows.map Row.content := by
  unfold Db.split
  cases db.get id with
  | none => rfl
  | some drive =>
    dsimp only
    split_ifs
    · unfold Db.refreshSpans
      rw [(Db.foldl_refreshSpan_rows _ _).1]
      show (Db.retireUid _ drive .retired).rows.map Row.content = _
      rw [(Db.retireUid_drives _ drive .retired).2.1, Db.moveRows_content]
      rfl
    · rfl

/-- **A merge or a split** neither adds nor removes a row, nor changes more of it than its
drive. -/
theorem Db.change_content (db : Db δ) (hnot : r.change ≠ .delete) :
    (db.change r).rows.map Row.content = db.rows.map Row.content := by
  unfold Db.change
  split
  case h_1 hdelete _ => exact absurd hdelete hnot
  · split_ifs
    · exact db.split_content _ _
    · rfl
  · cases mergePlan r.checked with
    | none => rfl
    | some plan =>
      obtain ⟨into, others, notes⟩ := plan
      show (db.merge _ _ _).rows.map Row.content = _
      rw [(db.merge_rows _ _ _).1, Db.moveRows_content]
  · rfl

/-! ### One step -/

/-- What the theorem asks of a step: a merge finds its drive, and no drive that pruning
meets ends before the epoch. -/
def State.Calm (s : State δ) : Op δ → Prop
  | .commit i => ∀ r, s.requests i = some r → s.db.ChangeFinds r
  | .deleteEmpty => ∀ d ∈ s.db.drives, -1 ≤ d.endTs
  | _ => True

theorem Held.setRequest {s : State δ} (h : Held s owner) {i : ℕ}
    {r : Option Request} (hr : ∀ r', r = some r' → Knows owner s.db.nextDriveId r') :
    Held (s.setRequest i r) owner := by
  refine ⟨h.keyed, fun j r' hj => ?_⟩
  replace hj : Function.update s.requests i r j = some r' := hj
  rw [Function.update_apply] at hj
  split_ifs at hj with heq
  · exact hr r' hj
  · exact h.requests j r' hj

theorem Held.setDb {s : State δ} (h : Held s owner) {db : Db δ}
    {owner' : ℕ → ℕ × String} (hkeyed : Keyed owner' [] db)
    (howner : ∀ id < s.db.nextDriveId, owner' id = owner id)
    (hnext : s.db.nextDriveId ≤ db.nextDriveId) : Held { s with db := db } owner' :=
  ⟨hkeyed, fun i r hr => (h.requests i r hr).mono hnext howner⟩

/-- **One step** keeps the keys. -/
theorem Held.apply {s s' : State δ} (h : Held s owner) {op : Op δ}
    (hstep : s.apply op = some s') : ∃ owner', Held s' owner' ∧
      (∀ id < s.db.nextDriveId, owner' id = owner id) ∧
      s.db.nextDriveId ≤ s'.db.nextDriveId := by
  cases op with
  | upload userId key uid obs tracks now =>
    simp only [State.apply] at hstep
    cases hstore : s.db.storeUpload userId key uid obs tracks now with
    | error _ =>
      rw [hstore] at hstep
      rw [← Option.some.inj hstep]
      exact ⟨owner, h, fun _ _ => rfl, le_rfl⟩
    | ok stored =>
      rw [hstore] at hstep
      rw [← Option.some.inj hstep]
      obtain ⟨owner', hstored⟩ := h.keyed.storeUpload hstore
      exact ⟨owner', h.setDb hstored.keyed hstored.owners hstored.next, hstored.owners,
        hstored.next⟩
  | request viewer change ids =>
    simp only [State.apply] at hstep
    refine ⟨owner, ?_, fun _ _ => rfl, ?_⟩
    · split_ifs at hstep
      · rw [← Option.some.inj hstep]
        refine ⟨h.keyed, (h.setRequest fun r' hr' => ?_).requests⟩
        rw [← Option.some.inj hr']
        exact ⟨fun d hd => (by cases hd), nodup_eraseDups ids⟩
      · rw [← Option.some.inj hstep]
        exact h
    · split_ifs at hstep <;> exact Option.some.inj hstep ▸ le_rfl
  | check i visible =>
    simp only [State.apply] at hstep
    split at hstep
    case h_2 => cases hstep
    case h_1 viewer change id todo checked hr =>
      have hknows := h.requests i _ hr
      have hended : Held (s.setRequest i none) owner := h.setRequest fun _ hr' => by cases hr'
      split at hstep
      case h_2 =>
        rw [← Option.some.inj hstep]
        exact ⟨owner, hended, fun _ _ => rfl, le_rfl⟩
      case h_1 drive hget =>
        split_ifs at hstep
        · rw [← Option.some.inj hstep]
          refine ⟨owner, h.setRequest fun r' hr' => ?_, fun _ _ => rfl, le_rfl⟩
          rw [← Option.some.inj hr']
          obtain ⟨hmem, hid⟩ := Db.get_eq_some hget
          refine ⟨fun d hd => ?_, ?_⟩
          · rcases List.mem_append.mp hd with hd | hd
            · exact hknows.read d hd
            · rw [List.mem_singleton.mp hd]
              exact ⟨h.keyed.next drive hmem, h.keyed.drives drive hmem⟩
          · have hdistinct := hknows.distinct
            simp only [List.map_append, List.map_cons, List.map_nil, List.append_assoc,
              List.singleton_append, hid]
            exact hdistinct
        · rw [← Option.some.inj hstep]
          exact ⟨owner, hended, fun _ _ => rfl, le_rfl⟩
  | commit i =>
    simp only [State.apply] at hstep
    split at hstep
    case h_2 => cases hstep
    case h_1 viewer change checked hr =>
      rw [← Option.some.inj hstep]
      obtain ⟨owner', hkeyed, howner, hnext⟩ := h.keyed.change (h.requests i _ hr)
      have hended : Held (s.setRequest i none) owner := h.setRequest fun _ hr' => by cases hr'
      exact ⟨owner', hended.setDb hkeyed howner hnext, howner, hnext⟩
  | deleteEmpty =>
    rw [← Option.some.inj hstep]
    exact ⟨owner, h.setDb h.keyed.deleteEmpty (fun _ _ => rfl) le_rfl, fun _ _ => rfl, le_rfl⟩

/-- What a step makes of the database. -/
theorem State.db_of_apply {s s' : State δ} {op : Op δ} (hstep : s.apply op = some s') :
    s'.db = s.db ∨
    (∃ userId key uid obs tracks now stored,
      s.db.storeUpload userId key uid obs tracks now = .ok stored ∧ s'.db = stored.1) ∨
    (∃ i r, op = .commit i ∧ s.requests i = some r ∧ s'.db = s.db.change r) ∨
    op = .deleteEmpty ∧ s'.db = s.db.deleteEmpty := by
  cases op with
  | upload userId key uid obs tracks now =>
    simp only [State.apply] at hstep
    cases hstore : s.db.storeUpload userId key uid obs tracks now with
    | error _ =>
      rw [hstore] at hstep
      exact Or.inl (Option.some.inj hstep ▸ rfl)
    | ok stored =>
      rw [hstore] at hstep
      exact Or.inr (Or.inl ⟨_, _, _, _, _, _, stored, hstore, Option.some.inj hstep ▸ rfl⟩)
  | request viewer change ids =>
    simp only [State.apply] at hstep
    split_ifs at hstep <;> exact Or.inl (Option.some.inj hstep ▸ rfl)
  | check i visible =>
    simp only [State.apply] at hstep
    split at hstep
    case h_2 => cases hstep
    case h_1 =>
      split at hstep
      · split_ifs at hstep <;> exact Or.inl (Option.some.inj hstep ▸ rfl)
      · exact Or.inl (Option.some.inj hstep ▸ rfl)
  | commit i =>
    simp only [State.apply] at hstep
    split at hstep
    case h_2 => cases hstep
    case h_1 viewer change checked hr =>
      exact Or.inr (Or.inr (Or.inl ⟨i, _, rfl, hr, Option.some.inj hstep ▸ rfl⟩))
  | deleteEmpty =>
    exact Or.inr (Or.inr (Or.inr ⟨rfl, Option.some.inj hstep ▸ rfl⟩))

/-- **One step** keeps drives and rows together. -/
theorem Whole.apply {s s' : State δ} (hheld : Held s owner)
    (h : Whole [] s.db) {op : Op δ} (hcalm : s.Calm op) (hstep : s.apply op = some s') :
    Whole [] s'.db := by
  rcases State.db_of_apply hstep with hsame | ⟨_, _, _, _, _, _, stored, hstore, hdb⟩ |
    ⟨i, r, rfl, hr, hdb⟩ | ⟨rfl, hdb⟩
  · rw [hsame]
    exact h
  · rw [hdb]
    obtain ⟨_, hstored⟩ := hheld.keyed.storeUpload hstore
    exact hstored.whole h
  · rw [hdb]
    exact h.change (hheld.requests i _ hr) (hcalm _ hr)
  · rw [hdb]
    exact h.deleteEmpty hcalm

/-! ### Any run -/

/-- Drives, rows and tombstones as they should be. -/
structure Db.Consistent (db : Db δ) : Prop where
  rows : ∀ row ∈ db.rows, ∃ d ∈ db.drives,
    d.id = row.driveId ∧ d.userId = row.userId ∧ d.radioKey = row.radioKey
  held : ∀ d ∈ db.drives, ∃ row ∈ db.rows, row.driveId = d.id
  spans : ∀ d ∈ db.drives, IsLeast (db.starts d.id) d.startTs ∧ IsGreatest (db.ends d.id) d.endTs
  uids : ∀ d ∈ db.drives, ∀ t ∈ db.tombstones, d.uid ≠ some t.uid

/-- What a step leaves alone: a merge or a split everything of the rows but their drive, an
upload that is refused everything. -/
structure Leaves (e : DriveEvent δ) : Prop where
  rows : ∀ i r, e.label = .commit i → e.pre.requests i = some r → r.change ≠ .delete →
    e.post.db.rows.map Row.content = e.pre.db.rows.map Row.content
  refused : ∀ userId key uid obs tracks now error,
    e.label = .upload userId key uid obs tracks now →
    e.pre.db.storeUpload userId key uid obs tracks now = .error error → e.post = e.pre

theorem Keyed.consistent {db : Db δ} (h : Keyed owner [] db)
    (hwhole : Whole [] db) : db.Consistent := by
  have hspan : ∀ d ∈ db.drives, IsLeast (db.starts d.id) d.startTs ∧
      IsGreatest (db.ends d.id) d.endTs :=
    fun d hd => Db.spanOf_eq_some_iff.mp (hwhole.spans d hd (by simp))
  refine ⟨fun row hrow => ?_, fun d hd => ?_, hspan, fun d hd => h.live d hd (by simp)⟩
  · obtain ⟨d, hd, hid⟩ := hwhole.linked row hrow
    have howner := h.drives d hd
    rw [hid, h.rows row hrow] at howner
    obtain ⟨huser, hkey⟩ := Prod.mk.inj howner
    exact ⟨d, hd, hid, huser.symm, hkey.symm⟩
  · obtain ⟨row, hrow, hid, _⟩ := (hspan d hd).1.1
    exact ⟨row, hrow, hid⟩

theorem leaves_of_step {e : DriveEvent δ} (hstep : DriveStep e.pre e.label e.post) : Leaves e := by
  refine ⟨fun i r hlabel hr hnot => ?_, fun userId key uid obs tracks now error hlabel herror => ?_⟩
  · rw [DriveStep, hlabel, State.apply, hr] at hstep
    split at hstep
    case h_2 => cases hstep
    case h_1 viewer change checked heq =>
      rw [← Option.some.inj hstep]
      rw [Option.some.inj heq] at hnot
      exact e.pre.db.change_content hnot
  · rw [DriveStep, hlabel, State.apply, herror] at hstep
    exact (Option.some.inj hstep).symm

theorem keyed_empty : Keyed (fun _ => (0, "")) [] ({} : Db δ) :=
  ⟨List.nodup_nil, by simp, by simp, by simp, by simp, by simp, by simp⟩

/-- **Stored drives and rows stay consistent**, in any run in which every merge finds the
drive that it merges into, or nothing to move, and pruning meets no drive that ends before
the epoch. -/
theorem drives_consistent {events : List (DriveEvent δ)} {s' : State δ}
    (hrun : Lib.Run DriveStep {} events s') (hcalm : ∀ e ∈ events, e.pre.Calm e.label) :
    s'.db.Consistent ∧ ∀ e ∈ events, Leaves e := by
  refine ⟨?_, fun e he => ?_⟩
  · have hboth : (∃ owner, Held s' owner) ∧ Whole [] s'.db :=
      hrun.invariant (P := fun s => (∃ owner, Held s owner) ∧ Whole [] s.db) hcalm
        (fun e hstep hcalm ⟨⟨owner, hheld⟩, hwhole⟩ =>
          ⟨(hheld.apply hstep).imp fun _ h => h.1, hwhole.apply hheld hcalm hstep⟩)
        ⟨⟨_, keyed_empty, fun _ _ hr => (by cases hr)⟩, by simp, by simp⟩
    obtain ⟨⟨owner, hheld⟩, hwhole⟩ := hboth
    exact hheld.keyed.consistent hwhole
  · obtain ⟨before, after, rfl⟩ := List.append_of_mem he
    exact leaves_of_step hrun.at_event.2.1

section Runs

theorem seconds_lower (seconds : ℕ) : -62135596800000 ≤ (seconds : ℤ) * 1000 := by
  omega

theorem seconds_upper {seconds : ℕ} (h : seconds < 253402300799) :
    (seconds : ℤ) * 1000 ≤ 253402300799999 := by
  omega

/-- A reception so many seconds after the epoch. -/
def reception (seconds : ℕ) (h : seconds < 253402300799 := by decide) : Reading Unit :=
  .obs ⟨seconds * 1000, seconds_lower seconds, seconds_upper h⟩ "00112233445566ff" ()

def firstUid : Uid := ⟨"0a0a0a0a-0000-4000-8000-000000000001", by decide⟩
def secondUid : Uid := ⟨"0a0a0a0a-0000-4000-8000-000000000002", by decide⟩

/-- A drive of two receptions, and a request to split it. -/
theorem drives_consistent_upload : ∃ events s', Lib.Run DriveStep ({} : State Unit) events s' ∧
    s'.db.rows.length = 2 ∧ s'.db.Consistent := by
  obtain ⟨events, s', hrun, hlabels, hrows⟩ := Lib.Run.exists_of_trace State.apply ({} : State Unit)
    [.upload 1 "AA" (some firstUid) [reception 1000, reception 1300] [] 2000,
      .request (some 1) (.split 1200) [1], .check 0 true]
    (fun p => p.2.db.rows.length = 2) (by decide +kernel)
  refine ⟨events, s', hrun, by simpa using hrows, (drives_consistent hrun fun e he => ?_).1⟩
  have hmem : e.label ∈ events.map Event.label := List.mem_map_of_mem he
  rw [hlabels] at hmem
  simp only [List.mem_cons, List.not_mem_nil, or_false] at hmem
  rcases hmem with h | h | h <;> rw [h] <;> exact trivial

/-- **A merge whose drive is deleted meanwhile.** Its rows are moved to a drive that is not
there any more. -/
theorem not_forall_drives_consistent : ¬ ∀ (events : List (DriveEvent Unit)) (s' : State Unit),
    Lib.Run DriveStep {} events s' → s'.db.Consistent ∧ ∀ e ∈ events, Leaves e := by
  intro h
  obtain ⟨events, s', hrun, _, hlost⟩ := Lib.Run.exists_of_trace State.apply ({} : State Unit)
    [.upload 1 "AA" (some firstUid) [reception 1000] [] 9000,
      .upload 1 "AA" (some secondUid) [reception 5000] [] 9000,
      .request (some 1) .merge [1, 2], .check 0 true, .check 0 true,
      .request (some 1) .delete [1], .check 1 true, .commit 1, .commit 0]
    (fun p => p.2.db.rows.any (fun row => row.driveId = 1) && p.2.db.drives.isEmpty)
    (by decide +kernel)
  obtain ⟨hrow, hnone⟩ := Bool.and_eq_true_iff.mp hlost
  obtain ⟨row, hmem, _⟩ := List.any_eq_true.mp hrow
  obtain ⟨d, hd, _⟩ := (h events s' hrun).1.rows row hmem
  rw [List.isEmpty_iff.mp hnone] at hd
  cases hd

end Runs

/-!
## Rows of a deleted drive

A tombstone is never taken back, and an upload that names a deleted uid stores nothing up
to the time that its tombstone keeps. So deleted rows stay away when every drive that
held rows of the uid was deleted under that uid. Once its rows are merged into another
drive, or split off, the tombstone keeps no time, and the drive that is deleted in the end
does not write one for it.
-/

variable {δ : Type} {owner : ℕ → ℕ × String} {db : Db δ} {userId : ℕ} {key : String} {row : Row δ}

/-! #### Tombstones stay -/

/-- Every tombstone stays, and there is one for a uid. -/
structure Buried (db db' : Db δ) : Prop where
  stay : ∀ t ∈ db.tombstones, t ∈ db'.tombstones
  unique : (db.tombstones.map Tombstone.uid).Nodup → (db'.tombstones.map Tombstone.uid).Nodup

theorem Buried.of_eq {db db' : Db δ} (h : db'.tombstones = db.tombstones) : Buried db db' :=
  ⟨fun _ ht => h ▸ ht, fun hnodup => h ▸ hnodup⟩

theorem Buried.trans {db db' db'' : Db δ} (h : Buried db db') (h' : Buried db' db'') :
    Buried db db'' :=
  ⟨fun t ht => h'.stay t (h.stay t ht), fun hnodup => h'.unique (h.unique hnodup)⟩

/-- A live uid has no tombstone that its own would replace. -/
theorem buried_retireUid (db : Db δ) {d : Drive}
    (hlive : ∀ t ∈ db.tombstones, d.uid ≠ some t.uid) (kind : TombKind) :
    Buried db (db.retireUid d kind) := by
  unfold Db.retireUid
  cases huid : d.uid with
  | none => exact .of_eq rfl
  | some uid =>
    have hother : ∀ t ∈ db.tombstones, t.uid ≠ uid :=
      fun t ht heq => hlive t ht (by rw [huid, heq])
    refine ⟨fun t ht => List.mem_append_left _ (List.mem_filter.mpr ⟨ht, ?_⟩), fun hnodup => ?_⟩
    · simpa using hother t ht
    · show ((db.tombstones.filter _ ++ _).map Tombstone.uid).Nodup
      rw [List.map_append, List.nodup_append]
      refine ⟨hnodup.sublist (List.filter_sublist.map _), by simp, fun u hu u' hu' heq => ?_⟩
      obtain ⟨t, ht, rfl⟩ := List.mem_map.mp hu
      have hne := hother t (List.mem_of_mem_filter ht)
      rw [show u' = uid by simpa using hu'] at heq
      exact hne heq

theorem Keyed.buried_deleteWithRows (h : Keyed owner [] db)
    (id : ℕ) : Buried db (db.deleteWithRows id) := by
  unfold Db.deleteWithRows
  cases hget : db.get id with
  | none => exact .of_eq rfl
  | some drive =>
    obtain ⟨hmem, _⟩ := Db.get_eq_some hget
    exact (buried_retireUid db (h.live drive hmem (by simp)) _).trans (.of_eq rfl)

/-- The others of a merge are distinct drives, so each retires a uid of its own. -/
theorem Keyed.buried_retireOthers (others : List ℕ) {retired : List ℕ}
    {db : Db δ} (h : Keyed owner retired db) (hnodup : others.Nodup)
    (hnot : ∀ id ∈ others, id ∉ retired) : Buried db (others.foldl Db.retireOther db) := by
  induction others generalizing db retired with
  | nil => exact .of_eq rfl
  | cons id others ih =>
    obtain ⟨hid, hnodup⟩ := List.nodup_cons.mp hnodup
    have hsuspended : Keyed owner (id :: retired) (db.retireOther id) := by
      have hmono : Keyed owner (id :: retired) db := h.mono fun _ => List.mem_cons_of_mem _
      exact hmono.retireOthers [id] fun i hi => by simp [List.mem_singleton.mp hi]
    have hbury : Buried db (db.retireOther id) := by
      unfold Db.retireOther
      cases hget : db.get id with
      | none => exact .of_eq rfl
      | some drive =>
        obtain ⟨hmem, hdrive⟩ := Db.get_eq_some hget
        exact buried_retireUid db (h.live drive hmem (hdrive ▸ hnot id List.mem_cons_self)) _
    refine hbury.trans (ih hsuspended hnodup fun i hi hmem => ?_)
    rcases List.mem_cons.mp hmem with rfl | hmem
    · exact hid hi
    · exact hnot i (List.mem_cons_of_mem _ hi) hmem

theorem Db.refreshSpans_tombstones (db : Db δ) (ids : List ℕ) :
    (db.refreshSpans ids).tombstones = db.tombstones :=
  (Db.foldl_refreshSpan_rows db _).2.1

theorem Keyed.buried_split (h : Keyed owner [] db) (id : ℕ)
    (atTs : ℤ) : Buried db (db.split id atTs) := by
  unfold Db.split
  cases hget : db.get id with
  | none => exact .of_eq rfl
  | some drive =>
    obtain ⟨hmem, _⟩ := Db.get_eq_some hget
    dsimp only
    split_ifs
    · have hmoved : Buried db ((db.createDrive drive.userId drive.radioKey none atTs
          drive.endTs).moveRows db.nextDriveId
            (fun row => row.driveId = id && atTs ≤ row.reading.ts)) := .of_eq rfl
      have hretired := buried_retireUid ((db.createDrive drive.userId drive.radioKey none atTs
        drive.endTs).moveRows db.nextDriveId
          (fun row => row.driveId = id && atTs ≤ row.reading.ts))
        (h.live drive hmem (by simp)) .retired
      exact hmoved.trans (hretired.trans (.of_eq (Db.refreshSpans_tombstones _ _)))
    · exact .of_eq rfl

theorem Keyed.buried_change (h : Keyed owner [] db) (hknows : Knows owner db.nextDriveId r) : Buried db (db.change r) := by
  unfold Db.change
  split
  · exact h.buried_deleteWithRows _
  · split_ifs
    · exact h.buried_split _ _
    · exact .of_eq rfl
  · cases hplan : mergePlan r.checked with
    | none => exact .of_eq rfl
    | some plan =>
      obtain ⟨into, others, notes⟩ := plan
      obtain ⟨_, hnodup, _⟩ := mergePlan_spec hknows hplan
      exact (h.buried_retireOthers _ (List.nodup_cons.mp hnodup).2 (by simp)).trans
        (.of_eq (Db.refreshSpans_tombstones _ _))
  · exact .of_eq rfl

/-- **One step** takes no tombstone back. -/
theorem Held.buried {s s' : State δ} (h : Held s owner) {op : Op δ}
    (hstep : s.apply op = some s') : Buried s.db s'.db := by
  rcases State.db_of_apply hstep with hsame | ⟨_, _, _, _, _, _, stored, hstore, hdb⟩ |
    ⟨i, r, rfl, hr, hdb⟩ | ⟨rfl, hdb⟩
  · exact .of_eq (by rw [hsame])
  · obtain ⟨_, hstored⟩ := h.keyed.storeUpload hstore
    exact .of_eq (by rw [hdb]; exact hstored.tombstones)
  · rw [hdb]
    exact h.keyed.buried_change (h.requests i _ hr)
  · exact .of_eq (by rw [hdb]; rfl)

/-! #### What an upload stores -/

theorem Db.mem_insert {reading : Reading δ} (h : row ∈ (db.insert userId key id reading).rows) :
    row ∈ db.rows ∨ row.reading = reading := by
  unfold Db.insert at h
  split_ifs at h
  · exact Or.inl h
  · rcases List.mem_append.mp h with h | h
    · exact Or.inl h
    · rw [List.mem_singleton.mp h]
      exact Or.inr rfl

theorem Db.mem_insertAll {readings : List (Reading δ)} (h : row ∈ (db.insertAll userId key id readings).rows) :
    row ∈ db.rows ∨ row.reading ∈ readings := by
  unfold Db.insertAll at h
  have hsub : ∀ r ∈ readings.filter Reading.isObs ++ readings.filter (fun r => !r.isObs),
      r ∈ readings := by
    intro r hr
    rcases List.mem_append.mp hr with hr | hr <;> exact List.mem_of_mem_filter hr
  generalize readings.filter Reading.isObs ++ readings.filter (fun r => !r.isObs) = rows at h hsub
  induction rows generalizing db with
  | nil => exact Or.inl h
  | cons reading rows ih =>
    rcases ih h fun r hr => hsub r (List.mem_cons_of_mem _ hr) with hrow | hrow
    · rcases Db.mem_insert hrow with hrow | hrow
      · exact Or.inl hrow
      · exact Or.inr (hrow ▸ hsub reading List.mem_cons_self)
    · exact Or.inr hrow

theorem Db.mem_storeGroups {groups : Db.Groups δ} (h : row ∈ (db.storeGroups userId key groups).rows) :
    row ∈ db.rows ∨ ∃ group ∈ groups, row.reading ∈ group.2 := by
  unfold Db.storeGroups Db.refreshSpans at h
  rw [(Db.foldl_refreshSpan_rows _ _).1] at h
  induction groups generalizing db with
  | nil => exact Or.inl h
  | cons group groups ih =>
    rcases ih h with hrow | ⟨group', hmem, hrow⟩
    · rcases Db.mem_insertAll hrow with hrow | hrow
      · exact Or.inl hrow
      · exact Or.inr ⟨group, List.mem_cons_self, hrow⟩
    · exact Or.inr ⟨group', List.mem_cons_of_mem _ hmem, hrow⟩

theorem reading_mem_addTo {groups : Db.Groups δ} {reading r : Reading δ}
    (h : ∃ group ∈ Db.addTo groups id reading, r ∈ group.2) :
    r = reading ∨ ∃ group ∈ groups, r ∈ group.2 := by
  induction groups with
  | nil =>
    obtain ⟨group, hmem, hr⟩ := h
    rw [List.mem_singleton.mp hmem] at hr
    exact Or.inl (List.mem_singleton.mp hr)
  | cons group groups ih =>
    obtain ⟨group', hmem, hr⟩ := h
    unfold Db.addTo at hmem
    split_ifs at hmem
    · rcases List.mem_cons.mp hmem with rfl | hmem
      · rcases List.mem_append.mp hr with hr | hr
        · exact Or.inr ⟨group, List.mem_cons_self, hr⟩
        · exact Or.inl (List.mem_singleton.mp hr)
      · exact Or.inr ⟨group', List.mem_cons_of_mem _ hmem, hr⟩
    · rcases List.mem_cons.mp hmem with rfl | hmem
      · exact Or.inr ⟨_, List.mem_cons_self, hr⟩
      · rcases ih ⟨group', hmem, hr⟩ with hr | ⟨group'', hmem', hr⟩
        · exact Or.inl hr
        · exact Or.inr ⟨group'', List.mem_cons_of_mem _ hmem', hr⟩

/-- The gap rule keeps nothing of what the tombstone drops. -/
theorem not_dropped_of_assign (userId : ℕ) (key : String) (tomb : Option Tombstone)
    (rows : List (Reading δ)) {gap : Db.Gap δ}
    (h : ∀ group ∈ gap.groups, ∀ r ∈ group.2, Db.dropped tomb r.ts = false) :
    (rows.foldl (Db.assign userId key tomb) gap).db.rows = gap.db.rows ∧
      ∀ group ∈ (rows.foldl (Db.assign userId key tomb) gap).groups, ∀ r ∈ group.2,
        Db.dropped tomb r.ts = false := by
  induction rows generalizing gap with
  | nil => exact ⟨rfl, h⟩
  | cons reading rows ih =>
    have hadded : Db.dropped tomb reading.ts = false → ∀ id, ∀ group ∈ Db.addTo gap.groups id reading,
        ∀ r ∈ group.2, Db.dropped tomb r.ts = false := by
      intro hkept id group hmem r hr
      rcases reading_mem_addTo ⟨group, hmem, hr⟩ with rfl | ⟨group', hmem', hr'⟩
      · exact hkept
      · exact h group' hmem' r hr'
    have hstep : (Db.assign userId key tomb gap reading).db.rows = gap.db.rows ∧
        ∀ group ∈ (Db.assign userId key tomb gap reading).groups, ∀ r ∈ group.2,
          Db.dropped tomb r.ts = false := by
      unfold Db.assign
      split_ifs with hdrop
      · exact ⟨rfl, h⟩
      · have hkept : Db.dropped tomb reading.ts = false := by simpa using hdrop
        cases gap.db.driveForGapRow userId key reading.ts with
        | some found => exact ⟨rfl, hadded hkept found⟩
        | none => exact ⟨rfl, hadded hkept gap.db.nextDriveId⟩
    obtain ⟨hrows, hgroups⟩ := ih hstep.2
    exact ⟨hrows.trans hstep.1, hgroups⟩

/-- **An upload that names a deleted uid** stores nothing up to the time of its tombstone. -/
theorem Db.storeUpload_deleted (hnodup : (db.tombstones.map Tombstone.uid).Nodup)
    {tomb : Tombstone} (htomb : tomb ∈ db.tombstones) {untilTs : ℤ}
    (hkind : tomb.kind = .deleted untilTs) {userId : ℕ} {key : String} {obs tracks : List (Reading δ)}
    {now : ℤ} {stored : Db δ × Db.UploadResult}
    (hstore : db.storeUpload userId key (some tomb.uid) obs tracks now = .ok stored) {row : Row δ}
    (hrow : row ∈ stored.1.rows) : row ∈ db.rows ∨ untilTs < row.reading.ts := by
  have hfind : db.tombstones.find? (fun t => t.uid = tomb.uid) = some tomb := by
    cases hfound : db.tombstones.find? (fun t => t.uid = tomb.uid) with
    | none => exact absurd (List.find?_eq_none.mp hfound tomb htomb) (by simp)
    | some t =>
      have huid : t.uid = tomb.uid := by simpa using List.find?_some hfound
      rw [List.inj_on_of_nodup_map hnodup (List.mem_of_find?_eq_some hfound) htomb huid]
  simp only [Db.storeUpload, Option.bind_some, hfind] at hstore
  split_ifs at hstore
  rw [← Except.ok.inj hstore] at hrow
  have hnone : ∀ group ∈ ({ db := db } : Db.Gap δ).groups, ∀ r ∈ group.2,
      Db.dropped (some tomb) r.ts = false := by simp
  obtain ⟨hrows, hgroups⟩ := not_dropped_of_assign userId key (some tomb) (Db.inOrder obs tracks)
    hnone
  rcases Db.mem_storeGroups hrow with hrow | ⟨group, hmem, hr⟩
  · exact Or.inl (hrows ▸ hrow)
  · right
    have hkept := hgroups group hmem row.reading hr
    simpa [Db.dropped, hkind] using hkept

/-! #### What was uploaded under a uid -/

/-- The uid that an upload names. -/
def Op.uid : Op δ → Option Uid
  | .upload _ _ uid _ _ _ => uid
  | _ => none

/-- The drive that a driver deletes, as it is stored then. -/
def deletedDrive (e : DriveEvent δ) : Option Drive :=
  match e.label with
  | .commit i =>
    match e.pre.requests i with
    | some { change := .delete, todo := [], checked := [drive], .. } => e.pre.db.get drive.id
    | _ => none
  | _ => none

/-- A row that the step stored. -/
def Stores (e : DriveEvent δ) (row : Row δ) : Prop :=
  row ∈ e.post.db.rows ∧ ∀ old ∈ e.pre.db.rows, old.id ≠ row.id

/-- The row of this number was uploaded under the uid. -/
def UploadedUnder (events : List (DriveEvent δ)) (uid : Uid) (id : ℕ) : Prop :=
  ∃ e ∈ events, e.label.uid = some uid ∧ ∃ row ∈ e.post.db.rows, row.id = id ∧
    ∀ old ∈ e.pre.db.rows, old.id ≠ row.id

/-- The drive held a row that was uploaded under the uid. -/
def EverHeld (events : List (DriveEvent δ)) (uid : Uid) (driveId : ℕ) : Prop :=
  ∃ e ∈ events, ∃ row ∈ e.post.db.rows, row.driveId = driveId ∧ UploadedUnder events uid row.id

instance (events : List (DriveEvent δ)) (uid : Uid) (id : ℕ) :
    Decidable (UploadedUnder events uid id) :=
  inferInstanceAs (Decidable (∃ e ∈ events, e.label.uid = some uid ∧ ∃ row ∈ e.post.db.rows,
    row.id = id ∧ ∀ old ∈ e.pre.db.rows, old.id ≠ row.id))

instance (events : List (DriveEvent δ)) (uid : Uid) (driveId : ℕ) :
    Decidable (EverHeld events uid driveId) :=
  inferInstanceAs (Decidable (∃ e ∈ events, ∃ row ∈ e.post.db.rows, row.driveId = driveId ∧
    UploadedUnder events uid row.id))

/-- **Deleted rows stay away.** Once no drive that ever held rows of the uid is there any
more, an upload that names it stores nothing up to the end of any of them that a driver
deleted. -/
def DeletedStays (events : List (DriveEvent δ)) (uid : Uid) : Prop :=
  ∀ before upload after, events = before ++ upload :: after → upload.label.uid = some uid →
    (∀ d ∈ upload.pre.db.drives, ¬ EverHeld before uid d.id) →
    ∀ earlier del later drive, before = earlier ++ del :: later → deletedDrive del = some drive →
      EverHeld earlier uid drive.id →
      ∀ row, Stores upload row → drive.endTs < row.reading.ts

/-- A tombstone of the uid that keeps at least this time. -/
def Keeps (db : Db δ) (uid : Uid) (endTs : ℤ) : Prop :=
  ∃ tomb ∈ db.tombstones, tomb.uid = uid ∧ ∃ untilTs, tomb.kind = .deleted untilTs ∧ endTs ≤ untilTs

/-- When a drive that ever held rows of the uid is deleted, it is the uid's own, or the
uid's tombstone keeps its time already. -/
def OwnDeletes (events : List (DriveEvent δ)) (uid : Uid) : Prop :=
  ∀ before del after drive, events = before ++ del :: after → deletedDrive del = some drive →
    EverHeld before uid drive.id → drive.uid = some uid ∨ Keeps del.pre.db uid drive.endTs

theorem Keeps.buried {db db' : Db δ} (h : Buried db db') {uid : Uid} {endTs : ℤ}
    (hkeeps : Keeps db uid endTs) : Keeps db' uid endTs := by
  obtain ⟨tomb, htomb, hrest⟩ := hkeeps
  exact ⟨tomb, h.stay tomb htomb, hrest⟩

/-- Deleting the uid's own drive leaves a tombstone that keeps its time. -/
theorem keeps_of_delete {e : DriveEvent δ} (hstep : DriveStep e.pre e.label e.post) {drive : Drive}
    (hdel : deletedDrive e = some drive) {uid : Uid} (huid : drive.uid = some uid) :
    Keeps e.post.db uid drive.endTs := by
  unfold deletedDrive at hdel
  split at hdel
  case h_2 => cases hdel
  case h_1 i hlabel =>
    split at hdel
    case h_2 => cases hdel
    case h_1 viewer read hr =>
      rw [DriveStep, hlabel, State.apply, hr] at hstep
      rw [← Option.some.inj hstep]
      show Keeps (e.pre.db.deleteWithRows read.id) uid drive.endTs
      have htombs : (e.pre.db.deleteWithRows read.id).tombstones =
          (e.pre.db.retireUid drive (.deleted drive.endTs)).tombstones := by
        unfold Db.deleteWithRows
        rw [hdel]
        rfl
      rw [Keeps, htombs, Db.retireUid, huid]
      exact ⟨_, List.mem_concat_self, rfl, _, rfl, le_rfl⟩

/-- What a run keeps in mind: every drive of the uid that was deleted. -/
theorem keeps_of_run {events : List (DriveEvent δ)} {s' : State δ}
    (hrun : Lib.Run DriveStep {} events s') {uid : Uid} (hown : OwnDeletes events uid) :
    (∃ owner, Held s' owner) ∧ (s'.db.tombstones.map Tombstone.uid).Nodup ∧
      ∀ before del after drive, events = before ++ del :: after → deletedDrive del = some drive →
        EverHeld before uid drive.id → Keeps s'.db uid drive.endTs := by
  refine hrun.history (P := fun events s' => OwnDeletes events uid → (∃ owner, Held s' owner) ∧
    (s'.db.tombstones.map Tombstone.uid).Nodup ∧
      ∀ before del after drive, events = before ++ del :: after → deletedDrive del = some drive →
        EverHeld before uid drive.id → Keeps s'.db uid drive.endTs) (C := fun _ => True)
    (fun _ _ => trivial) (fun _ => ?_) (fun h e hstep _ ih hown => ?_) hown
  · refine ⟨⟨_, keyed_empty, fun _ _ hr => by cases hr⟩, List.nodup_nil,
      fun before del after drive h => absurd h (by simp)⟩
  · have hown' : OwnDeletes h uid := by
      intro before del after drive heq
      exact hown before del (after ++ [e]) drive (by rw [heq]; simp)
    obtain ⟨⟨owner, hheld⟩, hnodup, hkeeps⟩ := ih hown'
    have hburied := hheld.buried hstep
    refine ⟨(hheld.apply hstep).imp fun _ h => h.1, hburied.unique hnodup,
      fun before del after drive heq hdel hever => ?_⟩
    rcases List.eq_nil_or_concat after with rfl | ⟨after, last, rfl⟩
    · obtain ⟨rfl, hlast⟩ := List.append_inj' heq rfl
      obtain rfl := List.singleton_inj.mp hlast
      rcases hown h _ [] drive rfl hdel hever with huid | hkept
      · exact keeps_of_delete hstep hdel huid
      · exact hkept.buried hburied
    · rw [List.concat_eq_append, ← List.cons_append, ← List.append_assoc] at heq
      obtain ⟨heq, _⟩ := List.append_inj' heq rfl
      exact (hkeeps before del after drive heq hdel hever).buried hburied

/-- **Deleted rows do not come back** in any run in which the drives that held rows of the
uid are deleted as the uid's own, or no later than its tombstone keeps. -/
theorem deleted_stays {events : List (DriveEvent δ)} {s' : State δ}
    (hrun : Lib.Run DriveStep {} events s') {uid : Uid} (hown : OwnDeletes events uid) :
    DeletedStays events uid := by
  intro before upload after heq huid _ earlier del later drive hbefore hdel hever row ⟨hrow, hnew⟩
  subst heq
  obtain ⟨hpast, hstep, _⟩ := hrun.at_event
  have hown' : OwnDeletes before uid := by
    intro b d a drive hb
    exact hown b d (a ++ upload :: after) drive (by rw [hb]; simp)
  obtain ⟨_, hnodup, hkeeps⟩ := keeps_of_run hpast hown'
  obtain ⟨tomb, htomb, rfl, untilTs, hkind, hle⟩ := hkeeps earlier del later drive hbefore hdel hever
  cases hlabel : upload.label with
  | upload userId key named obs tracks now =>
    rw [hlabel] at huid
    obtain rfl : named = some tomb.uid := huid
    rw [DriveStep, hlabel, State.apply] at hstep
    cases hstore : upload.pre.db.storeUpload userId key (some tomb.uid) obs tracks now with
    | error _ =>
      rw [hstore] at hstep
      rw [← Option.some.inj hstep] at hrow
      exact absurd rfl (hnew row hrow)
    | ok stored =>
      rw [hstore] at hstep
      rw [← Option.some.inj hstep] at hrow
      rcases Db.storeUpload_deleted hnodup htomb hkind hstore hrow with hold | hlate
      · exact absurd rfl (hnew row hold)
      · exact lt_of_le_of_lt hle hlate
  | request _ _ _ | check _ _ | commit _ | deleteEmpty =>
    rw [hlabel] at huid
    cases huid

section Runs

/-- Another reception, for a row of its own. -/
def lateReception (seconds : ℕ) (h : seconds < 253402300799 := by decide) : Reading Unit :=
  .obs ⟨seconds * 1000, seconds_lower seconds, seconds_upper h⟩ "ff66554433221100" ()

/-- A drive is deleted, and a late row of it is sent. -/
theorem deleted_stays_late : ∃ events s', Lib.Run DriveStep ({} : State Unit) events s' ∧
    s'.db.tombstones.length = 1 ∧ DeletedStays events firstUid := by
  obtain ⟨events, s', hrun, hlabels, hchecks⟩ := Lib.Run.exists_of_trace State.apply
    ({} : State Unit)
    [.upload 1 "AA" (some firstUid) [reception 1000, reception 1300] [] 2000,
      .request (some 1) .delete [1], .check 0 true, .commit 0,
      .upload 1 "AA" (some firstUid) [lateReception 1200] [] 3000]
    (fun p => p.2.db.tombstones.length = 1 && p.1.all (fun e => (deletedDrive e).all
      (fun drive => drive.uid = some firstUid))) (by decide +kernel)
  obtain ⟨htombs, hown⟩ := Bool.and_eq_true_iff.mp hchecks
  refine ⟨events, s', hrun, by simpa using htombs, deleted_stays hrun ?_⟩
  rintro before del after drive rfl hdel _
  left
  have hall := List.all_eq_true.mp hown del (by simp)
  rw [hdel] at hall
  simpa using hall

/-- The ninth event deletes a drive, and the tenth stores a row of it again. -/
def comesBack (events : List (DriveEvent Unit)) : Bool :=
  match events.drop 8 with
  | del :: upload :: _ =>
    upload.label.uid = some secondUid && upload.pre.db.drives.isEmpty &&
      (deletedDrive del).any (fun drive => EverHeld (events.take 8) secondUid drive.id &&
        upload.post.db.rows.any (fun row => row.reading.ts ≤ drive.endTs &&
          upload.pre.db.rows.all (fun old => old.id ≠ row.id)))
  | _ => false

/-- **Merged, deleted, and sent again.** A drive is merged into another one, which is deleted;
a late row of the first one's uid is stored. -/
theorem not_forall_deleted_stays : ¬ ∀ (events : List (DriveEvent Unit)) (s' : State Unit),
    Lib.Run DriveStep {} events s' → ∀ uid, DeletedStays events uid := by
  intro h
  obtain ⟨events, s', hrun, _, hchecks⟩ := Lib.Run.exists_of_trace State.apply ({} : State Unit)
    [.upload 1 "AA" (some firstUid) [reception 1000] [] 9000,
      .upload 1 "AA" (some secondUid) [reception 5000] [] 9000,
      .request (some 1) .merge [1, 2], .check 0 true, .check 0 true, .commit 0,
      .request (some 1) .delete [1], .check 1 true, .commit 1,
      .upload 1 "AA" (some secondUid) [lateReception 4900] [] 9500]
    (fun p => comesBack p.1)
    (by decide +kernel)
  dsimp only at hchecks
  unfold comesBack at hchecks
  split at hchecks
  case h_2 => cases hchecks
  case h_1 del upload after hdrop =>
    have hevents : events = (events.take 8 ++ [del]) ++ upload :: after := by
      conv_lhs => rw [← List.take_append_drop 8 events, hdrop]
      simp
    simp only [Bool.and_eq_true, decide_eq_true_eq, Option.any_eq_true, List.any_eq_true,
      List.all_eq_true] at hchecks
    obtain ⟨⟨huid, hgone⟩, drive, hdel, hever, row, hrow, hts, hnew⟩ := hchecks
    have hlate := h events s' hrun secondUid _ upload after hevents huid
      (by rw [List.isEmpty_iff.mp hgone]; simp) (events.take 8) del [] drive rfl hdel hever row
      ⟨hrow, hnew⟩
    exact absurd hts (by omega)

end Runs

end RtfmEv.Wardrive
