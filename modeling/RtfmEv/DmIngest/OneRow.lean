import Mathlib.Data.List.Nodup
import RtfmEv.DmIngest.Store

/-!
# One row for each message

The unique index keeps the rows of two messages apart and the receptions of one message
together. A look by content, which leaves out the sender, can find another sender's row:
the first of two room posts that say the same in the same second. Where it does not, each
message that is received has one row, and was broadcast as new once.
-/

namespace RtfmEv.DmIngest

open RtfmEv.Lib

namespace Db

/-! ### Rows -/

/-- Messages and ids are told apart. -/
structure Ok (db : Db) : Prop where
  dms : (db.rows.map Row.dm).Nodup
  ids : (db.rows.map Row.id).Nodup
  below : ∀ row ∈ db.rows, row.id < db.nextId

/-- The row of that id holds the message. -/
def Has (db : Db) (id : ℕ) (dm : Dm) : Prop := ∃ row ∈ db.rows, row.id = id ∧ row.dm = dm

variable {db : Db}

theorem getById_eq_some {id : ℕ} {row : Row} (h : db.getById id = some row) :
    row ∈ db.rows ∧ row.id = id :=
  ⟨List.mem_of_find?_eq_some h, by simpa using List.find?_some h⟩

/-- A look by content finds what agrees in all but the sender. -/
theorem getByContent_eq_some {dm : Dm} {row : Row} (h : db.getByContent dm = some row) :
    row ∈ db.rows ∧ row.dm.conversation = dm.conversation ∧ row.dm.text = dm.text ∧
      row.dm.ts = dm.ts := by
  have hcontent := List.find?_some h
  simp only [Bool.and_eq_true, decide_eq_true_eq] at hcontent
  exact ⟨List.mem_of_find?_eq_some h, hcontent.1.1, hcontent.1.2, hcontent.2⟩

theorem dm_of_getByContent {dm : Dm} {row : Row} (h : db.getByContent dm = some row)
    (hsender : row.dm.senderKey = dm.senderKey) : row.dm = dm := by
  obtain ⟨_, hconversation, htext, hts⟩ := getByContent_eq_some h
  cases hrow : row.dm
  cases dm
  simp_all

theorem Ok.getById (h : db.Ok) {id : ℕ} {dm : Dm} (hhas : db.Has id dm) :
    ∃ row, db.getById id = some row ∧ row.dm = dm := by
  obtain ⟨row, hrow, rfl, rfl⟩ := hhas
  cases hfound : db.getById row.id with
  | none => exact absurd (List.find?_eq_none.mp hfound row hrow) (by simp)
  | some found =>
    obtain ⟨hmem, hid⟩ := getById_eq_some hfound
    rw [List.inj_on_of_nodup_map h.ids hmem hrow hid]
    exact ⟨row, rfl, rfl⟩

theorem addPathIfNew_rows (db : Db) (id : ℕ) (heard : Heard) :
    (db.addPathIfNew id heard).rows.map (fun row => (row.id, row.dm)) =
      db.rows.map (fun row => (row.id, row.dm)) := by
  show (db.rows.map _).map _ = _
  rw [List.map_map]
  refine List.map_congr_left fun row _ => ?_
  show ((if _ then _ else row : Row).id, (if _ then _ else row : Row).dm) = _
  split_ifs <;> rfl

theorem map_id_eq (db : Db) : db.rows.map Row.id =
    (db.rows.map (fun row => (row.id, row.dm))).map Prod.fst := by
  rw [List.map_map]
  rfl

theorem map_dm_eq (db : Db) : db.rows.map Row.dm =
    (db.rows.map (fun row => (row.id, row.dm))).map Prod.snd := by
  rw [List.map_map]
  rfl

theorem has_iff {id : ℕ} {dm : Dm} :
    db.Has id dm ↔ (id, dm) ∈ db.rows.map (fun row => (row.id, row.dm)) := by
  unfold Has
  simp [List.mem_map]

end Db

/-! ### One step -/

/-- What a task relies on at a step. -/
def TaskOk (db : Db) (c : Call) : Pc → Prop
  | .byId id | .relink id | .mark id | .announce id => db.Has id c.dm
  | .addPath existing => db.Has existing.id c.dm
  | .duplicate | .touch | .done => ∃ id, db.Has id c.dm
  | _ => True

/-- A look by content finds rows of the sender only. -/
def OwnSender (db : Db) (c : Call) : Pc → Prop
  | .content | .duplicate =>
    ∀ row, db.getByContent c.dm = some row → row.dm.senderKey = c.dm.senderKey
  | _ => True

instance (db : Db) (c : Call) (pc : Pc) : Decidable (OwnSender db c pc) :=
  match pc with
  | .content | .duplicate =>
    decidable_of_iff ((db.getByContent c.dm).all (fun row => row.dm.senderKey = c.dm.senderKey))
      (by simp [OwnSender, Option.all_eq_true])
  | .lock | .linked | .byId _ | .create | .addPath _ | .relink _ | .mark _ | .announce _ | .touch
  | .done => isTrue trivial

/-- The row is stored and still to be broadcast. -/
def pends (id : ℕ) : Pc → ℕ
  | .mark i | .announce i => if i = id then 1 else 0
  | _ => 0

def announces (id : ℕ) (pc : Pc) : ℕ := if pc = .announce id then 1 else 0

/-- What one step does to the rows. -/
structure Steps (db : Db) (c : Call) (pc : Pc) (db' : Db) (pc' : Pc) : Prop where
  ok : db'.Ok
  grows : ∀ id dm, db.Has id dm → db'.Has id dm
  task : TaskOk db' c pc'
  links : ∀ packetId id, db'.links packetId = some id →
    db.links packetId = some id ∨ c.packetId = some packetId ∧ db'.Has id c.dm
  dms : ∀ id dm, db'.Has id dm → db.Has id dm ∨ dm = c.dm
  count : ∀ id, (db'.rows.map Row.id).count id + pends id pc =
    (db.rows.map Row.id).count id + pends id pc' + announces id pc

variable {c : Call} {db : Db} {forms : TextForms} {content : ℕ → Incoming} {events : List DmEvent}

/-- A step that leaves the rows. -/
theorem steps_of_rows {db db' : Db} {pc pc' : Pc} (hok : db.Ok)
    (hrows : db'.rows.map (fun row => (row.id, row.dm)) = db.rows.map (fun row => (row.id, row.dm)))
    (hnext : db'.nextId = db.nextId) (htask : TaskOk db c pc')
    (hlinks : ∀ packetId id, db'.links packetId = some id →
      db.links packetId = some id ∨ c.packetId = some packetId ∧ db.Has id c.dm)
    (hpends : ∀ id, pends id pc = pends id pc' + announces id pc) : Steps db c pc db' pc' := by
  have hhas : ∀ id dm, db'.Has id dm ↔ db.Has id dm := by
    intro id dm
    rw [Db.has_iff, hrows, Db.has_iff]
  have htask' : ∀ pc, TaskOk db' c pc ↔ TaskOk db c pc := by
    intro pc
    cases pc <;> simp only [TaskOk, hhas]
  refine ⟨⟨?_, ?_, ?_⟩, fun id dm h => (hhas id dm).mpr h, (htask' pc').mpr htask, ?_,
    fun id dm h => Or.inl ((hhas id dm).mp h), ?_⟩
  · rw [Db.map_dm_eq, hrows, ← Db.map_dm_eq]
    exact hok.dms
  · rw [Db.map_id_eq, hrows, ← Db.map_id_eq]
    exact hok.ids
  · intro row hrow
    obtain ⟨old, hold, hid, _⟩ := (hhas row.id row.dm).mp ⟨row, hrow, rfl, rfl⟩
    rw [hnext, ← hid]
    exact hok.below old hold
  · intro packetId id h
    rw [hhas]
    exact hlinks packetId id h
  · intro id
    rw [Db.map_id_eq, hrows, ← Db.map_id_eq, hpends id]
    omega

theorem pends_afterLinked (c : Call) (id : ℕ) : pends id c.afterLinked = 0 := by
  unfold Call.afterLinked
  split_ifs <;> rfl

theorem pends_reconcile (c : Call) (existing : Row) (id : ℕ) :
    pends id (c.reconcile existing) = 0 := by
  unfold Call.reconcile Call.afterPath
  split_ifs <;> rfl

theorem taskOk_afterLinked (db : Db) (c : Call) : TaskOk db c c.afterLinked := by
  unfold Call.afterLinked
  split_ifs <;> trivial

theorem taskOk_afterPath {id : ℕ} (h : db.Has id c.dm) : TaskOk db c (c.afterPath id) := by
  unfold Call.afterPath
  split_ifs
  · exact h
  · exact ⟨id, h⟩

theorem taskOk_reconcile {existing : Row} (h : db.Has existing.id c.dm) :
    TaskOk db c (c.reconcile existing) := by
  unfold Call.reconcile
  split_ifs
  · exact h
  · exact taskOk_afterPath h

theorem dm_of_found {pc : Pc} (hok : db.Ok) (htask : TaskOk db c pc)
    (hsender : OwnSender db c pc) {row : Row} (h : db.found c pc = some row) :
    row ∈ db.rows ∧ row.dm = c.dm := by
  cases pc with
  | byId id =>
    obtain ⟨found, hfound, hdm⟩ := hok.getById htask
    rw [← Option.some.inj (hfound.symm.trans h)]
    exact ⟨(Db.getById_eq_some hfound).1, hdm⟩
  | content
  | duplicate => exact ⟨(Db.getByContent_eq_some h).1, Db.dm_of_getByContent h (hsender row h)⟩
  | _ => cases h

theorem create_eq_some {db db' : Db} {id : ℕ} (h : db.create c = some (id, db')) :
    id = db.nextId ∧ c.dm ∉ db.rows.map Row.dm ∧ ∃ row : Row, row.id = db.nextId ∧
      row.dm = c.dm ∧ db' = { db with rows := db.rows ++ [row], nextId := db.nextId + 1 } := by
  unfold Db.create at h
  split_ifs at h with hany
  obtain ⟨rfl, rfl⟩ := Prod.mk.inj (Option.some.inj h)
  exact ⟨rfl, by simpa [List.mem_map] using hany, _, rfl, rfl, rfl⟩

theorem create_eq_none (h : db.create c = none) : ∃ id, db.Has id c.dm := by
  unfold Db.create at h
  split_ifs at h with hany
  obtain ⟨row, hrow, hdm⟩ := List.any_eq_true.mp hany
  exact ⟨row.id, row, hrow, rfl, of_decide_eq_true hdm⟩

theorem steps_create {db db' : Db} (hok : db.Ok) {id : ℕ}
    (h : db.create c = some (id, db')) : Steps db c .create db' (c.afterCreate id) := by
  obtain ⟨rfl, hnew, row, hid, hdm, rfl⟩ := create_eq_some h
  have hhas : ∀ i dm, Db.Has { db with rows := db.rows ++ [row], nextId := db.nextId + 1 } i dm ↔
      db.Has i dm ∨ i = db.nextId ∧ dm = c.dm := by
    intro i dm
    rw [← hid, ← hdm]
    constructor
    · rintro ⟨r, hr, rfl, rfl⟩
      rcases List.mem_append.mp hr with hr | hr
      · exact Or.inl ⟨r, hr, rfl, rfl⟩
      · rw [List.mem_singleton.mp hr]
        exact Or.inr ⟨rfl, rfl⟩
    · rintro (⟨r, hr, rfl, rfl⟩ | ⟨rfl, rfl⟩)
      · exact ⟨r, List.mem_append_left _ hr, rfl, rfl⟩
      · exact ⟨row, List.mem_concat_self, rfl, rfl⟩
  have hfresh : db.nextId ∉ db.rows.map Row.id := by
    intro hmem
    obtain ⟨r, hr, hrid⟩ := List.mem_map.mp hmem
    exact Nat.ne_of_lt (hok.below r hr) hrid
  refine ⟨⟨?_, ?_, ?_⟩, fun i dm hi => (hhas i dm).mpr (Or.inl hi), ?_, fun _ _ hlink => Or.inl hlink,
    ?_, ?_⟩
  · show ((db.rows ++ [row]).map Row.dm).Nodup
    rw [List.map_append, List.nodup_append_comm, List.map_singleton, hdm]
    exact List.nodup_cons.mpr ⟨hnew, hok.dms⟩
  · show ((db.rows ++ [row]).map Row.id).Nodup
    rw [List.map_append, List.nodup_append_comm, List.map_singleton, hid]
    exact List.nodup_cons.mpr ⟨hfresh, hok.ids⟩
  · intro r hr
    rcases List.mem_append.mp hr with hr | hr
    · exact Nat.lt_succ_of_lt (hok.below r hr)
    · rw [List.mem_singleton.mp hr, hid]
      exact Nat.lt_succ_self _
  · have hnow := (hhas db.nextId c.dm).mpr (Or.inr ⟨rfl, rfl⟩)
    unfold Call.afterCreate
    split_ifs
    · exact hnow
    · exact hnow
  · intro i dm hi
    exact ((hhas i dm).mp hi).imp_right And.right
  · intro i
    have hpends : pends i (c.afterCreate db.nextId) = if db.nextId = i then 1 else 0 := by
      unfold Call.afterCreate
      split_ifs <;> simp_all [pends]
    have hcount : ((db.rows ++ [row]).map Row.id).count i =
        (db.rows.map Row.id).count i + if db.nextId = i then 1 else 0 := by
      rw [List.map_append, List.count_append, List.map_singleton, hid, List.count_singleton]
      simp
    show ((db.rows ++ [row]).map Row.id).count i + 0 = _ + _ + 0
    rw [hcount, hpends]

/-- **What a step of an ingest does.** -/
theorem exec_steps {pc : Pc} (hok : db.Ok) (htask : TaskOk db c pc) (hsender : OwnSender db c pc)
    (hlinks : ∀ packetId id, c.packetId = some packetId → db.links packetId = some id →
      db.Has id c.dm) : Steps db c pc (db.exec c pc).1 (db.exec c pc).2 := by
  have hstay : ∀ {pc'}, TaskOk db c pc' → (∀ id, pends id pc = pends id pc' + announces id pc) →
      Steps db c pc db pc' := fun htask' hpends =>
    steps_of_rows hok rfl rfl htask' (fun _ _ h => Or.inl h) hpends
  have hfound : ∀ row, db.found c pc = some row → TaskOk db c (c.reconcile row) := by
    intro row hrow
    obtain ⟨hmem, hdm⟩ := dm_of_found hok htask hsender hrow
    exact taskOk_reconcile ⟨row, hmem, rfl, hdm⟩
  have hmark : ∀ {pc'} packetId id, c.packetId = some packetId → db.Has id c.dm → TaskOk db c pc' →
      (∀ i, pends i pc = pends i pc' + announces i pc) →
      Steps db c pc (db.markDecrypted packetId id) pc' := by
    intro pc' packetId id hpacket hhas htask' hpends
    refine steps_of_rows hok rfl rfl htask' (fun p i hlink => ?_) hpends
    by_cases hp : p = packetId
    · rw [hp] at hlink ⊢
      have hid : id = i := by simpa [Db.markDecrypted] using hlink
      exact Or.inr ⟨hpacket, hid ▸ hhas⟩
    · left
      simpa [Db.markDecrypted, hp] using hlink
  cases pc with
  | linked =>
    unfold Db.exec
    dsimp only
    cases hlink : c.packetId.bind db.links with
    | none => exact hstay (taskOk_afterLinked db c) fun id => (pends_afterLinked c id).symm
    | some id =>
      obtain ⟨packetId, hpacket, hid⟩ := Option.bind_eq_some_iff.mp hlink
      exact hstay (hlinks packetId id hpacket hid) fun _ => rfl
  | byId id =>
    unfold Db.exec
    dsimp only
    cases hrow : db.getById id with
    | none => exact hstay (taskOk_afterLinked db c) fun i => (pends_afterLinked c i).symm
    | some row => exact hstay (hfound row hrow) fun i => (pends_reconcile c row i).symm
  | content =>
    unfold Db.exec
    dsimp only
    cases hrow : db.getByContent c.dm with
    | none => exact hstay trivial fun _ => rfl
    | some row => exact hstay (hfound row hrow) fun i => (pends_reconcile c row i).symm
  | create =>
    unfold Db.exec
    dsimp only
    cases hcreate : db.create c with
    | none => exact hstay (create_eq_none hcreate) fun _ => rfl
    | some next => exact steps_create hok hcreate
  | duplicate =>
    unfold Db.exec
    dsimp only
    cases hrow : db.getByContent c.dm with
    | none => exact hstay htask fun _ => rfl
    | some row => exact hstay (hfound row hrow) fun i => (pends_reconcile c row i).symm
  | addPath existing =>
    have hpends : ∀ i, pends i (.addPath existing) = pends i (c.afterPath existing.id) +
        announces i (.addPath existing) := by
      intro i
      unfold Call.afterPath
      split_ifs <;> rfl
    unfold Db.exec
    dsimp only
    cases c.path with
    | none => exact hstay (taskOk_afterPath htask) hpends
    | some path =>
      exact steps_of_rows hok (Db.addPathIfNew_rows db _ _) rfl (taskOk_afterPath htask)
        (fun _ _ h => Or.inl h) hpends
  | relink id =>
    unfold Db.exec
    dsimp only
    cases hpacket : c.packetId with
    | none => exact hstay ⟨id, htask⟩ fun _ => rfl
    | some packetId => exact hmark packetId id hpacket htask ⟨id, htask⟩ fun _ => rfl
  | mark id =>
    unfold Db.exec
    dsimp only
    cases hpacket : c.packetId with
    | none => exact hstay htask fun _ => rfl
    | some packetId => exact hmark packetId id hpacket htask htask fun _ => rfl
  | announce id =>
    have hafter : ∀ i, pends i c.afterAnnounce = 0 := by
      intro i
      unfold Call.afterAnnounce
      split_ifs <;> rfl
    show Steps db c (.announce id) db c.afterAnnounce
    refine hstay ?_ fun i => ?_
    · unfold Call.afterAnnounce
      split_ifs
      · exact ⟨id, htask⟩
      · exact ⟨id, htask⟩
    · rw [hafter]
      simp [pends, announces]
  | touch => exact hstay htask fun _ => rfl
  | done => exact hstay htask fun _ => rfl
  | lock =>
    have hfirst : TaskOk db c c.first ∧ ∀ i, pends i c.first = 0 := by
      unfold Call.first
      split_ifs
      · exact ⟨trivial, fun _ => rfl⟩
      · exact ⟨taskOk_afterLinked db c, fun i => pends_afterLinked c i⟩
    exact hstay hfirst.1 fun i => (hfirst.2 i).symm

/-! ### Runs -/

/-- A look by content finds rows of the sender only, at the step of an event. -/
def LooksUpOwn (e : DmEvent) : Prop := ∀ t, runs e = some t → OwnSender e.pre.db t.call t.pc

instance (e : DmEvent) : Decidable (LooksUpOwn e) :=
  decidable_of_iff ((runs e).all (fun t => OwnSender e.pre.db t.call t.pc))
    (by simp [LooksUpOwn, Option.all_eq_true])

/-- What holds after the events of a run. -/
structure Good (forms : TextForms) (content : ℕ → Incoming) (events : List DmEvent) (s : State) :
    Prop where
  ok : s.db.Ok
  tasks : ∀ t ∈ s.tasks, TaskOk s.db t.call t.pc
  packets : ∀ t ∈ s.tasks, ∀ packetId, t.call.packetId = some packetId →
    t.call.dm = (content packetId).dm forms
  links : ∀ packetId id, s.db.links packetId = some id → s.db.Has id ((content packetId).dm forms)
  heard : ∀ id dm, s.db.Has id dm → ∃ t ∈ s.tasks, t.call.dm = dm
  count : ∀ id, (s.db.rows.map Row.id).count id =
    (s.tasks.map (fun t => pends id t.pc)).sum + announcements events id
  merged : ∀ e ∈ events, ∀ c row, mergedInto e = some (c, row) → row.dm = c.dm

theorem good_start : Good forms content [] {} :=
  ⟨⟨List.nodup_nil, List.nodup_nil, fun _ h => (by cases h)⟩, fun _ h => (by cases h),
    fun _ h => (by cases h), fun _ _ h => (by cases h), fun _ _ h => (by obtain ⟨_, h, _⟩ := h; cases h),
    fun _ => rfl, fun _ h => (by cases h)⟩

theorem announcements_append (events : List DmEvent) (e : DmEvent) (id : ℕ) :
    announcements (events ++ [e]) id =
      announcements events id + if (runs e).any (fun t => t.pc = .announce id) then 1 else 0 := by
  unfold announcements
  rw [List.countP_append, List.countP_singleton]

theorem mergedInto_of_runs_none {e : DmEvent} (h : runs e = none) : mergedInto e = none := by
  unfold mergedInto
  rw [h]
  rfl

theorem Good.spawn {s : State} (h : Good forms content events s) {c : Call}
    (hpacket : ∀ packetId, c.packetId = some packetId → c.dm = (content packetId).dm forms)
    {e : DmEvent} (hruns : runs e = none) : Good forms content (events ++ [e]) (s.spawn c) := by
  have hstart : TaskOk s.db c c.start ∧ ∀ id, pends id c.start = 0 := by
    unfold Call.start Call.first
    split_ifs
    · exact ⟨trivial, fun _ => rfl⟩
    · exact ⟨trivial, fun _ => rfl⟩
    · exact ⟨taskOk_afterLinked s.db c, pends_afterLinked c⟩
  have hmem : ∀ t, t ∈ (s.spawn c).tasks → t ∈ s.tasks ∨ t = ⟨c, c.start⟩ := by
    intro t ht
    exact (List.mem_append.mp ht).imp_right List.mem_singleton.mp
  refine ⟨h.ok, fun t ht => ?_, fun t ht => ?_, h.links, fun id dm hhas => ?_, fun id => ?_,
    fun e' he' c' row hmerged => ?_⟩
  · rcases hmem t ht with ht | rfl
    · exact h.tasks t ht
    · exact hstart.1
  · rcases hmem t ht with ht | rfl
    · exact h.packets t ht
    · exact hpacket
  · obtain ⟨t, ht, hdm⟩ := h.heard id dm hhas
    exact ⟨t, List.mem_append_left _ ht, hdm⟩
  · have hcount := h.count id
    rw [announcements_append, hruns]
    show (s.db.rows.map Row.id).count id = ((s.tasks ++ [_]).map _).sum + _
    rw [List.map_append, List.sum_append, hcount]
    simp [hstart.2 id]
  · rcases List.mem_append.mp he' with he' | he'
    · exact h.merged e' he' c' row hmerged
    · rw [List.mem_singleton.mp he', mergedInto_of_runs_none hruns] at hmerged
      cases hmerged

theorem mem_modify {α : Type} {l : List α} {i : ℕ} {g : α → α} {a : α} (h : a ∈ l.modify i g) :
    a ∈ l ∨ ∃ b, l[i]? = some b ∧ a = g b := by
  obtain ⟨j, hj⟩ := List.mem_iff_getElem?.mp h
  rw [List.getElem?_modify] at hj
  obtain ⟨b, hb, rfl⟩ := Option.map_eq_some_iff.mp hj
  split_ifs with hij
  · exact Or.inr ⟨b, hij ▸ hb, rfl⟩
  · exact Or.inl (List.mem_of_getElem? hb)

/-- An ingest that goes on. -/
theorem Good.advance {s : State} (h : Good forms content events s) {i : ℕ}
    {t : Task} (ht : s.tasks[i]? = some t) {e : DmEvent} (hpre : e.pre = s)
    (hruns : runs e = some t)
    (hown : LooksUpOwn e) : Good forms content (events ++ [e]) (s.advance i t) := by
  have hmem := List.mem_of_getElem? ht
  have hsender : OwnSender s.db t.call t.pc := hpre ▸ hown t hruns
  have hsteps := exec_steps h.ok (h.tasks t hmem) hsender fun packetId id hpacket hlink => by
    rw [h.packets t hmem packetId hpacket]
    exact h.links packetId id hlink
  have hcases : ∀ t', t' ∈ (s.advance i t).tasks → t' ∈ s.tasks ∨
      t' = { t with pc := (s.db.exec t.call t.pc).2 } := by
    intro t' ht'
    rcases mem_modify ht' with ht' | ⟨b, hb, rfl⟩
    · exact Or.inl ht'
    · rw [Option.some.inj (ht.symm.trans hb)]
      exact Or.inr rfl
  have hgrows : ∀ c pc, TaskOk s.db c pc → TaskOk (s.advance i t).db c pc := by
    intro c pc hpc
    cases pc with
    | duplicate | touch | done => exact hpc.imp fun id => hsteps.grows id c.dm
    | byId id | relink id | mark id | announce id => exact hsteps.grows id c.dm hpc
    | addPath existing => exact hsteps.grows existing.id c.dm hpc
    | _ => trivial
  have hkept : ∀ c, (∃ t' ∈ s.tasks, t'.call = c) → ∃ t' ∈ (s.advance i t).tasks, t'.call = c := by
    rintro c ⟨t', ht', rfl⟩
    obtain ⟨j, hj⟩ := List.mem_iff_getElem?.mp ht'
    refine ⟨if i = j then { t' with pc := (s.db.exec t.call t.pc).2 } else t', ?_, ?_⟩
    · refine List.mem_iff_getElem?.mpr ⟨j, ?_⟩
      show (s.tasks.modify i _)[j]? = _
      rw [List.getElem?_modify, hj]
      split_ifs <;> rfl
    · split_ifs <;> rfl
  refine ⟨hsteps.ok, fun t' ht' => ?_, fun t' ht' => ?_, fun packetId id hlink => ?_,
    fun id dm hhas => ?_, fun id => ?_, fun e' he' c row hmerged => ?_⟩
  · rcases hcases t' ht' with ht' | rfl
    · exact hgrows _ _ (h.tasks t' ht')
    · exact hsteps.task
  · rcases hcases t' ht' with ht' | rfl
    · exact h.packets t' ht'
    · exact h.packets t hmem
  · rcases hsteps.links packetId id hlink with hlink | ⟨hpacket, hhas⟩
    · exact hsteps.grows id _ (h.links packetId id hlink)
    · rw [← h.packets t hmem packetId hpacket]
      exact hhas
  · rcases hsteps.dms id dm hhas with hhas | rfl
    · obtain ⟨t', ht', hdm⟩ := h.heard id dm hhas
      obtain ⟨t'', ht'', hcall⟩ := hkept t'.call ⟨t', ht', rfl⟩
      exact ⟨t'', ht'', (congrArg Call.dm hcall).trans hdm⟩
    · obtain ⟨t', ht', hcall⟩ := hkept t.call ⟨t, hmem, rfl⟩
      exact ⟨t', ht', congrArg Call.dm hcall⟩
  · have hsum : (((s.advance i t).tasks).map (fun t => pends id t.pc)).sum + pends id t.pc =
        (s.tasks.map (fun t => pends id t.pc)).sum + pends id (s.db.exec t.call t.pc).2 :=
      TaskTable.sum_map_modify (fun t => pends id t.pc)
        (fun t' => { t' with pc := (s.db.exec t.call t.pc).2 }) ht
    have hstep := hsteps.count id
    have hcount := h.count id
    have hannounces : (if (runs e).any (fun t => t.pc = .announce id) then 1 else 0) =
        announces id t.pc := by
      rw [hruns]
      simp [announces]
    rw [announcements_append, hannounces]
    show (((s.db.exec t.call t.pc).1.rows).map Row.id).count id = _
    omega
  · rcases List.mem_append.mp he' with he' | he'
    · exact h.merged e' he' c row hmerged
    · rw [List.mem_singleton.mp he'] at hmerged
      unfold mergedInto at hmerged
      rw [hruns, hpre] at hmerged
      obtain ⟨found, hfound, heq⟩ := Option.map_eq_some_iff.mp hmerged
      obtain ⟨rfl, rfl⟩ := Prod.mk.inj heq
      exact (dm_of_found h.ok (h.tasks t hmem) hsender hfound).2

theorem Good.step {s s' : State} {move : Move}
    (h : Good forms content events s) (hstep : DmStep forms content s move s')
    (hown : LooksUpOwn ⟨s, move, s'⟩) : Good forms content (events ++ [⟨s, move, s'⟩]) s' := by
  cases move with
  | decrypted packetId receivedAt path pathLen =>
    obtain rfl := Option.some.inj hstep
    exact h.spawn (fun p hp => by cases hp; rfl) rfl
  | fallback m receivedAt path pathLen updateLastContacted =>
    obtain rfl := Option.some.inj hstep
    exact h.spawn (fun p hp => by cases hp) rfl
  | run i =>
    cases ht : s.tasks[i]? with
    | none =>
      unfold DmStep State.apply at hstep
      simp only [ht] at hstep
      cases hstep
    | some t =>
      have hgood := h.advance (e := ⟨s, .run i, s'⟩) ht rfl ht hown
      unfold DmStep State.apply at hstep
      simp only [ht] at hstep
      split at hstep
      · cases hstep
      · split_ifs at hstep
        obtain rfl := Option.some.inj hstep
        exact ⟨hgood.ok, hgood.tasks, hgood.packets, hgood.links, hgood.heard, hgood.count,
          hgood.merged⟩
      · obtain rfl := Option.some.inj hstep
        exact hgood

/-- **One message, one row; two messages, two rows.** Receptions are merged into rows of their
message only; after all ingests the messages of the rows are those received, each once, and
each row was broadcast as new once. -/
structure OneRow (events : List DmEvent) (s : State) : Prop where
  merged : ∀ e ∈ events, ∀ c row, mergedInto e = some (c, row) → row.dm = c.dm
  distinct : s.finished = true → (s.db.rows.map Row.dm).Nodup
  received : s.finished = true →
    ∀ dm, dm ∈ s.db.rows.map Row.dm ↔ ∃ t ∈ s.tasks, t.call.dm = dm
  announced : s.finished = true → ∀ row ∈ s.db.rows, announcements events row.id = 1

theorem Good.oneRow {s : State} (h : Good forms content events s) : OneRow events s := by
  have hdone : s.finished = true → ∀ t ∈ s.tasks, t.pc = .done := by
    intro hfinished t ht
    exact of_decide_eq_true (List.all_eq_true.mp hfinished t ht)
  refine ⟨h.merged, fun _ => h.ok.dms, fun hfinished dm => ⟨fun hdm => ?_, ?_⟩,
    fun hfinished row hrow => ?_⟩
  · obtain ⟨row, hrow, rfl⟩ := List.mem_map.mp hdm
    exact h.heard row.id row.dm ⟨row, hrow, rfl, rfl⟩
  · rintro ⟨t, ht, rfl⟩
    have htask := h.tasks t ht
    rw [hdone hfinished t ht] at htask
    obtain ⟨id, row, hrow, _, hdm⟩ := htask
    exact List.mem_map.mpr ⟨row, hrow, hdm⟩
  · have hsum : (s.tasks.map (fun t => pends row.id t.pc)).sum = 0 := by
      refine List.sum_eq_zero fun n hn => ?_
      obtain ⟨t, ht, rfl⟩ := List.mem_map.mp hn
      rw [hdone hfinished t ht]
      rfl
    have hcount := h.count row.id
    rw [hsum, List.count_eq_one_of_mem h.ok.ids (List.mem_map_of_mem hrow)] at hcount
    omega

/-- **When each message has one row.** -/
theorem one_row_iff {events : List DmEvent} {s : State}
    (hrun : Lib.Run (DmStep forms content) {} events s) :
    OneRow events s ↔ ∀ e ∈ events, LooksUpOwn e := by
  constructor
  · intro h e he t hruns
    have hmerged : ∀ row, e.pre.db.found t.call t.pc = some row → row.dm = t.call.dm := by
      intro row hrow
      refine h.merged e he t.call row ?_
      unfold mergedInto
      rw [hruns]
      exact Option.map_eq_some_iff.mpr ⟨row, hrow, rfl⟩
    cases hpc : t.pc with
    | content | duplicate =>
      rw [hpc] at hmerged
      exact fun row hrow => congrArg Dm.senderKey (hmerged row hrow)
    | _ => trivial
  · intro hown
    have hgood : Good forms content events s :=
      hrun.history hown good_start fun _ _ hstep hown h => h.step hstep hown
    exact hgood.oneRow

/-! ### A message that comes twice, and two posts that say the same -/

def plainForms : TextForms := ⟨id, id⟩

def firstAuthor : Key := ⟨"aa", by decide, by decide +kernel⟩
def secondAuthor : Key := ⟨"bb", by decide, by decide +kernel⟩

/-- A post in a room. -/
def post (author : Key) : Incoming := ⟨"cc", author, "good morning", 2, 1700000000, by decide⟩

/-- A post is decrypted from its packet while the radio hands it over. -/
theorem one_row_twice : ∃ events s, Lib.Run (DmStep plainForms (fun _ => post firstAuthor)) {}
    events s ∧ s.finished = true ∧ s.db.rows.length = 1 ∧ OneRow events s := by
  obtain ⟨events, s, hrun, _, hchecks⟩ := Lib.Run.exists_of_trace
    (State.apply plainForms (fun _ => post firstAuthor)) ({} : State)
    [.decrypted 7 1700000001 (some "ab12") (some 2), .run 0,
      .fallback (post firstAuthor) 1700000001 none none true, .run 1, .run 0, .run 0, .run 1, .run 1,
      .run 0, .run 0, .run 0]
    (fun p => p.2.finished && p.2.db.rows.length = 1 && p.1.all (fun e => LooksUpOwn e))
    (by decide +kernel)
  simp only [Bool.and_eq_true, decide_eq_true_eq] at hchecks
  refine ⟨events, s, hrun, hchecks.1.1, hchecks.1.2, (one_row_iff hrun).mpr fun e he => ?_⟩
  exact of_decide_eq_true (List.all_eq_true.mp hchecks.2 e he)

/-- **Somebody's post is dropped.** The radio hands over two posts of two authors that say the
same in the same second; the second one gets no row. -/
theorem not_forall_one_row : ¬ ∀ (content : ℕ → Incoming) (events : List DmEvent) (s : State),
    Lib.Run (DmStep plainForms content) {} events s → OneRow events s := by
  intro h
  obtain ⟨events, s, hrun, _, hchecks⟩ := Lib.Run.exists_of_trace
    (State.apply plainForms (fun _ => post firstAuthor)) ({} : State)
    [.fallback (post firstAuthor) 1700000001 none none true, .run 0, .run 0, .run 0, .run 0,
      .fallback (post secondAuthor) 1700000001 none none true, .run 1]
    (fun p => p.2.finished && decide ((post secondAuthor).dm plainForms ∉ p.2.db.rows.map Row.dm) &&
      p.2.tasks.any (fun t => t.call.dm = (post secondAuthor).dm plainForms))
    (by decide +kernel)
  simp only [Bool.and_eq_true, decide_eq_true_eq] at hchecks
  obtain ⟨t, ht, hdm⟩ := List.any_eq_true.mp hchecks.2
  exact hchecks.1.2 (((h _ events s hrun).received hchecks.1.1 _).mpr
    ⟨t, ht, of_decide_eq_true hdm⟩)

end RtfmEv.DmIngest
