import Mathlib.Data.Finset.Card
import Mathlib.Data.Rat.Defs
import RtfmEv.DmIngest.OneRow

/-!
# Echoes of a channel message (`app/services/messages.py`, `app/repository/messages.py`)

An echo of a message that is stored already is merged into its row: its path is added by
one statement, the list is read back by another, and a third one counts the echo if it is
a new route of an outgoing channel message. Each statement is one step, and the steps of
other echoes come between any two. The model follows one row.
-/

namespace RtfmEv.ChannelEcho

open RtfmEv.Lib

inductive MsgType
  | priv
  | chan
  deriving DecidableEq

inductive SendStatus
  | pending
  | confirmed
  | unknown
  deriving DecidableEq

/-- A way that a message was heard. -/
structure MessagePath where
  path : String
  receivedAt : ℤ
  pathLen : Option ℕ
  rssi : Option ℤ
  snr : Option ℚ
  deriving DecidableEq

/-- The fields of a row that an echo reads or writes. -/
structure Row where
  type : MsgType
  outgoing : Bool
  txtType : ℕ
  packetId : Option ℕ
  sendStatus : SendStatus
  failedAt : Option ℤ
  acked : ℕ
  paths : List MessagePath
  deriving DecidableEq

def txtTypeGroupData : ℕ := 0x40

/-- The row that `create_outgoing_channel_message` stores. -/
def outgoingChannelRow (sendStatus : SendStatus) : Row where
  type := .chan
  outgoing := true
  txtType := 0
  packetId := none
  sendStatus := sendStatus
  failedAt := none
  acked := 0
  paths := []

namespace Row

/-- The routes that are stored. -/
def routes (row : Row) : List String := row.paths.map MessagePath.path

/-- The statement of `add_path`. -/
def addPath (row : Row) (entry : MessagePath) : Row :=
  { row with paths := row.paths ++ [entry] }

/-- The statement of `add_path_if_new`, and whether it changed the row. -/
def addPathIfNew (row : Row) (entry : MessagePath) : Bool × Row :=
  if row.paths.length < DmIngest.Db.maxStoredPaths ∧ entry.path ∉ row.routes then
    (true, { row with paths := row.paths ++ [entry] })
  else (false, row)

/-- The statement of `increment_ack_count`. -/
def incrementAckCount (row : Row) : Row :=
  { row with
    acked := row.acked + 1
    failedAt := none
    sendStatus := .confirmed }

end Row

/-- An echo as it is received. -/
structure Echo where
  packetId : Option ℕ
  path : Option String
  receivedAt : ℤ
  pathLen : Option ℕ
  rssi : Option ℤ
  snr : Option ℚ
  deriving DecidableEq

def Echo.entry (echo : Echo) (path : String) : MessagePath :=
  ⟨path, echo.receivedAt, echo.pathLen, echo.rssi, echo.snr⟩

/-- A `message_acked` payload. -/
structure Acked where
  ackCount : ℕ
  paths : List MessagePath
  packetId : Option ℕ
  deriving DecidableEq

/-- The statement that a call of `reconcile_duplicate_message` executes next. -/
inductive Pc
  | addPath (path : String)
  | addPathIfNew (path : String)
  | getPaths (newRoute : Bool)
  | increment (paths : List MessagePath)
  | markDecrypted (packetId : ℕ)
  | done
  deriving DecidableEq

/-- A call of `reconcile_duplicate_message`, with the row as it was found. -/
structure Call where
  existing : Row
  echo : Echo

/-- The row, what was broadcast of it and the packets that are linked to it. -/
structure Db where
  row : Row
  sent : List Acked := []
  decrypted : List ℕ := []

namespace Call

/-- The broadcast, and the link of the packet after it. -/
def finish (c : Call) (db : Db) (ackCount : ℕ) (paths : List MessagePath) : Db × Pc :=
  ({ db with
      sent :=
        if c.existing.outgoing || c.echo.path.isSome then
          db.sent ++ [⟨ackCount, paths, c.existing.packetId.or c.echo.packetId⟩]
        else db.sent },
    match c.echo.packetId with
    | some packetId => .markDecrypted packetId
    | none => .done)

/-- The echo is counted if it is a new route of an outgoing channel message. -/
def count (c : Call) (db : Db) (newRoute : Bool) (paths : List MessagePath) : Db × Pc :=
  if c.existing.outgoing && c.existing.type = .chan && newRoute then (db, .increment paths)
  else c.finish db c.existing.acked paths

/-- Up to the first statement. -/
def start (c : Call) (db : Db) : Db × Pc :=
  match c.echo.path with
  | some path =>
    if c.existing.txtType = txtTypeGroupData then (db, .addPath path) else (db, .addPathIfNew path)
  | none => c.count db true c.existing.paths

/-- A statement, with what follows it up to the next one. -/
def exec (c : Call) (db : Db) : Pc → Db × Pc
  | .addPath path =>
    ({ db with row := db.row.addPath (c.echo.entry path) }, .getPaths true)
  | .addPathIfNew path =>
    ({ db with row := (db.row.addPathIfNew (c.echo.entry path)).2 },
      .getPaths (db.row.addPathIfNew (c.echo.entry path)).1)
  | .getPaths newRoute => c.count db newRoute db.row.paths
  | .increment paths =>
    c.finish { db with row := db.row.incrementAckCount } (db.row.acked + 1) paths
  | .markDecrypted packetId => ({ db with decrypted := db.decrypted ++ [packetId] }, .done)
  | .done => (db, .done)

end Call

structure Task where
  call : Call
  pc : Pc

structure State where
  db : Db
  tasks : List Task := []

/-- An echo is found to be one of the row, or a call goes on. -/
inductive Op
  | echo (e : Echo)
  | run (i : ℕ)
  deriving DecidableEq

namespace State

def ofRow (row : Row) : State := { db := { row := row } }

def step (s : State) : Op → Option State
  | .echo e =>
    some
      { db := (Call.start ⟨s.db.row, e⟩ s.db).1
        tasks := s.tasks ++ [⟨⟨s.db.row, e⟩, (Call.start ⟨s.db.row, e⟩ s.db).2⟩] }
  | .run i =>
    match s.tasks[i]? with
    | none => none
    | some t =>
      if t.pc = .done then none
      else
        some
          { db := (t.call.exec s.db t.pc).1
            tasks := s.tasks.modify i fun t' => { t' with pc := (t.call.exec s.db t.pc).2 } }

/-- Every echo has been dealt with. -/
def finished (s : State) : Bool := s.tasks.all fun t => t.pc = .done

/-- A run of the echoes of one row. -/
abbrev Runs (s : State) (h : List (Event State Op)) (s' : State) : Prop :=
  Run (fun s op s' => s.step op = some s') s h s'

end State

/-- The route of an echo that is received. -/
def Op.route : Op → Option String
  | .echo e => e.path
  | .run _ => none

/-- The distinct routes that were heard. -/
def heardRoutes (ops : List Op) : Finset String := (ops.filterMap Op.route).toFinset

/-!
## How often a message was heard

An outgoing channel message has as many echoes counted as routes stored, but for those
calls that have stored a route and not yet counted it. A route that was heard is stored,
or the list is full, or a call is about to store it.
-/

open RtfmEv.Lib DmIngest.Db

/-- The echo is stored and will be counted. -/
def Pc.owed : Pc → ℕ
  | .getPaths true => 1
  | .increment _ => 1
  | _ => 0

/-- The statement stores a path. -/
def Pc.stores : Pc → Bool
  | .addPath _ => true
  | .addPathIfNew _ => true
  | _ => false

theorem Pc.ne_addPathIfNew {pc : Pc} (h : pc.stores = false) (path : String) :
    pc ≠ .addPathIfNew path := by
  rintro rfl
  cases h

theorem Pc.ne_addPath {pc : Pc} (h : pc.stores = false) (path : String) : pc ≠ .addPath path := by
  rintro rfl
  cases h

/-- The fields of an outgoing channel message that an echo looks at. -/
structure Row.OfChannel (row : Row) : Prop where
  type : row.type = .chan
  outgoing : row.outgoing = true
  txtType : row.txtType = 0

/-- A call for an echo whose path is known, of the routes heard. -/
structure Task.Ok (heard : Finset String) (t : Task) : Prop where
  existing : t.call.existing.OfChannel
  path : ∃ path, t.call.echo.path = some path ∧ path ∈ heard
  addPath : ∀ path, t.pc ≠ .addPath path
  addPathIfNew : ∀ path, t.pc = .addPathIfNew path → path ∈ heard

/-- **The invariant**, for the routes heard so far. -/
structure State.Counts (heard : Finset String) (s : State) : Prop where
  ofChannel : s.db.row.OfChannel
  tasks : ∀ t ∈ s.tasks, t.Ok heard
  nodup : s.db.row.routes.Nodup
  room : s.db.row.paths.length ≤ maxStoredPaths
  known : ∀ path ∈ s.db.row.routes, path ∈ heard
  acked : s.db.row.acked + (s.tasks.map fun t => t.pc.owed).sum = s.db.row.paths.length
  stored : ∀ path ∈ heard, path ∈ s.db.row.routes ∨ s.db.row.paths.length = maxStoredPaths ∨
    ∃ t ∈ s.tasks, t.pc = .addPathIfNew path

namespace State

theorem counts_ofRow (sendStatus : SendStatus) :
    (ofRow (outgoingChannelRow sendStatus)).Counts ∅ where
  ofChannel := ⟨rfl, rfl, rfl⟩
  tasks t ht := by cases ht
  nodup := List.nodup_nil
  room := Nat.zero_le _
  known path hp := by cases hp
  acked := rfl
  stored path hp := absurd hp (Finset.notMem_empty path)

/-! #### One statement -/

theorem finish_snd (c : Call) (db : Db) (n : ℕ) (paths : List MessagePath) :
    (c.finish db n paths).2.owed = 0 ∧ (c.finish db n paths).2.stores = false := by
  unfold Call.finish
  cases c.echo.packetId with
  | none => exact ⟨rfl, rfl⟩
  | some packetId => exact ⟨rfl, rfl⟩

variable {c : Call} {row : Row} {pc : Pc} {heard : Finset String} {s' s : State}
  {h : List (Event State Op)}

/-- An echo of an outgoing channel message is counted if its route is new. -/
theorem count_ofChannel (hc : c.existing.OfChannel) (db : Db) (newRoute : Bool)
    (paths : List MessagePath) :
    c.count db newRoute paths =
      if newRoute then (db, .increment paths) else c.finish db c.existing.acked paths := by
  rw [Call.count, hc.outgoing, hc.type]
  rfl

/-- What a statement of a call does to the row. -/
structure Steps (row : Row) (pc : Pc) (row' : Row) (pc' : Pc) : Prop where
  ofChannel : row'.OfChannel
  nodup : row'.routes.Nodup
  room : row'.paths.length ≤ maxStoredPaths
  routes : ∀ path, path ∈ row'.routes → path ∈ row.routes ∨ pc = .addPathIfNew path
  kept : ∀ path, path ∈ row.routes → path ∈ row'.routes
  full : row.paths.length = maxStoredPaths → row'.paths.length = maxStoredPaths
  acked : row'.acked + pc'.owed + row.paths.length = row.acked + pc.owed + row'.paths.length
  stores : pc'.stores = false
  stored : ∀ path, pc = .addPathIfNew path →
    path ∈ row'.routes ∨ row'.paths.length = maxStoredPaths

/-- A statement that stores nothing. -/
theorem Steps.same {row' : Row} {pc' : Pc} (hrow : row.OfChannel) (hnodup : row.routes.Nodup)
    (hroom : row.paths.length ≤ maxStoredPaths) (hpaths : row'.paths = row.paths)
    (htype : row'.type = row.type ∧ row'.outgoing = row.outgoing ∧ row'.txtType = row.txtType)
    (hacked : row'.acked + pc'.owed = row.acked + pc.owed) (hpc' : pc'.stores = false)
    (hpc : pc.stores = false) : Steps row pc row' pc' := by
  have hroutes : row'.routes = row.routes := by
    rw [Row.routes, hpaths]
    rfl
  refine ⟨⟨htype.1.trans hrow.type, htype.2.1.trans hrow.outgoing, htype.2.2.trans hrow.txtType⟩,
    hroutes ▸ hnodup, hpaths ▸ hroom, ?_, ?_, ?_, ?_, hpc', ?_⟩
  · intro path hp
    exact Or.inl (hroutes ▸ hp)
  · intro path hp
    exact hroutes ▸ hp
  · intro hfull
    rw [hpaths]
    exact hfull
  · rw [hpaths, hacked]
  · intro path hp
    exact absurd hp (Pc.ne_addPathIfNew hpc path)

/-- **A route is stored once**, and owed to the count from then on. -/
theorem steps_addPathIfNew (hrow : row.OfChannel) (hnodup : row.routes.Nodup)
    (hroom : row.paths.length ≤ maxStoredPaths) (entry : MessagePath) :
    Steps row (.addPathIfNew entry.path) (row.addPathIfNew entry).2
      (.getPaths (row.addPathIfNew entry).1) := by
  unfold Row.addPathIfNew
  split
  · rename_i hnew
    have hroutes : ({ row with paths := row.paths ++ [entry] } : Row).routes =
        row.routes ++ [entry.path] := by
      rw [Row.routes, List.map_append]
      rfl
    have hlength : ({ row with paths := row.paths ++ [entry] } : Row).paths.length =
        row.paths.length + 1 := List.length_append
    refine ⟨⟨hrow.type, hrow.outgoing, hrow.txtType⟩, ?_, ?_, ?_, ?_, ?_, ?_, rfl, ?_⟩
    · rw [hroutes]
      exact hnodup.append (List.nodup_singleton _) (by
        rw [List.disjoint_singleton]
        exact hnew.2)
    · rw [hlength]
      exact hnew.1
    · intro path hp
      rw [hroutes] at hp
      rcases List.mem_append.mp hp with hold | hlast
      · exact Or.inl hold
      · rw [List.mem_singleton.mp hlast]
        exact Or.inr rfl
    · intro path hp
      rw [hroutes]
      exact List.mem_append_left _ hp
    · intro hfull
      exact absurd hnew.1 (by rw [hfull]; exact Nat.lt_irrefl _)
    · rw [hlength]
      show row.acked + 1 + row.paths.length = row.acked + 0 + (row.paths.length + 1)
      omega
    · intro path hp
      cases hp
      rw [hroutes]
      exact Or.inl List.mem_concat_self
  · rename_i hold
    refine ⟨hrow, hnodup, hroom, fun _ hp => Or.inl hp, fun _ hp => hp, id, rfl, rfl, ?_⟩
    intro path hp
    cases hp
    rcases not_and_or.mp hold with hfull | hin
    · exact Or.inr (Nat.le_antisymm hroom (Nat.le_of_not_lt hfull))
    · exact Or.inl (not_not.mp hin)

/-- **One statement** of a call for an outgoing channel message. -/
theorem steps_exec {db : Db} (hc : c.existing.OfChannel)
    (hpc : ∀ path, pc ≠ .addPath path) (hrow : db.row.OfChannel) (hnodup : db.row.routes.Nodup)
    (hroom : db.row.paths.length ≤ maxStoredPaths) :
    Steps db.row pc (c.exec db pc).1.row (c.exec db pc).2 := by
  cases pc with
  | addPath path => exact absurd rfl (hpc path)
  | addPathIfNew path => exact steps_addPathIfNew hrow hnodup hroom (c.echo.entry path)
  | getPaths newRoute =>
    rw [Call.exec, count_ofChannel hc]
    cases newRoute with
    | true =>
      exact Steps.same hrow hnodup hroom rfl ⟨rfl, rfl, rfl⟩ rfl rfl rfl
    | false =>
      obtain ⟨howed, hstores⟩ := finish_snd c db c.existing.acked db.row.paths
      exact Steps.same hrow hnodup hroom rfl ⟨rfl, rfl, rfl⟩
        (congrArg (db.row.acked + ·) howed) hstores rfl
  | increment paths =>
    rw [Call.exec]
    obtain ⟨howed, hstores⟩ :=
      finish_snd c { db with row := db.row.incrementAckCount } (db.row.acked + 1) paths
    exact Steps.same hrow hnodup hroom rfl ⟨rfl, rfl, rfl⟩
      (congrArg (db.row.acked + 1 + ·) howed) hstores rfl
  | markDecrypted packetId | done =>
    exact Steps.same hrow hnodup hroom rfl ⟨rfl, rfl, rfl⟩ rfl rfl rfl

/-! #### Steps of the system -/

theorem Ok.mono {heard' : Finset String} {t : Task} (h : t.Ok heard) (hsub : heard ⊆ heard') :
    t.Ok heard' := by
  obtain ⟨path, hpath, hin⟩ := h.path
  exact ⟨h.existing, ⟨path, hpath, hsub hin⟩, h.addPath, fun p hp => hsub (h.addPathIfNew p hp)⟩

/-- An echo with a known path begins with the statement that stores it. -/
theorem Counts.echo {e : Echo} {path : String}
    (h : s.Counts heard) (hpath : e.path = some path) (hs : s.step (.echo e) = some s') :
    s'.Counts (insert path heard) := by
  have hstart : Call.start ⟨s.db.row, e⟩ s.db = (s.db, .addPathIfNew path) := by
    rw [Call.start, hpath]
    show (if s.db.row.txtType = txtTypeGroupData then _ else _) = _
    rw [h.ofChannel.txtType]
    rfl
  rw [step, hstart] at hs
  cases hs
  refine ⟨h.ofChannel, ?_, h.nodup, h.room, ?_, ?_, ?_⟩
  · intro t ht
    rcases List.mem_append.mp ht with hold | hlast
    · exact Ok.mono (h.tasks t hold) (Finset.subset_insert _ _)
    · rw [List.mem_singleton.mp hlast]
      refine ⟨h.ofChannel, ⟨path, hpath, Finset.mem_insert_self _ _⟩, ?_, ?_⟩
      · intro p hp
        cases hp
      · intro p hp
        cases hp
        exact Finset.mem_insert_self _ _
  · intro p hp
    exact Finset.mem_insert_of_mem (h.known p hp)
  · rw [List.map_append, List.sum_append]
    exact h.acked
  · intro p hp
    rcases Finset.mem_insert.mp hp with rfl | hin
    · exact Or.inr (Or.inr ⟨_, List.mem_concat_self, rfl⟩)
    · rcases h.stored p hin with hstored | hfull | ⟨t, ht, hpc⟩
      · exact Or.inl hstored
      · exact Or.inr (Or.inl hfull)
      · exact Or.inr (Or.inr ⟨t, List.mem_append_left _ ht, hpc⟩)

theorem Counts.run {i : ℕ} (h : s.Counts heard)
    (hs : s.step (.run i) = some s') : s'.Counts heard := by
  rw [step] at hs
  split at hs
  · cases hs
  rename_i t ht
  obtain ⟨-, heq⟩ := Option.ite_none_left_eq_some.mp hs
  cases heq
  have hok := h.tasks t (List.mem_of_getElem? ht)
  have hsteps := steps_exec hok.existing hok.addPath h.ofChannel h.nodup h.room
  have hmem : ∀ t', t' ∈ s.tasks.modify i (fun t' => { t' with pc := (t.call.exec s.db t.pc).2 }) →
      t' ∈ s.tasks ∨ t' = { t with pc := (t.call.exec s.db t.pc).2 } := by
    intro t' ht'
    rcases DmIngest.mem_modify ht' with hold | ⟨b, hb, rfl⟩
    · exact Or.inl hold
    · rw [ht] at hb
      cases hb
      exact Or.inr rfl
  refine ⟨hsteps.ofChannel, ?_, hsteps.nodup, hsteps.room, ?_, ?_, ?_⟩
  · intro t' ht'
    rcases hmem t' ht' with hold | rfl
    · exact h.tasks t' hold
    · exact ⟨hok.existing, hok.path, Pc.ne_addPath hsteps.stores, fun p hp =>
        absurd hp (Pc.ne_addPathIfNew hsteps.stores p)⟩
  · intro p hp
    rcases hsteps.routes p hp with hold | hpc
    · exact h.known p hold
    · exact hok.addPathIfNew p hpc
  · have hsum := TaskTable.sum_map_modify (fun t : Task => t.pc.owed)
      (fun t' => { t' with pc := (t.call.exec s.db t.pc).2 }) ht
    have hacked := h.acked
    have hstep := hsteps.acked
    have hsum' : ((s.tasks.modify i fun t' => { t' with pc := (t.call.exec s.db t.pc).2 }).map
        fun t : Task => t.pc.owed).sum + t.pc.owed =
          (s.tasks.map fun t => t.pc.owed).sum + (t.call.exec s.db t.pc).2.owed := hsum
    show (t.call.exec s.db t.pc).1.row.acked + ((s.tasks.modify i fun t' =>
        { t' with pc := (t.call.exec s.db t.pc).2 }).map fun t : Task => t.pc.owed).sum =
          (t.call.exec s.db t.pc).1.row.paths.length
    omega
  · intro p hp
    rcases h.stored p hp with hstored | hfull | ⟨t', ht', hpc⟩
    · exact Or.inl (hsteps.kept p hstored)
    · exact Or.inr (Or.inl (hsteps.full hfull))
    · obtain ⟨j, hj⟩ := List.mem_iff_getElem?.mp ht'
      by_cases hij : i = j
      · subst hij
        rw [ht] at hj
        cases hj
        rcases hsteps.stored p hpc with hnow | hfull
        · exact Or.inl hnow
        · exact Or.inr (Or.inl hfull)
      · refine Or.inr (Or.inr ⟨t', ?_, hpc⟩)
        refine List.mem_iff_getElem?.mpr ⟨j, ?_⟩
        show (s.tasks.modify i _)[j]? = _
        rw [List.getElem?_modify, hj]
        show some (if i = j then _ else t') = some t'
        rw [if_neg hij]

/-! #### Runs -/

/-- The echoes of a run have a known path. -/
def KnownPath : Op → Prop
  | .echo e => e.path.isSome = true
  | .run _ => True

instance : DecidablePred KnownPath
  | .echo e => inferInstanceAs (Decidable (e.path.isSome = true))
  | .run _ => isTrue trivial

theorem heardRoutes_append (ops : List Op) (op : Op) :
    heardRoutes (ops ++ [op]) = heardRoutes ops ∪ op.route.elim ∅ (fun path => {path}) := by
  unfold heardRoutes
  rw [List.filterMap_append, List.toFinset_append]
  cases hroute : op.route with
  | none => simp [hroute]
  | some path => simp [hroute]

/-- **The counts hold in a whole run.** -/
theorem Runs.counts (r : Runs s h s') (hknown : ∀ e ∈ h, KnownPath e.label) (hs : s.Counts ∅) :
    s'.Counts (heardRoutes (h.map Event.label)) := by
  refine Run.history (P := fun h s => s.Counts (heardRoutes (h.map Event.label)))
    (C := fun e => KnownPath e.label) r hknown hs ?_
  intro h e hstep hC hpre
  rw [List.map_append, List.map_singleton, heardRoutes_append]
  obtain ⟨pre, op, post⟩ := e
  cases op with
  | echo e =>
    obtain ⟨path, hpath⟩ := Option.isSome_iff_exists.mp hC
    show post.Counts (_ ∪ e.path.elim ∅ _)
    rw [hpath]
    have hnext := Counts.echo hpre hpath hstep
    rwa [Finset.insert_eq, Finset.union_comm] at hnext
  | run i =>
    show post.Counts (_ ∪ ∅)
    rw [Finset.union_empty]
    exact Counts.run hpre hstep

theorem sum_owed_of_finished (h : s.finished = true) :
    (s.tasks.map fun t => t.pc.owed).sum = 0 := by
  rw [List.sum_eq_zero]
  intro n hn
  obtain ⟨t, ht, rfl⟩ := List.mem_map.mp hn
  have hdone := List.all_eq_true.mp h t ht
  rw [decide_eq_true_eq] at hdone
  rw [hdone]
  rfl

/-- **When every echo has been dealt with**, the count is that of the routes stored, which are
as many of the routes heard as there is room for. -/
theorem Counts.finished (h : s.Counts heard)
    (hdone : s.finished = true) :
    s.db.row.acked = min heard.card maxStoredPaths ∧ s.db.row.routes.length = s.db.row.acked ∧
      (heard.card ≤ maxStoredPaths → s.db.row.routes.toFinset = heard) := by
  have hacked := h.acked
  rw [sum_owed_of_finished hdone, Nat.add_zero] at hacked
  have hlength : s.db.row.routes.length = s.db.row.paths.length := List.length_map _
  have hcard : s.db.row.routes.toFinset.card = s.db.row.paths.length := by
    rw [List.toFinset_card_of_nodup h.nodup, hlength]
  have hsub : s.db.row.routes.toFinset ⊆ heard := by
    intro path hp
    exact h.known path (List.mem_toFinset.mp hp)
  have hroom := h.room
  have hle := Finset.card_le_card hsub
  have hstored : s.db.row.paths.length ≠ maxStoredPaths → heard ⊆ s.db.row.routes.toFinset := by
    intro hfull path hp
    rcases h.stored path hp with hin | heq | ⟨t, ht, hpc⟩
    · exact List.mem_toFinset.mpr hin
    · exact absurd heq hfull
    · have hpc' := List.all_eq_true.mp hdone t ht
      rw [decide_eq_true_eq, hpc] at hpc'
      cases hpc'
  by_cases hfull : s.db.row.paths.length = maxStoredPaths
  · refine ⟨by omega, hlength.trans hacked.symm, ?_⟩
    intro hheard
    exact Finset.eq_of_subset_of_card_le hsub (by omega)
  · have heq := Finset.Subset.antisymm hsub (hstored hfull)
    rw [heq] at hcard
    exact ⟨by omega, hlength.trans hacked.symm, fun _ => heq⟩

/-! #### Routes heard again -/

/-- A statement that leaves the row as it is, and is not followed by one that counts. -/
def Idle (row : Row) (pc : Pc) : Prop :=
  pc = .getPaths false ∨ (∃ packetId, pc = .markDecrypted packetId) ∨ pc = .done ∨
    ∃ path ∈ row.routes, pc = .addPathIfNew path

theorem idle_finish (row : Row) (c : Call) (db : Db) (n : ℕ) (paths : List MessagePath) :
    Idle row (c.finish db n paths).2 := by
  unfold Call.finish
  cases c.echo.packetId with
  | none => exact Or.inr (Or.inr (Or.inl rfl))
  | some packetId => exact Or.inr (Or.inl ⟨packetId, rfl⟩)

/-- A route that is stored already changes nothing, and is not counted. -/
theorem exec_idle {db : Db} (hc : c.existing.OfChannel)
    (hpc : Idle db.row pc) : (c.exec db pc).1.row = db.row ∧ Idle db.row (c.exec db pc).2 := by
  rcases hpc with rfl | ⟨packetId, rfl⟩ | rfl | ⟨path, hpath, rfl⟩
  · rw [Call.exec, count_ofChannel hc]
    exact ⟨rfl, idle_finish _ _ _ _ _⟩
  · exact ⟨rfl, Or.inr (Or.inr (Or.inl rfl))⟩
  · exact ⟨rfl, Or.inr (Or.inr (Or.inl rfl))⟩
  · have hold : db.row.addPathIfNew (c.echo.entry path) = (false, db.row) := by
      rw [Row.addPathIfNew, if_neg]
      rintro ⟨-, hnew⟩
      exact hnew hpath
    rw [Call.exec, hold]
    exact ⟨rfl, Or.inl rfl⟩

/-- Only echoes of routes that are stored are under way. -/
structure Settled (row : Row) (s : State) : Prop where
  same : s.db.row = row
  ofChannel : row.OfChannel
  tasks : ∀ t ∈ s.tasks, t.call.existing.OfChannel ∧ Idle row t.pc

/-- The echo comes by a route that is stored. -/
def StoredPath (row : Row) : Op → Prop
  | .echo e => ∃ path ∈ row.routes, e.path = some path
  | .run _ => True

theorem settled_step {op : Op} (h : Settled row s)
    (hop : StoredPath row op) (hs : s.step op = some s') : Settled row s' := by
  cases op with
  | echo e =>
    obtain ⟨path, hin, hpath⟩ := hop
    have hstart : Call.start ⟨s.db.row, e⟩ s.db = (s.db, .addPathIfNew path) := by
      rw [Call.start, hpath]
      show (if s.db.row.txtType = txtTypeGroupData then _ else _) = _
      rw [h.same, h.ofChannel.txtType]
      rfl
    rw [step, hstart] at hs
    cases hs
    refine ⟨h.same, h.ofChannel, ?_⟩
    intro t ht
    rcases List.mem_append.mp ht with hold | hlast
    · exact h.tasks t hold
    · rw [List.mem_singleton.mp hlast]
      exact ⟨h.same ▸ h.ofChannel, Or.inr (Or.inr (Or.inr ⟨path, hin, rfl⟩))⟩
  | run i =>
    rw [step] at hs
    split at hs
    · cases hs
    rename_i t ht
    obtain ⟨-, heq⟩ := Option.ite_none_left_eq_some.mp hs
    cases heq
    obtain ⟨hc, hidle⟩ := h.tasks t (List.mem_of_getElem? ht)
    have hwaits : Idle s.db.row t.pc := h.same ▸ hidle
    obtain ⟨hrow, hnext⟩ := exec_idle hc hwaits
    refine ⟨hrow.trans h.same, h.ofChannel, ?_⟩
    intro t' ht'
    rcases DmIngest.mem_modify ht' with hold | ⟨b, hb, rfl⟩
    · exact h.tasks t' hold
    · rw [ht] at hb
      cases hb
      exact ⟨hc, h.same ▸ hnext⟩

/-- **Routes heard again change nothing.** -/
theorem Runs.again (r : Runs s h s') (hs : s.Counts heard) (hdone : s.finished = true)
    (hstored : ∀ e ∈ h, StoredPath s.db.row e.label) : s'.db.row = s.db.row := by
  have hstart : Settled s.db.row s := by
    refine ⟨rfl, hs.ofChannel, ?_⟩
    intro t ht
    have hpc := List.all_eq_true.mp hdone t ht
    rw [decide_eq_true_eq] at hpc
    exact ⟨(hs.tasks t ht).existing, Or.inr (Or.inr (Or.inl hpc))⟩
  have hend := Run.invariant (P := Settled s.db.row) (C := fun e => StoredPath s.db.row e.label) r
    hstored (fun _ hstep hC hpre => settled_step hpre hC hstep) hstart
  exact hend.same

/-- **Echo counting.** Whatever the order and the interleaving, once the echoes of an outgoing
channel message have been dealt with its count is the number of distinct routes heard, up to
the cap. As many of them are stored, each once, so all of them below the cap; and echoes by
stored routes change nothing. -/
theorem echo_counting {sendStatus : SendStatus} {s : State} {h : List (Event State Op)}
    (r : Runs (ofRow (outgoingChannelRow sendStatus)) h s)
    (hknown : ∀ e ∈ h, KnownPath e.label) (hdone : s.finished = true) :
    s.db.row.acked = min (heardRoutes (h.map Event.label)).card maxStoredPaths ∧
    s.db.row.routes.length = s.db.row.acked ∧ s.db.row.routes.Nodup ∧
    s.db.row.routes.toFinset ⊆ heardRoutes (h.map Event.label) ∧
    ((heardRoutes (h.map Event.label)).card ≤ maxStoredPaths →
      s.db.row.routes.toFinset = heardRoutes (h.map Event.label)) ∧
    ∀ h' s', Runs s h' s' → (∀ e ∈ h', StoredPath s.db.row e.label) → s'.db.row = s.db.row := by
  have hcounts := Runs.counts r hknown (counts_ofRow sendStatus)
  obtain ⟨hacked, hlength, hall⟩ := hcounts.finished hdone
  refine ⟨hacked, hlength, hcounts.nodup, ?_, hall, ?_⟩
  · intro path hp
    exact hcounts.known path (List.mem_toFinset.mp hp)
  · intro h' s' r' hstored
    exact Runs.again r' hcounts hdone hstored

/-- An echo by a route, and the statements of its call, the `i`-th one. -/
def deliver (i n : ℕ) : List Op :=
  [.echo ⟨none, some (String.ofList (Nat.toDigits 16 n)), 0, none, none, none⟩, .run i, .run i,
    .run i]

theorem echo_counting_two :
    ∃ h s, Runs (ofRow (outgoingChannelRow .pending)) h s ∧
      h.map Event.label = deliver 0 170 ++ deliver 1 187 ∧
      s.db.row.acked = min (heardRoutes (h.map Event.label)).card maxStoredPaths := by
  obtain ⟨h, s, r, hl, hdone⟩ := Run.exists_of_trace step (ofRow (outgoingChannelRow .pending))
    (deliver 0 170 ++ deliver 1 187) (fun r => r.2.finished) (by decide +kernel)
  have hall : ∀ op ∈ deliver 0 170 ++ deliver 1 187, KnownPath op := by decide
  have hknown : ∀ e ∈ h, KnownPath e.label :=
    fun e he => hall e.label (hl ▸ List.mem_map_of_mem he)
  exact ⟨h, s, r, hl, (echo_counting r hknown hdone).1⟩

/-- Echoes by distinct routes one after the other; the last one finds the list full. -/
def deliverAll (ns : List ℕ) : List Op :=
  ns.zipIdx.flatMap fun n =>
    if n.2 < maxStoredPaths then deliver n.2 n.1 else (deliver n.2 n.1).take 3

def routesUp : List ℕ := (List.range 65).map (· + 16)

set_option maxRecDepth 4000 in
/-- Past the cap the routes that are stored depend on the order in which they are heard. -/
theorem not_forall_order_independent :
    ¬ ∀ (sendStatus : SendStatus) (s₁ s₂ : State) (h₁ h₂ : List (Event State Op)),
      Runs (ofRow (outgoingChannelRow sendStatus)) h₁ s₁ →
      Runs (ofRow (outgoingChannelRow sendStatus)) h₂ s₂ →
      (∀ e ∈ h₁, KnownPath e.label) → (∀ e ∈ h₂, KnownPath e.label) →
      s₁.finished = true → s₂.finished = true →
      heardRoutes (h₁.map Event.label) = heardRoutes (h₂.map Event.label) →
      s₁.db.row.routes.toFinset = s₂.db.row.routes.toFinset := by
  intro hall
  obtain ⟨h₁, s₁, r₁, hl₁, hp₁⟩ := Run.exists_of_trace step (ofRow (outgoingChannelRow .pending))
    (deliverAll routesUp) (fun r => r.2.finished && decide ("10" ∈ r.2.db.row.routes))
    (by decide +kernel)
  obtain ⟨h₂, s₂, r₂, hl₂, hp₂⟩ := Run.exists_of_trace step (ofRow (outgoingChannelRow .pending))
    (deliverAll routesUp.reverse) (fun r => r.2.finished && decide ("10" ∉ r.2.db.row.routes))
    (by decide +kernel)
  rw [Bool.and_eq_true, decide_eq_true_eq] at hp₁ hp₂
  have hknown₁ : ∀ op ∈ deliverAll routesUp, KnownPath op := by decide +kernel
  have hknown₂ : ∀ op ∈ deliverAll routesUp.reverse, KnownPath op := by decide +kernel
  have hheard : heardRoutes (deliverAll routesUp) = heardRoutes (deliverAll routesUp.reverse) := by
    have hrev : (deliverAll routesUp.reverse).filterMap Op.route =
        ((deliverAll routesUp).filterMap Op.route).reverse := by decide +kernel
    rw [heardRoutes, heardRoutes, hrev, List.toFinset_reverse]
  have hsame := hall .pending s₁ s₂ h₁ h₂ r₁ r₂
    (fun e he => hknown₁ e.label (hl₁ ▸ List.mem_map_of_mem he))
    (fun e he => hknown₂ e.label (hl₂ ▸ List.mem_map_of_mem he)) hp₁.1 hp₂.1
    (by rw [hl₁, hl₂, hheard])
  have hin : "10" ∈ s₂.db.row.routes.toFinset := hsame ▸ List.mem_toFinset.mpr hp₁.2
  exact hp₂.2 (List.mem_toFinset.mp hin)

end State

end RtfmEv.ChannelEcho
