import RtfmEv.Contacts.Repository
import RtfmEv.Lib.TwoSides

/-!
# What a history leaves in the tables

Recordings under a key are folds over the key's own operations: a contact's
first and last times, the history of each of its names and the row of each of
its advert paths say what the operations were, in closed form. No path is pruned
as long as the contact has no more paths than the limit.
-/

namespace RtfmEv.Contacts

open RtfmEv.Lib

/-- A recording under some key. -/
inductive Op
  | upsert (firstSeen lastSeen lastContacted : Option ℤ)
  | updateLastContacted (timestamp : ℤ)
  | touchLastSeen (timestamp : ℤ)
  | recordName (name : String) (timestamp : ℤ)
  | recordObservation (o : Observation)

def Op.record (key : Hex) (db : Db) : Op → Db
  | upsert firstSeen lastSeen lastContacted =>
    Contacts.upsert key firstSeen lastSeen lastContacted db
  | updateLastContacted timestamp => Contacts.updateLastContacted key timestamp db
  | touchLastSeen timestamp => Contacts.touchLastSeen key timestamp db
  | recordName name timestamp => Contacts.recordName key name timestamp db
  | recordObservation o => Contacts.recordObservation key o db

/-- A history recorded under the keys of its two sides. -/
def record (keyOf : Side → Hex) (H : List (Side × Op)) (db : Db) : Db :=
  H.foldl (fun db e => e.2.record (keyOf e.1) db) db

/-! ## One operation, one row -/

/-- What an operation does to the contact it is recorded under. -/
def Op.onContact (row : Option ContactRow) : Op → Option ContactRow
  | upsert firstSeen lastSeen lastContacted =>
    match row with
    | none => some ⟨lastSeen, lastContacted, firstSeen, none, none⟩
    | some row =>
      some { row with
        lastSeen := laterSeen row.lastSeen lastSeen
        lastContacted := coalesce lastContacted row.lastContacted
        firstSeen := coalesce row.firstSeen firstSeen }
  | updateLastContacted timestamp =>
    row.map (fun row => { row with lastContacted := some timestamp })
  | touchLastSeen timestamp =>
    row.map (fun row => { row with lastSeen := laterSeen row.lastSeen (some timestamp) })
  | recordName _ _ => row
  | recordObservation _ => row

def Op.nameTime? (name : String) : Op → Option ℤ
  | recordName name' timestamp => if name' = name then some timestamp else none
  | _ => none

def Op.observation? : Op → Option Observation
  | recordObservation o => some o
  | _ => none

/-- The row of a name after one more sight of it. -/
def seeName (row : Option NameRow) (timestamp : ℤ) : NameRow :=
  match row with
  | none => ⟨timestamp, timestamp⟩
  | some row => { row with lastSeen := max row.lastSeen timestamp }

/-- The row of a path after one more observation of it. -/
def seePath (row : Option PathRow) (o : Observation) : PathRow :=
  match row with
  | none => o.row
  | some row => o.update row

section

variable {key : Hex} {db : Db} (f : ContactRow → ContactRow) (op : Op)

theorem contacts_updateContact :
    (updateContact key f db).contacts.get? key = (db.contacts.get? key).map f := by
  unfold updateContact
  cases hrow : db.contacts.get? key with
  | none => exact hrow
  | some row => exact OrderedDict.get?_set_self ..

theorem contacts_updateContact_of_ne {k : Hex} (hk : k ≠ key) :
    (updateContact key f db).contacts.get? k = db.contacts.get? k := by
  unfold updateContact
  cases db.contacts.get? key with
  | none => rfl
  | some row => exact OrderedDict.get?_set_of_ne hk

theorem paths_updateContact :
    (updateContact key f db).paths = db.paths := by
  unfold updateContact
  split <;> rfl

theorem names_updateContact :
    (updateContact key f db).names = db.names := by
  unfold updateContact
  split <;> rfl

theorem contacts_record :
    (op.record key db).contacts.get? key = op.onContact (db.contacts.get? key) := by
  cases op with
  | upsert firstSeen lastSeen lastContacted =>
    refine (OrderedDict.get?_set_self ..).trans ?_
    unfold Op.onContact
    cases db.contacts.get? key <;> rfl
  | updateLastContacted timestamp => exact contacts_updateContact _
  | touchLastSeen timestamp => exact contacts_updateContact _
  | recordName name timestamp => rfl
  | recordObservation o => rfl

theorem contacts_record_of_ne {k : Hex} (hk : k ≠ key) :
    (op.record key db).contacts.get? k = db.contacts.get? k := by
  cases op with
  | upsert firstSeen lastSeen lastContacted => exact OrderedDict.get?_set_of_ne hk
  | updateLastContacted timestamp => exact contacts_updateContact_of_ne _ hk
  | touchLastSeen timestamp => exact contacts_updateContact_of_ne _ hk
  | recordName name timestamp => rfl
  | recordObservation o => rfl

theorem names_record (name : String) :
    (op.record key db).names.get? (key, name) =
      match op.nameTime? name with
      | none => db.names.get? (key, name)
      | some timestamp => some (seeName (db.names.get? (key, name)) timestamp) := by
  cases op with
  | upsert firstSeen lastSeen lastContacted => rfl
  | recordObservation o => rfl
  | updateLastContacted timestamp
  | touchLastSeen timestamp => exact congrArg (·.get? (key, name)) (names_updateContact _)
  | recordName name' timestamp =>
    show (db.names.set (key, name') _).get? (key, name) = _
    rw [Op.nameTime?]
    split_ifs with hname
    · rw [hname]
      refine (OrderedDict.get?_set_self ..).trans ?_
      unfold seeName
      cases db.names.get? (key, name) <;> rfl
    · exact OrderedDict.get?_set_of_ne (fun heq => hname (Prod.mk.inj heq).2.symm)

theorem names_record_of_ne {k : Hex} (hk : k ≠ key) (name : String) :
    (op.record key db).names.get? (k, name) = db.names.get? (k, name) := by
  cases op with
  | upsert firstSeen lastSeen lastContacted => rfl
  | recordObservation o => rfl
  | updateLastContacted timestamp
  | touchLastSeen timestamp => exact congrArg (·.get? (k, name)) (names_updateContact _)
  | recordName name' timestamp =>
    exact OrderedDict.get?_set_of_ne (fun heq => hk (Prod.mk.inj heq).1)

theorem prunePaths_of_le {n : ℕ} (h : (pathsOf key db).length ≤ n) : prunePaths key n db = db := by
  unfold prunePaths
  have htake : ((pathsOf key db).insertionSort (fun a b => recentFirst a b)).take n =
      (pathsOf key db).insertionSort (fun a b => recentFirst a b) := by
    apply List.take_of_length_le
    rw [List.length_insertionSort]
    exact h
  have hkept : db.paths.eraseIf (fun e => e.1.1 = key &&
      !((((pathsOf key db).insertionSort (fun a b => recentFirst a b)).take n).map
        Prod.fst).contains e.1.2) = db.paths := by
    apply OrderedDict.ext
    apply List.filter_eq_self.mpr
    intro e he
    rw [htake]
    by_cases hk : e.1.1 = key
    · have hmem : e.1.2 ∈ ((pathsOf key db).insertionSort (fun a b => recentFirst a b)).map
          Prod.fst := by
        apply List.mem_map.mpr
        refine ⟨(e.1.2, e.2), ?_, rfl⟩
        rw [List.mem_insertionSort]
        exact List.mem_map.mpr ⟨e, List.mem_filter.mpr ⟨he, decide_eq_true hk⟩, rfl⟩
      simp [hk, hmem]
    · simp [hk]
  simp only [hkept]

end

/-! ## Histories within the path limit -/

/-- The paths of a history. -/
def pathKeys (H : List (Side × Op)) : List PathKey :=
  (H.filterMap (fun e => e.2.observation?)).map Observation.pathKey

/-- How many paths an observation leaves. -/
def Observation.limit (o : Observation) : ℕ := if o.maxPaths < 1 then 1 else o.maxPaths.toNat

/-- No observation of the history finds more paths than it leaves. -/
def WithinLimit (H : List (Side × Op)) : Prop :=
  ∀ e ∈ H, ∀ o ∈ e.2.observation?, (pathKeys H).dedup.length ≤ o.limit

/-- The paths of a key are among these. -/
def Inside (ks : List PathKey) (key : Hex) (db : Db) : Prop :=
  ∀ q, db.paths.get? (key, q) ≠ none → q ∈ ks

theorem length_pathsOf_le {ks : List PathKey} {key : Hex} {db : Db} (h : Inside ks key db) :
    (pathsOf key db).length ≤ ks.dedup.length := by
  have hnodup : ((pathsOf key db).map Prod.fst).Nodup := by
    unfold pathsOf
    rw [List.map_map]
    apply List.Nodup.map_on
    · intro e he e' he' hq
      obtain ⟨hmem, hkey⟩ := List.mem_filter.mp he
      obtain ⟨hmem', hkey'⟩ := List.mem_filter.mp he'
      have hsame : e.1 = e'.1 :=
        Prod.ext ((of_decide_eq_true hkey).trans (of_decide_eq_true hkey').symm) hq
      exact List.inj_on_of_nodup_map db.paths.nodup hmem hmem' hsame
    · exact (db.paths.nodup.of_map Prod.fst).filter _
  have hsub : (pathsOf key db).map Prod.fst ⊆ ks.dedup := by
    intro q hq
    obtain ⟨x, hx, rfl⟩ := List.mem_map.mp hq
    obtain ⟨e, he, rfl⟩ := List.mem_map.mp hx
    obtain ⟨hmem, hkey⟩ := List.mem_filter.mp he
    obtain rfl := of_decide_eq_true hkey
    apply List.mem_dedup.mpr
    apply h
    rw [OrderedDict.get?_eq_some_iff.mpr hmem]
    exact Option.some_ne_none _
  have hlen := (hnodup.subperm hsub).length_le
  rwa [List.length_map] at hlen

/-- What an operation tells of one path. -/
def Op.observationOf? (q : PathKey) (op : Op) : Option Observation :=
  op.observation?.filter (fun o => o.pathKey = q)

section

variable {ks : List PathKey} {key : Hex} {db : Db}

/-- The table after an observation that prunes nothing. -/
theorem paths_recordObservation (h : Inside ks key db) {o : Observation} (ho : o.pathKey ∈ ks)
    (hlimit : ks.dedup.length ≤ o.limit) :
    (recordObservation key o db).paths =
      db.paths.set (key, o.pathKey) (seePath (db.paths.get? (key, o.pathKey)) o) := by
  have hinside : Inside ks key
      { db with paths := db.paths.set (key, o.pathKey)
                  (seePath (db.paths.get? (key, o.pathKey)) o) } := by
    intro q hq
    by_cases hqo : q = o.pathKey
    · rw [hqo]
      exact ho
    · apply h q
      rwa [OrderedDict.get?_set_of_ne (fun heq => hqo (Prod.mk.inj heq).2)] at hq
  have hprune := prunePaths_of_le (n := o.limit) ((length_pathsOf_le hinside).trans hlimit)
  unfold recordObservation
  exact congrArg Db.paths hprune

theorem paths_record (h : Inside ks key db) {op : Op}
    (hop : ∀ o ∈ op.observation?, o.pathKey ∈ ks ∧ ks.dedup.length ≤ o.limit) (k : Hex)
    (q : PathKey) :
    (op.record key db).paths.get? (k, q) =
      match (op.observationOf? q).filter (fun _ => k = key) with
      | none => db.paths.get? (k, q)
      | some o => some (seePath (db.paths.get? (k, q)) o) := by
  cases op with
  | upsert firstSeen lastSeen lastContacted => rfl
  | recordName name timestamp => rfl
  | updateLastContacted timestamp
  | touchLastSeen timestamp => exact congrArg (·.get? (k, q)) (paths_updateContact _)
  | recordObservation o =>
    obtain ⟨ho, hlimit⟩ := hop o rfl
    have hpaths := paths_recordObservation h ho hlimit
    refine (congrArg (·.get? (k, q)) hpaths).trans ?_
    rw [OrderedDict.get?_set]
    by_cases hkq : (k, q) = (key, o.pathKey)
    · obtain ⟨rfl, rfl⟩ := Prod.mk.inj hkq
      simp [Op.observationOf?, Op.observation?, Option.filter]
    · rw [if_neg hkq]
      have hnone : ((Op.recordObservation o).observationOf? q).filter
          (fun _ => decide (k = key)) = none := by
        by_cases hk : k = key
        · have hq : o.pathKey ≠ q := fun hq => hkq (by rw [hk, hq])
          simp [Op.observationOf?, Op.observation?, Option.filter, hq]
        · simp [hk]
      rw [hnone]

end

/-! ## A whole history -/

/-- The operations that are recorded under a key, with the sides as the keys say. -/
def opsAt (keyOf : Side → Hex) (k : Hex) (H : List (Side × Op)) : List Op :=
  (H.filter (fun e => keyOf e.1 = k)).map Prod.snd

section

variable {keyOf : Side → Hex} {k : Hex}

theorem opsAt_cons_self {e : Side × Op} (he : keyOf e.1 = k) (H : List (Side × Op)) :
    opsAt keyOf k (e :: H) = e.2 :: opsAt keyOf k H := by
  simp [opsAt, he]

theorem opsAt_cons_of_ne {e : Side × Op} (he : keyOf e.1 ≠ k) (H : List (Side × Op)) :
    opsAt keyOf k (e :: H) = opsAt keyOf k H := by
  simp [opsAt, he]

theorem contacts_get?_record (H : List (Side × Op)) (db : Db) :
    (record keyOf H db).contacts.get? k =
      (opsAt keyOf k H).foldl Op.onContact (db.contacts.get? k) := by
  induction H generalizing db with
  | nil => rfl
  | cons e H ih =>
    show (record keyOf H (e.2.record (keyOf e.1) db)).contacts.get? k = _
    rw [ih]
    by_cases he : keyOf e.1 = k
    · rw [opsAt_cons_self he, List.foldl_cons, he, contacts_record]
    · rw [opsAt_cons_of_ne he, contacts_record_of_ne e.2 (Ne.symm he)]

theorem names_get?_record (H : List (Side × Op)) (db : Db) (name : String) :
    (record keyOf H db).names.get? (k, name) =
      ((opsAt keyOf k H).filterMap (Op.nameTime? name)).foldl (fun r t => some (seeName r t))
        (db.names.get? (k, name)) := by
  induction H generalizing db with
  | nil => rfl
  | cons e H ih =>
    show (record keyOf H (e.2.record (keyOf e.1) db)).names.get? (k, name) = _
    rw [ih]
    by_cases he : keyOf e.1 = k
    · rw [opsAt_cons_self he, he, names_record]
      cases ht : e.2.nameTime? name with
      | none => rw [List.filterMap_cons_none ht]
      | some t => rw [List.filterMap_cons_some ht, List.foldl_cons]
    · rw [opsAt_cons_of_ne he, names_record_of_ne e.2 (Ne.symm he)]

theorem Inside.record {ks : List PathKey} {key : Hex} {db : Db} (h : Inside ks key db) {op : Op}
    (hop : ∀ o ∈ op.observation?, o.pathKey ∈ ks ∧ ks.dedup.length ≤ o.limit) {k : Hex}
    (hk : Inside ks k db) : Inside ks k (op.record key db) := by
  intro q hq
  rw [paths_record h hop] at hq
  cases ho : (op.observationOf? q).filter (fun _ => decide (k = key)) with
  | none =>
    rw [ho] at hq
    exact hk q hq
  | some o =>
    obtain ⟨hof, -⟩ := Option.filter_eq_some_iff.mp ho
    obtain ⟨hobs, hqo⟩ := Option.filter_eq_some_iff.mp hof
    rw [← of_decide_eq_true hqo]
    exact (hop o hobs).1

theorem paths_get?_record {ks : List PathKey} {H : List (Side × Op)}
    (hops : ∀ e ∈ H, ∀ o ∈ e.2.observation?, o.pathKey ∈ ks ∧ ks.dedup.length ≤ o.limit) {db : Db}
    (h : ∀ s, Inside ks (keyOf s) db) (q : PathKey) :
    (record keyOf H db).paths.get? (k, q) =
      ((opsAt keyOf k H).filterMap (Op.observationOf? q)).foldl (fun r o => some (seePath r o))
        (db.paths.get? (k, q)) := by
  induction H generalizing db with
  | nil => rfl
  | cons e H ih =>
    have hop := hops e List.mem_cons_self
    show (Contacts.record keyOf H (e.2.record (keyOf e.1) db)).paths.get? (k, q) = _
    rw [ih (fun e he => hops e (List.mem_cons_of_mem _ he))
      (fun s => Inside.record (h e.1) hop (h s)), paths_record (h e.1) hop]
    by_cases he : keyOf e.1 = k
    · rw [opsAt_cons_self he]
      cases ho : e.2.observationOf? q with
      | none =>
        rw [List.filterMap_cons_none ho]
        rfl
      | some o =>
        rw [List.filterMap_cons_some ho, List.foldl_cons]
        simp [Option.filter, he]
    · rw [opsAt_cons_of_ne he]
      have hnone : (e.2.observationOf? q).filter (fun _ => decide (k = keyOf e.1)) = none := by
        simp [Ne.symm he]
      rw [hnone]

end

/-! ## Closed forms -/

theorem laterSeen_eq (stored new : Option ℤ) :
    laterSeen stored new = Option.merge max stored new := by
  cases stored with
  | none => cases new <;> rfl
  | some stored =>
    cases new with
    | none => rfl
    | some new =>
      show (if new > stored then some new else some stored) = some (max stored new)
      split_ifs with hlt
      · rw [max_eq_right hlt.le]
      · rw [max_eq_left (not_lt.mp hlt)]

theorem earlierSeen_eq (stored new : Option ℤ) :
    earlierSeen stored new = Option.merge min stored new := by
  cases stored with
  | none => cases new <;> rfl
  | some stored =>
    cases new with
    | none => rfl
    | some new =>
      show (if new < stored then some new else some stored) = some (min stored new)
      split_ifs with hlt
      · rw [min_eq_right hlt.le]
      · rw [min_eq_left (not_lt.mp hlt)]

theorem bestSignal_eq (stored new : Option ℚ) :
    bestSignal stored new = Option.merge max stored new := by
  cases stored with
  | none =>
    cases new with
    | none => rfl
    | some new => simp [bestSignal, coalesce, sqlMax]
  | some stored =>
    cases new with
    | none => simp [bestSignal, coalesce, sqlMax]
    | some new => simp [bestSignal, coalesce, sqlMax]

/-- The row of a name that was seen at these times. -/
def nameRow (times : List ℤ) : Option NameRow :=
  times.foldl (fun r t => some (seeName r t)) none

theorem nameRow_eq (times : List ℤ) :
    (nameRow times).map NameRow.firstSeen = times.head? ∧
      (nameRow times).map NameRow.lastSeen = times.max? := by
  induction times using List.reverseRecOn with
  | nil => exact ⟨rfl, rfl⟩
  | append_singleton times t ih =>
    have hstep : nameRow (times ++ [t]) = some (seeName (nameRow times) t) := by
      rw [nameRow, List.foldl_append]
      rfl
    obtain ⟨hfirst, hlast⟩ := ih
    rw [hstep, List.head?_append, max?_append, ← hfirst, ← hlast]
    cases nameRow times <;> exact ⟨rfl, rfl⟩

/-- The row of a path that was observed so. -/
def pathRow (obs : List Observation) : Option PathRow :=
  obs.foldl (fun r o => some (seePath r o)) none

/-- The time that counts as the observation's primary arrival, zero without one. -/
def Observation.primaryTime (o : Observation) : ℤ := o.primarySeen.getD 0

/-- `last_primary_seen` after these observations: one relay copy leaves `NULL`. -/
def lastPrimary : List Observation → Option ℤ
  | [] => none
  | [o] => o.primarySeen
  | obs => (obs.map Observation.primaryTime).max?

variable (obs : List Observation)

theorem pathRow_concat (o : Observation) :
    pathRow (obs ++ [o]) = some (seePath (pathRow obs) o) := by
  rw [pathRow, List.foldl_append]
  rfl

theorem pathRow_eq_none_iff {obs : List Observation} : pathRow obs = none ↔ obs = [] := by
  rcases List.eq_nil_or_concat obs with rfl | ⟨l, o, rfl⟩
  · exact iff_of_true rfl rfl
  · rw [List.concat_eq_append, pathRow_concat]
    simp

theorem pathRow_times :
    (pathRow obs).map PathRow.firstSeen = (obs.map Observation.timestamp).head? ∧
      (pathRow obs).map PathRow.lastSeen = (obs.map Observation.timestamp).max? := by
  induction obs using List.reverseRecOn with
  | nil => exact ⟨rfl, rfl⟩
  | append_singleton obs o ih =>
    obtain ⟨hfirst, hlast⟩ := ih
    rw [pathRow_concat, List.map_append, List.head?_append, max?_append, ← hfirst, ← hlast]
    cases pathRow obs <;> exact ⟨rfl, rfl⟩

theorem pathRow_heardCount :
    ((pathRow obs).map PathRow.heardCount).getD 0 = obs.length := by
  induction obs using List.reverseRecOn with
  | nil => rfl
  | append_singleton obs o ih =>
    rw [pathRow_concat, List.length_append, ← ih]
    cases pathRow obs with
    | none => rfl
    | some row => rfl

theorem filterMap_one {α β : Type*} (f : α → Option β) (a : α) :
    [a].filterMap f = (f a).toList := by
  cases h : f a with
  | none => rw [List.filterMap_cons_none h]; rfl
  | some b => rw [List.filterMap_cons_some h]; rfl

theorem max?_toList {α : Type*} [LinearOrder α] (o : Option α) : o.toList.max? = o := by
  cases o <;> rfl

/-- A column that keeps the strongest signal holds the largest of all. -/
theorem pathRow_signal {signal : Observation → Option ℚ} {column : PathRow → Option ℚ}
    (hrow : ∀ o, column o.row = signal o)
    (hupdate : ∀ (o : Observation) row, column (o.update row) = bestSignal (column row) (signal o))
    (obs : List Observation) : (pathRow obs).bind column = (obs.filterMap signal).max? := by
  induction obs using List.reverseRecOn with
  | nil => rfl
  | append_singleton obs o ih =>
    rw [pathRow_concat, List.filterMap_append, max?_append, ← ih, filterMap_one, max?_toList,
      ← bestSignal_eq]
    show column (seePath (pathRow obs) o) = _
    cases pathRow obs with
    | none =>
      show column o.row = _
      rw [hrow, bestSignal_eq]
      cases signal o <;> rfl
    | some row => exact hupdate o row

theorem pathRow_bestRssi :
    (pathRow obs).bind PathRow.bestRssi = (obs.filterMap Observation.rssi).max? :=
  pathRow_signal (fun _ => rfl) (fun _ _ => rfl) obs

theorem pathRow_bestSnr :
    (pathRow obs).bind PathRow.bestSnr = (obs.filterMap Observation.snr).max? :=
  pathRow_signal (fun _ => rfl) (fun _ _ => rfl) obs

theorem lastPrimary_concat {obs : List Observation} (h : obs ≠ []) (o : Observation) :
    lastPrimary (obs ++ [o]) = some (max ((lastPrimary obs).getD 0) o.primaryTime) := by
  obtain ⟨a, l, rfl⟩ := List.exists_cons_of_ne_nil h
  cases l with
  | nil => rfl
  | cons b l =>
    show ((a :: b :: l ++ [o]).map Observation.primaryTime).max? = _
    rw [List.map_append, max?_append]
    show Option.merge max (((a :: b :: l).map Observation.primaryTime).max?) (some o.primaryTime) = _
    have hsome : ((a :: b :: l).map Observation.primaryTime).max? ≠ none := by
      rw [ne_eq, List.max?_eq_none_iff]
      exact List.cons_ne_nil _ _
    obtain ⟨m, hm⟩ := Option.ne_none_iff_exists'.mp hsome
    have hlast : lastPrimary (a :: b :: l) = some m := hm
    rw [hm, hlast]
    rfl

theorem pathRow_lastPrimarySeen :
    (pathRow obs).bind PathRow.lastPrimarySeen = lastPrimary obs := by
  induction obs using List.reverseRecOn with
  | nil => rfl
  | append_singleton obs o ih =>
    rw [pathRow_concat]
    by_cases hnil : obs = []
    · subst hnil
      rfl
    · rw [lastPrimary_concat hnil, ← ih]
      obtain ⟨row, hrow⟩ :=
        Option.ne_none_iff_exists'.mp (fun h => hnil (pathRow_eq_none_iff.mp h))
      rw [hrow]
      rfl

/-- Two rows are the same when their columns are. -/
theorem pathRow_ext {r r' : PathRow} (h₁ : r.firstSeen = r'.firstSeen)
    (h₂ : r.lastSeen = r'.lastSeen) (h₃ : r.lastPrimarySeen = r'.lastPrimarySeen)
    (h₄ : r.heardCount = r'.heardCount) (h₅ : r.bestRssi = r'.bestRssi)
    (h₆ : r.bestSnr = r'.bestSnr) : r = r' := by
  obtain ⟨_, _, _, _, _, _⟩ := r
  obtain ⟨_, _, _, _, _, _⟩ := r'
  simp_all

/-! ### Contacts -/

def Op.firstSeen? : Op → Option ℤ
  | upsert firstSeen _ _ => firstSeen
  | _ => none

def Op.lastSeen? : Op → Option ℤ
  | upsert _ lastSeen _ => lastSeen
  | touchLastSeen timestamp => some timestamp
  | _ => none

def Op.lastContacted? : Op → Option ℤ
  | upsert _ _ lastContacted => lastContacted
  | updateLastContacted timestamp => some timestamp
  | _ => none

def Op.isUpsert : Op → Bool
  | upsert _ _ _ => true
  | _ => false

/-- The row of a contact that began with an upsert. -/
theorem contactRow_of_upsert {ops : List Op} (h : ∃ op ∈ ops.head?, op.isUpsert = true) :
    ∃ row, ops.foldl Op.onContact none = some row ∧
      row.firstSeen = (ops.filterMap Op.firstSeen?).head? ∧
      row.lastSeen = (ops.filterMap Op.lastSeen?).max? ∧
      row.lastContacted = (ops.filterMap Op.lastContacted?).getLast? := by
  induction ops using List.reverseRecOn with
  | nil =>
    obtain ⟨op, hop, -⟩ := h
    cases hop
  | append_singleton ops op ih =>
    rw [List.foldl_append, List.filterMap_append, List.filterMap_append, List.filterMap_append,
      List.head?_append, max?_append, List.getLast?_append, filterMap_one, filterMap_one,
      filterMap_one, max?_toList, ← laterSeen_eq]
    by_cases hnil : ops = []
    · subst hnil
      obtain ⟨op', hop, hupsert⟩ := h
      obtain rfl : op = op' := Option.some.inj hop
      cases op with
      | upsert firstSeen lastSeen lastContacted =>
        refine ⟨_, rfl, ?_, ?_, ?_⟩
        · cases firstSeen <;> rfl
        · cases lastSeen <;> rfl
        · cases lastContacted <;> rfl
      | updateLastContacted => cases hupsert
      | touchLastSeen => cases hupsert
      | recordName => cases hupsert
      | recordObservation => cases hupsert
    · obtain ⟨a, l, rfl⟩ := List.exists_cons_of_ne_nil hnil
      obtain ⟨row, hrow, hfirst, hseen, hcontacted⟩ := ih h
      rw [hrow, ← hfirst, ← hseen, ← hcontacted]
      have hkept : ∀ x : Option ℤ, laterSeen x none = x := by
        intro x
        cases x <;> rfl
      cases op with
      | upsert firstSeen lastSeen lastContacted =>
        refine ⟨_, rfl, ?_, rfl, ?_⟩
        · show coalesce row.firstSeen firstSeen = _
          cases firstSeen <;> rfl
        · show coalesce lastContacted row.lastContacted = _
          cases lastContacted <;> rfl
      | updateLastContacted t | recordName name t
      | recordObservation o => exact ⟨_, rfl, (Option.or_none).symm, (hkept _).symm, rfl⟩
      | touchLastSeen t => exact ⟨_, rfl, (Option.or_none).symm, rfl, rfl⟩

end RtfmEv.Contacts
