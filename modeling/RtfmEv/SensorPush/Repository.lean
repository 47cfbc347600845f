import Mathlib.Data.List.Sort
import RtfmEv.Lib.Bytes
import RtfmEv.Lib.OrderedDict

/-!
# Sensor push subscriptions (`app/repository/sensor_push.py`)

One row for each sensor, in the order in which the rows were inserted. A tag is
stored as hex in lower case and compared so, which makes it the bytes that the hex
stands for. Keys are hex in lower case, too.
-/

namespace RtfmEv.SensorPush

open RtfmEv.Lib

abbrev PublicKey := List (Fin 16)

/-- What the user picked to be watched on one channel. -/
structure Threshold where
  channel : ℤ
  typeName : String
  minDelta : ℚ
  deriving DecidableEq

inductive PushError
  | noReply
  | refused
  deriving DecidableEq

/-- A row of `sensor_push_subscriptions` without its key, with the defaults of the
table. The scope's name is kept as the bytes it is decoded from. -/
structure Row where
  enabled : Bool := false
  pushTag : Option Bytes := none
  thresholds : List Threshold := []
  grantedUntil : Option ℤ := none
  scopeName : Option Bytes := none
  lastPushAt : Option ℤ := none
  lastAttemptAt : Option ℤ := none
  lastError : Option PushError := none
  updatedAt : ℤ
  deriving DecidableEq

abbrev Rows := OrderedDict PublicKey Row

/-- `UPDATE … WHERE public_key = ?`. -/
def updateRow (key : PublicKey) (f : Row → Row) (rows : Rows) : Rows :=
  match rows.get? key with
  | none => rows
  | some row => rows.set key (f row)

/-- `INSERT … ON CONFLICT(public_key) DO UPDATE`. -/
def upsertRow (key : PublicKey) (fresh : Row) (f : Row → Row) (rows : Rows) : Rows :=
  rows.set key ((rows.get? key).elim fresh f)

def saveConfig (key : PublicKey) (thresholds : List Threshold) (now : ℤ) : Rows → Rows :=
  upsertRow key { thresholds := thresholds, updatedAt := now }
    (fun row => { row with thresholds := thresholds, updatedAt := now })

def setEnabled (key : PublicKey) (enabled : Bool) (now : ℤ) : Rows → Rows :=
  upsertRow key { enabled := enabled, updatedAt := now }
    (fun row =>
      { row with
        enabled := enabled
        updatedAt := now
        grantedUntil := if enabled then row.grantedUntil else none })

def markAttempt (key : PublicKey) (pushTag : Bytes) (now : ℤ) : Rows → Rows :=
  updateRow key (fun row =>
    { row with pushTag := some pushTag, lastAttemptAt := some now, updatedAt := now })

def setGranted (key : PublicKey) (pushTag : Bytes) (grantedUntil : ℤ) (scopeName : Bytes)
    (now : ℤ) : Rows → Rows :=
  updateRow key (fun row =>
    { row with
      pushTag := some pushTag
      grantedUntil := some grantedUntil
      scopeName := some scopeName
      lastError := none
      updatedAt := now })

def setError (key : PublicKey) (error : PushError) (now : ℤ) : Rows → Rows :=
  updateRow key (fun row =>
    { row with lastError := some error, lastAttemptAt := some now, updatedAt := now })

def recordPush (key : PublicKey) (now : ℤ) : Rows → Rows :=
  updateRow key (fun row => { row with lastPushAt := some now })

/-- An enabled row with this tag. -/
def holdsTag (tag : Bytes) (row : Row) : Bool := decide (row.pushTag = some tag) && row.enabled

/-- The first row found, which is the one inserted first. -/
def findEnabledByTag (tag : Bytes) (rows : Rows) : Option (PublicKey × Row) :=
  rows.entries.find? (fun e => holdsTag tag e.2)

def listEnabled (rows : Rows) : List (PublicKey × Row) :=
  (rows.entries.filter (fun e => e.2.enabled)).insertionSort (fun e e' => e.1 ≤ e'.1)

/-- The rows that were inserted before a sensor's. -/
def rowsBefore (key : PublicKey) (rows : Rows) : List (PublicKey × Row) :=
  rows.entries.takeWhile (fun e => decide (e.1 ≠ key))

/-- The tag that is stored for a sensor. -/
def storedTag (key : PublicKey) (rows : Rows) : Option Bytes := (rows.get? key).bind Row.pushTag

/-! ## What a write does to the tags -/

/-- Two tables with the same tag and no row less. -/
structure SameTags (rows rows' : Rows) : Prop where
  tags : ∀ key, storedTag key rows' = storedTag key rows
  kept : ∀ key, (rows.get? key).isSome → (rows'.get? key).isSome

variable (key : PublicKey) {f : Row → Row} {row : Row} {rows : Rows}

theorem get?_updateRow_self (f : Row → Row) (rows : Rows) :
    (updateRow key f rows).get? key = (rows.get? key).map f := by
  unfold updateRow
  cases h : rows.get? key with
  | none => exact h
  | some row => exact OrderedDict.get?_set_self rows key (f row)

theorem get?_updateRow_of_ne {key key' : PublicKey} (f : Row → Row) (rows : Rows)
    (h : key' ≠ key) : (updateRow key f rows).get? key' = rows.get? key' := by
  unfold updateRow
  cases rows.get? key with
  | none => rfl
  | some row => exact OrderedDict.get?_set_of_ne h

theorem isSome_updateRow (key' : PublicKey) (f : Row → Row) (rows : Rows) :
    ((updateRow key f rows).get? key').isSome = (rows.get? key').isSome := by
  by_cases h : key' = key
  · rw [h, get?_updateRow_self, Option.isSome_map]
  · rw [get?_updateRow_of_ne f rows h]

theorem sameTags_updateRow (hf : ∀ row, (f row).pushTag = row.pushTag)
    (key : PublicKey) (rows : Rows) : SameTags rows (updateRow key f rows) := by
  refine ⟨fun key' => ?_, fun key' h => (isSome_updateRow key key' f rows).symm ▸ h⟩
  unfold storedTag
  by_cases h : key' = key
  · rw [h, get?_updateRow_self]
    cases rows.get? key with
    | none => rfl
    | some row => exact hf row
  · rw [get?_updateRow_of_ne f rows h]

theorem sameTags_upsertRow {fresh : Row} (hfresh : fresh.pushTag = none)
    (hf : ∀ row, (f row).pushTag = row.pushTag) (key : PublicKey) (rows : Rows) :
    SameTags rows (upsertRow key fresh f rows) := by
  unfold upsertRow
  constructor
  · intro key'
    unfold storedTag
    by_cases h : key' = key
    · rw [h, OrderedDict.get?_set_self]
      cases rows.get? key with
      | none => exact hfresh
      | some row => exact hf row
    · rw [OrderedDict.get?_set_of_ne h]
  · intro key' hsome
    by_cases h : key' = key
    · rw [h, OrderedDict.get?_set_self]
      rfl
    · rw [OrderedDict.get?_set_of_ne h]
      exact hsome

theorem sameTags_saveConfig (thresholds : List Threshold) (now : ℤ)
    (rows : Rows) : SameTags rows (saveConfig key thresholds now rows) := by
  unfold saveConfig
  refine sameTags_upsertRow ?_ ?_ key rows
  · rfl
  · exact fun _ => rfl

theorem sameTags_setEnabled (enabled : Bool) (now : ℤ) (rows : Rows) :
    SameTags rows (setEnabled key enabled now rows) := by
  unfold setEnabled
  refine sameTags_upsertRow ?_ ?_ key rows
  · rfl
  · exact fun _ => rfl

theorem sameTags_setError (error : PushError) (now : ℤ) (rows : Rows) :
    SameTags rows (setError key error now rows) := by
  unfold setError
  refine sameTags_updateRow ?_ key rows
  exact fun _ => rfl

theorem sameTags_recordPush (now : ℤ) (rows : Rows) :
    SameTags rows (recordPush key now rows) := by
  unfold recordPush
  refine sameTags_updateRow ?_ key rows
  exact fun _ => rfl

/-- Writing a tag to a row that is there. -/
theorem storedTag_updateRow {tag : Bytes}
    (hf : ∀ row, (f row).pushTag = some tag) {key : PublicKey}
    (hrow : (rows.get? key).isSome) (key' : PublicKey) :
    storedTag key' (updateRow key f rows) =
      if key' = key then some tag else storedTag key' rows := by
  unfold storedTag
  by_cases h : key' = key
  · obtain ⟨row, hget⟩ := Option.isSome_iff_exists.mp hrow
    rw [h, get?_updateRow_self, hget, if_pos rfl]
    exact hf row
  · rw [get?_updateRow_of_ne f rows h, if_neg h]

/-! ## Looking up by tag -/

theorem holdsTag_eq_true_iff {tag : Bytes} :
    holdsTag tag row = true ↔ row.pushTag = some tag ∧ row.enabled = true := by
  simp [holdsTag]

theorem storedTag_of_mem {e : PublicKey × Row} (he : e ∈ rows.entries) :
    storedTag e.1 rows = e.2.pushTag := by
  rw [storedTag, OrderedDict.get?_eq_some_iff.mpr he]
  rfl

theorem rowsBefore_eq {pre post : List (PublicKey × Row)} {key : PublicKey}
    (hsplit : rows.entries = pre ++ (key, row) :: post)
    (hother : ∀ e ∈ pre, e.1 ≠ key) : rowsBefore key rows = pre := by
  rw [rowsBefore, hsplit, List.takeWhile_append_of_pos (fun e he => by simpa using hother e he),
    List.takeWhile_cons_of_neg (by simp), List.append_nil]

/-- A lookup finds a sensor when the sensor's enabled row has the tag and no
enabled row before it has it, too. -/
theorem findEnabledByTag_key_iff {key : PublicKey}
    (hget : rows.get? key = some row) (hon : row.enabled = true) (tag : Bytes) :
    (findEnabledByTag tag rows).map Prod.fst = some key ↔
      storedTag key rows = some tag ∧
        ∀ e ∈ rowsBefore key rows, e.2.enabled = true → storedTag e.1 rows ≠ some tag := by
  have hself := OrderedDict.get?_eq_some_iff.mp hget
  obtain ⟨pre, post, hsplit⟩ := List.append_of_mem hself
  have hmem : ∀ e ∈ pre, e ∈ rows.entries := fun e he => hsplit ▸ List.mem_append_left _ he
  have hnodup := rows.nodup
  rw [hsplit, List.map_append, List.map_cons] at hnodup
  have hother : ∀ e ∈ pre, e.1 ≠ key := fun e he =>
    (List.nodup_append.mp hnodup).2.2 e.1 (List.mem_map_of_mem he) key List.mem_cons_self
  rw [rowsBefore_eq hsplit hother]
  rw [storedTag_of_mem hself, findEnabledByTag, hsplit, List.find?_append]
  cases hfind : pre.find? (fun e => holdsTag tag e.2) with
  | some e =>
    have he := List.mem_of_find?_eq_some hfind
    obtain ⟨htag, hen⟩ := holdsTag_eq_true_iff.mp
      (List.find?_some (p := fun e : PublicKey × Row => holdsTag tag e.2) hfind)
    constructor
    · intro h
      exact absurd (Option.some.inj h) (hother e he)
    · intro h
      exact absurd ((storedTag_of_mem (hmem e he)).trans htag) (h.2 e he hen)
  | none =>
    have hnone : ∀ e ∈ pre, e.2.enabled = true → storedTag e.1 rows ≠ some tag := by
      intro e he hen htag
      rw [storedTag_of_mem (hmem e he)] at htag
      exact List.find?_eq_none.mp hfind e he (holdsTag_eq_true_iff.mpr ⟨htag, hen⟩)
    rw [Option.none_or, List.find?_cons]
    cases hholds : holdsTag tag row with
    | true => exact iff_of_true rfl ⟨(holdsTag_eq_true_iff.mp hholds).1, hnone⟩
    | false =>
      have hne : row.pushTag ≠ some tag := fun htag =>
        absurd (holdsTag_eq_true_iff.mpr ⟨htag, hon⟩) (by rw [hholds]; exact Bool.false_ne_true)
      refine iff_of_false (fun h => ?_) (fun h => hne h.1)
      obtain ⟨e, he, hkey⟩ := Option.map_eq_some_iff.mp h
      have hpost : e ∈ post := List.mem_of_find?_eq_some he
      have htail := (List.nodup_append.mp hnodup).2.1
      rw [List.nodup_cons] at htail
      exact htail.1 (List.mem_map.mpr ⟨e, hpost, hkey⟩)

end RtfmEv.SensorPush
