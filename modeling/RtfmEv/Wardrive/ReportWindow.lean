import Mathlib.Data.List.Pairwise
import RtfmEv.Lib.OrderedDict
import RtfmEv.Wardrive.Queries

/-!
# The window of a truncated report (`app/wardrive/report.py`)

Receptions and track rows are each cut to their newest rows, and then to the time that both
kinds cover. The cut by count may fall inside a second, and the rows of that second that it
leaves out are then missing from the window.
-/

namespace RtfmEv.Wardrive

open RtfmEv.Lib

variable {δ ν ι : Type}

/-! ### The rows of a report -/

/-- The rows of one kind in the scope, newest first. -/
def World.rowsInScope (w : World δ ν) (isObs : Bool) (driveIds userIds : Option (List ℕ))
    (since untilTs : Option ℤ) (radioKey : Option String) : List (ReportRow δ) :=
  ((w.db.rows.filter (fun row => row.reading.isObs = isObs &&
    match driveIds with
    | some ids => row.driveId ∈ ids
    | none => chosen userIds (fun ids => row.userId ∈ ids) &&
        chosen since (fun since => since ≤ row.reading.ts) &&
        chosen untilTs (fun untilTs => row.reading.ts ≤ untilTs) &&
        chosen radioKey (fun key => row.radioKey = key))).insertionSort newerRow).filterMap
      w.reportRow

/-- What a report reads: the rows, and the cut where there were too many. -/
def World.reportWindow (w : World δ ν) (driveIds userIds : Option (List ℕ))
    (since untilTs : Option ℤ) (radioKey : Option String) (limit : ℕ) :
    List (ReportRow δ) × List (ReportRow δ) × Option ℤ :=
  let rows := w.rowsForReport driveIds userIds since untilTs radioKey limit
  if rows.2.2 then trimToCommonWindow rows.1 rows.2.1 limit else (rows.1, rows.2.1, none)

/-- A time at or after the cut. -/
def atOrAfter (cut : Option ℤ) (row : ReportRow δ) : Bool :=
  cut.all (fun cut => cut ≤ row.reading.ts)

/-! ### Cells -/

structure Cell where
  rssi : List (Option ℚ)
  rssiBest : Option ℚ
  trackS : ℤ
  firstTs : ℤ

/-- `cell`, with the cell that it adds where there is none. -/
def cell (cells : OrderedDict ι Cell) [DecidableEq ι] (cid : ι) (ts : ℤ) : Cell :=
  (cells.get? cid).getD ⟨[], none, 0, ts⟩

variable [DecidableEq ι] (cellAt : ReportRow δ → ι) (rssi : ReportRow δ → Option ℚ)

def addReception (cells : OrderedDict ι Cell) (o : ReportRow δ) : OrderedDict ι Cell :=
  let c := cell cells (cellAt o) o.reading.ts
  cells.set (cellAt o)
    { c with
      rssi := c.rssi ++ [rssi o]
      rssiBest := match rssi o, c.rssiBest with
        | none, best => best
        | some rssi, none => some rssi
        | some rssi, some best => if rssi > best then some rssi else some best }

def addTrack (cells : OrderedDict ι Cell) (t : ReportRow δ) : OrderedDict ι Cell :=
  let c := cell cells (cellAt t) t.reading.ts
  let endTs := if t.reading.endTs = 0 then t.reading.ts else t.reading.endTs
  cells.set (cellAt t) { c with trackS := c.trackS + max 0 (endTs - t.reading.ts) }

/-- The cells of `build_report`, by the hexagon of a row. -/
def reportCells (obs tracks : List (ReportRow δ)) : OrderedDict ι Cell :=
  let older := fun row row' : ReportRow δ => row.reading.ts ≤ row'.reading.ts
  (tracks.insertionSort older).foldl (addTrack cellAt)
    ((obs.insertionSort older).foldl (addReception cellAt rssi) OrderedDict.empty)

/-- A cell that was driven and has no reception. -/
def Gap (cells : OrderedDict ι Cell) (cid : ι) : Prop :=
  ∃ c, cells.get? cid = some c ∧ c.rssi = []

/-- **What the common window is for**: the report has all rows since its cut, and where it shows
a gap nothing was received since. -/
structure NoFalseGaps (w : World δ ν) (driveIds userIds : Option (List ℕ))
    (since untilTs : Option ℤ) (radioKey : Option String) (limit : ℕ) : Prop where
  obs : (w.reportWindow driveIds userIds since untilTs radioKey limit).1 =
    (w.rowsInScope true driveIds userIds since untilTs radioKey).filter
      (atOrAfter (w.reportWindow driveIds userIds since untilTs radioKey limit).2.2)
  tracks : (w.reportWindow driveIds userIds since untilTs radioKey limit).2.1 =
    (w.rowsInScope false driveIds userIds since untilTs radioKey).filter
      (atOrAfter (w.reportWindow driveIds userIds since untilTs radioKey limit).2.2)
  gaps : ∀ cid, Gap (reportCells cellAt rssi
      (w.reportWindow driveIds userIds since untilTs radioKey limit).1
      (w.reportWindow driveIds userIds since untilTs radioKey limit).2.1) cid →
    ∀ o ∈ w.rowsInScope true driveIds userIds since untilTs radioKey,
      atOrAfter (w.reportWindow driveIds userIds since untilTs radioKey limit).2.2 o = true →
        cellAt o ≠ cid

/-- **No second is split**: where the count leaves out a row, and it is as old as the oldest that
is kept, the other kind is cut at a later second. -/
def SecondsWhole (limit : ℕ) (rows others : List (ReportRow δ)) : Prop :=
  ∀ last ∈ rows[limit - 1]?, ∀ next ∈ rows[limit]?, next.reading.ts = last.reading.ts →
    ∃ other ∈ others[limit - 1]?, last.reading.ts < other.reading.ts

/-! ### Cuts -/

section Cut

variable {rows others : List (ReportRow δ)} {n limit : ℕ} {cut : ℤ}

def NewestFirst (rows : List (ReportRow δ)) : Prop :=
  rows.Pairwise (fun row row' => row'.reading.ts ≤ row.reading.ts)

/-- The rows that the count keeps are all since the cut, when the next one is before it. -/
theorem filter_take_eq_filter_iff (h : NewestFirst rows) :
    (rows.take n).filter (atOrAfter (some cut)) = rows.filter (atOrAfter (some cut)) ↔
      ∀ row ∈ rows[n]?, row.reading.ts < cut := by
  conv_lhs => rhs; rw [← List.take_append_drop n rows, List.filter_append]
  rw [List.self_eq_append_right, List.filter_eq_nil_iff, ← List.head?_drop]
  have hdrop : NewestFirst (rows.drop n) := h.sublist (List.drop_sublist n rows)
  cases hrest : rows.drop n with
  | nil => exact iff_of_true (fun row hrow => (nomatch hrow)) (fun row hrow => (nomatch hrow))
  | cons row rest =>
    rw [hrest] at hdrop
    constructor
    · intro hnone row' hrow'
      cases hrow'
      exact not_le.mp fun hle => hnone row List.mem_cons_self (decide_eq_true hle)
    · intro hlast row' hrow' hin
      have hle : row'.reading.ts ≤ row.reading.ts := by
        rcases List.mem_cons.mp hrow' with rfl | hrest'
        · exact le_rfl
        · exact List.rel_of_pairwise_cons hdrop hrest'
      exact absurd ((of_decide_eq_true hin).trans hle) (not_le.mpr (hlast row rfl))

/-- The oldest of the kept rows is the last of them. -/
theorem floor_take (h : NewestFirst rows) (hlimit : 0 < limit) :
    (if limit ≤ (rows.take limit).length then
      ((rows.take limit).map (fun row => row.reading.ts)).min? else none) =
        rows[limit - 1]?.map (fun row => row.reading.ts) := by
  rw [List.length_take]
  split_ifs with hfull
  · have hlt : limit - 1 < rows.length := by omega
    rw [List.getElem?_eq_getElem hlt, Option.map_some, List.min?_eq_some_iff]
    refine ⟨List.mem_map_of_mem (List.mem_take_iff_getElem.mpr ⟨limit - 1, by omega, rfl⟩), ?_⟩
    intro ts hts
    obtain ⟨row, hrow, rfl⟩ := List.mem_map.mp hts
    obtain ⟨i, hi, rfl⟩ := List.mem_take_iff_getElem.mp hrow
    rcases (show i ≤ limit - 1 by omega).eq_or_lt with rfl | hlt'
    · exact le_rfl
    · exact List.pairwise_iff_getElem.mp h i (limit - 1) (by omega) hlt hlt'
  · rw [List.getElem?_eq_none (by omega), Option.map_none]

/-- The time that the kept rows of both kinds cover starts at the later of their last rows. -/
def commonCut (limit : ℕ) (rows others : List (ReportRow δ)) : Option ℤ :=
  ((rows[limit - 1]?.map (fun row => row.reading.ts)).toList ++
    (others[limit - 1]?.map (fun row => row.reading.ts)).toList).max?

theorem commonCut_comm : commonCut limit rows others = commonCut limit others rows := by
  rw [commonCut, commonCut]
  cases rows[limit - 1]?.map (fun row => row.reading.ts) <;>
    cases others[limit - 1]?.map (fun row => row.reading.ts) <;> simp [List.max?, max_comm]

theorem exists_commonCut (hlimit : 0 < limit)
    (hmany : limit < rows.length ∨ limit < others.length) :
    ∃ cut, commonCut limit rows others = some cut := by
  rw [← Option.ne_none_iff_exists', commonCut, ne_eq, List.max?_eq_none_iff,
    List.append_eq_nil_iff, Option.toList_eq_nil_iff, Option.toList_eq_nil_iff,
    Option.map_eq_none_iff, Option.map_eq_none_iff, List.getElem?_eq_none_iff,
    List.getElem?_eq_none_iff]
  omega

theorem trimToCommonWindow_take (h : NewestFirst rows) (ho : NewestFirst others)
    (hlimit : 0 < limit) :
    trimToCommonWindow (rows.take limit) (others.take limit) limit =
      ((rows.take limit).filter (atOrAfter (commonCut limit rows others)),
        (others.take limit).filter (atOrAfter (commonCut limit rows others)),
        commonCut limit rows others) := by
  simp only [trimToCommonWindow, floor_take h hlimit, floor_take ho hlimit]
  cases hcut : commonCut limit rows others with
  | none =>
    rw [commonCut] at hcut
    rw [hcut]
    exact Prod.ext (List.filter_true _).symm (Prod.ext (List.filter_true _).symm rfl)
  | some cut =>
    rw [commonCut] at hcut
    rw [hcut]
    rfl

/-- A kind that has more rows than the count is whole since the cut just when its last second is
not split, or the other kind ends later. -/
theorem filter_take_eq_iff_secondsWhole (h : NewestFirst rows) (hlimit : 0 < limit)
    (hcut : ∃ cut, commonCut limit rows others = some cut) :
    (rows.take limit).filter (atOrAfter (commonCut limit rows others)) =
      rows.filter (atOrAfter (commonCut limit rows others)) ↔ SecondsWhole limit rows others := by
  obtain ⟨cut, hcut⟩ := hcut
  rw [hcut, filter_take_eq_filter_iff h]
  rw [commonCut, List.max?_eq_some_iff] at hcut
  obtain ⟨hmem, hmax⟩ := hcut
  have hlater : ∀ row ∈ rows[limit - 1]?, row.reading.ts ≤ cut := fun row hrow =>
    hmax _ (List.mem_append_left _ (by simp [Option.mem_def.mp hrow]))
  have hlater' : ∀ row ∈ others[limit - 1]?, row.reading.ts ≤ cut := fun row hrow =>
    hmax _ (List.mem_append_right _ (by simp [Option.mem_def.mp hrow]))
  constructor
  · intro hbefore last hlast next hnext heq
    have hlt := hbefore next hnext
    rcases List.mem_append.mp hmem with hown | hother
    · obtain ⟨row, hrow, rfl⟩ := Option.map_eq_some_iff.mp (Option.mem_toList.mp hown)
      cases Option.some.inj (hrow.symm.trans hlast)
      exact absurd heq hlt.ne
    · obtain ⟨row, hrow, rfl⟩ := Option.map_eq_some_iff.mp (Option.mem_toList.mp hother)
      exact ⟨row, hrow, heq ▸ hlt⟩
  · intro hwhole next hnext
    obtain ⟨hlt, rfl⟩ := List.getElem?_eq_some_iff.mp hnext
    have hlt' : limit - 1 < rows.length := by omega
    have hlast : rows[limit - 1]? = some rows[limit - 1] := List.getElem?_eq_getElem _
    have hle : rows[limit].reading.ts ≤ rows[limit - 1].reading.ts :=
      List.pairwise_iff_getElem.mp h (limit - 1) limit hlt' hlt (by omega)
    rcases hle.eq_or_lt with heq | hearlier
    · obtain ⟨other, hother, hgt⟩ := hwhole _ hlast _ hnext heq
      exact (heq ▸ hgt).trans_le (hlater' other hother)
    · exact hearlier.trans_le (hlater _ hlast)

end Cut

/-! ### Gaps -/

section Gaps

variable {cellAt rssi} {cells : OrderedDict ι Cell} {obs tracks : List (ReportRow δ)} {cid : ι}

theorem exists_reception_of_foldl (hcid : (∃ o ∈ obs, cellAt o = cid) ∨
      ∃ c, cells.get? cid = some c ∧ c.rssi ≠ []) :
    ∃ c, (obs.foldl (addReception cellAt rssi) cells).get? cid = some c ∧ c.rssi ≠ [] := by
  induction obs generalizing cells with
  | nil => exact hcid.resolve_left (fun ⟨o, ho, _⟩ => (nomatch ho))
  | cons o obs ih =>
    refine ih ?_
    rw [addReception, OrderedDict.get?_set]
    by_cases heq : cid = cellAt o
    · rw [if_pos heq]
      exact Or.inr ⟨_, rfl, List.append_ne_nil_of_right_ne_nil _ (List.cons_ne_nil _ _)⟩
    · rw [if_neg heq]
      refine hcid.imp_left ?_
      rintro ⟨o', ho', hcell⟩
      rcases List.mem_cons.mp ho' with rfl | hin
      · exact absurd hcell.symm heq
      · exact ⟨o', hin, hcell⟩

theorem exists_reception_of_tracks
    (hcid : ∃ c, cells.get? cid = some c ∧ c.rssi ≠ []) :
    ∃ c, (tracks.foldl (addTrack cellAt) cells).get? cid = some c ∧ c.rssi ≠ [] := by
  induction tracks generalizing cells with
  | nil => exact hcid
  | cons t tracks ih =>
    refine ih ?_
    obtain ⟨c, hget, hne⟩ := hcid
    rw [addTrack, OrderedDict.get?_set]
    by_cases heq : cid = cellAt t
    · refine ⟨_, if_pos heq, ?_⟩
      rw [cell, ← heq, hget]
      exact hne
    · exact ⟨c, (if_neg heq).trans hget, hne⟩

theorem cellAt_ne_of_gap (h : Gap (reportCells cellAt rssi obs tracks) cid) {o : ReportRow δ}
    (ho : o ∈ obs) : cellAt o ≠ cid := by
  intro hcell
  obtain ⟨c, hget, hnil⟩ := h
  obtain ⟨c', hget', hne⟩ : ∃ c', (reportCells cellAt rssi obs tracks).get? cid = some c' ∧
      c'.rssi ≠ [] :=
    exists_reception_of_tracks (exists_reception_of_foldl (Or.inl ⟨o, (List.mem_insertionSort (fun row row' : ReportRow δ =>
        row.reading.ts ≤ row'.reading.ts)).mpr ho, hcell⟩))
  cases Option.some.inj (hget.symm.trans hget')
  exact hne hnil

end Gaps

/-! ### The report -/

section Report

variable {w : World δ ν} {isObs : Bool} {driveIds userIds : Option (List ℕ)}
  {since untilTs : Option ℤ} {radioKey : Option String} {limit : ℕ}

theorem newestFirst_rowsInScope :
    NewestFirst (w.rowsInScope isObs driveIds userIds since untilTs radioKey) := by
  have htotal : Std.Total (newerRow (δ := δ)) := ⟨fun row row' => by unfold newerRow; omega⟩
  have htrans : IsTrans (Row δ) newerRow := ⟨fun a b c hab hbc => by unfold newerRow at *; omega⟩
  refine (List.pairwise_insertionSort newerRow _).filterMap _ ?_
  intro row row' hnewer out hout out' hout'
  obtain ⟨name, -, rfl⟩ := Option.map_eq_some_iff.mp hout
  obtain ⟨name', -, rfl⟩ := Option.map_eq_some_iff.mp hout'
  rcases hnewer with hlt | ⟨heq, -⟩
  · exact hlt.le
  · exact heq.ge

theorem rowsOfKind_eq (limit : ℕ) :
    w.rowsOfKind isObs driveIds userIds since untilTs radioKey limit =
      (w.rowsInScope isObs driveIds userIds since untilTs radioKey).take (limit + 1) := rfl

theorem reportWindow_eq (hlimit : 0 < limit) :
    let obs := w.rowsInScope true driveIds userIds since untilTs radioKey
    let tracks := w.rowsInScope false driveIds userIds since untilTs radioKey
    w.reportWindow driveIds userIds since untilTs radioKey limit =
      if limit < obs.length ∨ limit < tracks.length then
        ((obs.take limit).filter (atOrAfter (commonCut limit obs tracks)),
          (tracks.take limit).filter (atOrAfter (commonCut limit obs tracks)),
          commonCut limit obs tracks)
      else (obs, tracks, none) := by
  intro obs tracks
  have htake : ∀ rows : List (ReportRow δ), (rows.take (limit + 1)).take limit = rows.take limit :=
    fun rows => by rw [List.take_take, min_eq_left (Nat.le_succ limit)]
  have hmore : ∀ rows : List (ReportRow δ),
      limit < (rows.take (limit + 1)).length ↔ limit < rows.length := fun rows => by
    rw [List.length_take]
    omega
  rw [World.reportWindow, World.rowsForReport, rowsOfKind_eq, rowsOfKind_eq]
  simp only [htake, hmore, Bool.or_eq_true, decide_eq_true_eq]
  split_ifs with hmany
  · exact trimToCommonWindow_take newestFirst_rowsInScope newestFirst_rowsInScope hlimit
  · obtain ⟨hobs, htracks⟩ := not_or.mp hmany
    exact Prod.ext (List.take_of_length_le (not_lt.mp hobs))
      (Prod.ext (List.take_of_length_le (not_lt.mp htracks)) rfl)

/-- **A truncated report shows no false gaps just when its cut splits no second.** -/
theorem noFalseGaps_iff (hlimit : 0 < limit) :
    NoFalseGaps cellAt rssi w driveIds userIds since untilTs radioKey limit ↔
      SecondsWhole limit (w.rowsInScope true driveIds userIds since untilTs radioKey)
          (w.rowsInScope false driveIds userIds since untilTs radioKey) ∧
        SecondsWhole limit (w.rowsInScope false driveIds userIds since untilTs radioKey)
          (w.rowsInScope true driveIds userIds since untilTs radioKey) := by
  have hobs : NewestFirst (w.rowsInScope true driveIds userIds since untilTs radioKey) :=
    newestFirst_rowsInScope
  have htracks : NewestFirst (w.rowsInScope false driveIds userIds since untilTs radioKey) :=
    newestFirst_rowsInScope
  have hgaps : ∀ (rows : List (ReportRow δ) × List (ReportRow δ) × Option ℤ)
      (all : List (ReportRow δ)), rows.1 = all.filter (atOrAfter rows.2.2) → ∀ cid,
        Gap (reportCells cellAt rssi rows.1 rows.2.1) cid →
          ∀ o ∈ all, atOrAfter rows.2.2 o = true → cellAt o ≠ cid :=
    fun rows all hrows cid hgap o ho hin =>
      cellAt_ne_of_gap hgap (hrows ▸ List.mem_filter.mpr ⟨ho, hin⟩)
  have hboth : NoFalseGaps cellAt rssi w driveIds userIds since untilTs radioKey limit ↔ _ ∧ _ :=
    ⟨fun hold => ⟨hold.obs, hold.tracks⟩, fun hrows => ⟨hrows.1, hrows.2, hgaps _ _ hrows.1⟩⟩
  rw [hboth, reportWindow_eq hlimit]
  generalize w.rowsInScope true driveIds userIds since untilTs radioKey = obs at hobs ⊢
  generalize w.rowsInScope false driveIds userIds since untilTs radioKey = tracks at htracks ⊢
  split_ifs with hmany
  · have hcut := exists_commonCut hlimit hmany
    refine and_congr (filter_take_eq_iff_secondsWhole hobs hlimit hcut) ?_
    rw [commonCut_comm] at hcut ⊢
    exact filter_take_eq_iff_secondsWhole htracks hlimit hcut
  · obtain ⟨hfew, hfew'⟩ := not_or.mp hmany
    have hwhole : ∀ rows others : List (ReportRow δ), ¬ limit < rows.length →
        SecondsWhole limit rows others := fun rows others hle last _ next hnext => by
      rw [List.getElem?_eq_none (not_lt.mp hle)] at hnext
      cases hnext
    exact iff_of_true ⟨(List.filter_true _).symm, (List.filter_true _).symm⟩
      ⟨hwhole _ _ hfew, hwhole _ _ hfew'⟩

/-! ### A split second -/

def fifth : Instant := ⟨5000, by decide, by decide⟩

/-- Two receptions and a track row of the same second; the older reception is where the track row
is. -/
def splitSecond : World ℕ Unit where
  db.rows :=
    [⟨1, 1, "k", .obs fifth "a" 7, 1⟩, ⟨2, 1, "k", .obs fifth "b" 8, 1⟩,
      ⟨3, 1, "k", .track fifth fifth 7, 1⟩]
  users := [⟨1, "ann", .all⟩]
  groups := []
  radios := []
  nodes := ()

/-- The hexagon of a row of `splitSecond`. -/
def hexagon (row : ReportRow ℕ) : ℕ :=
  match row.reading with
  | .obs _ _ data => data
  | .track _ _ data => data

/-- With room for two of each kind the report is whole. -/
theorem noFalseGaps_splitSecond :
    NoFalseGaps hexagon (fun _ => none) splitSecond none none none none none 2 := by
  refine (noFalseGaps_iff _ _ two_pos).mpr ⟨?_, ?_⟩
  · exact fun last _ next hnext => (nomatch hnext)
  · exact fun last _ next hnext => (nomatch hnext)

/-- With room for one, the report shows a gap where there was a reception at the cut. -/
theorem not_forall_noFalseGaps : ¬ ∀ (w : World ℕ Unit) (driveIds userIds : Option (List ℕ))
    (since untilTs : Option ℤ) (radioKey : Option String) (limit : ℕ), 0 < limit →
    NoFalseGaps hexagon (fun _ => none) w driveIds userIds since untilTs radioKey limit := by
  intro hall
  have hold := hall splitSecond none none none none none 1 one_pos
  refine hold.gaps 7 ⟨_, rfl, rfl⟩ ⟨1, 1, "ann", "k", .obs fifth "a" 7⟩ ?_ rfl rfl
  exact List.mem_cons_of_mem _ List.mem_cons_self

end Report

end RtfmEv.Wardrive
