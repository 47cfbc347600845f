import Mathlib.Data.List.MinMax
import RtfmEv.Lib.GroupBy

/-!
# Relay statistics (`app/services/relay_reception.py`, `app/repository/relay_history.py`)

Every copy of a flooded packet that is received is a row. Before old rows are pruned,
complete hours are folded into an hourly history. A window of time is answered from the
history for its older part and from the rows for the rest. Counts only; what is said of
the signal is left out.
-/

namespace RtfmEv.RelayHistory

open RtfmEv.Lib

/-- A row of `packet_receptions`. The relay is the last hop, empty for the origin. -/
structure Reception where
  id : ℕ
  payloadHash : ℕ
  relayHex : String
  observedAt : ℕ
  deriving DecidableEq

structure RelayStatsRow where
  relayHex : String
  bucketTs : Option ℕ
  receptions : ℕ
  packets : ℕ
  firstArrivals : ℕ
  uniquePackets : ℕ
  lastSeen : ℕ
  deriving DecidableEq

/-- A row of `relay_reception_hourly`. -/
structure HourRow where
  hourTs : ℕ
  stats : RelayStatsRow
  deriving DecidableEq

structure Store where
  receptions : List Reception := []
  hourly : List HourRow := []
  nextId : ℕ := 1

/-! ### Statistics over rows -/

/-- The first copy of a packet in a context is the one of the lowest id. -/
def isFirst (ctx : List Reception) (r : Reception) : Bool :=
  ctx.all (fun r' => r'.payloadHash ≠ r.payloadHash || r.id ≤ r'.id)

/-- How many relays delivered a packet in a context. -/
def nRelays (ctx : List Reception) (payloadHash : ℕ) : ℕ :=
  ((ctx.filter (fun r => r.payloadHash = payloadHash)).map Reception.relayHex).dedup.length

/-- What is counted of a row. -/
inductive Measure
  | receptions
  | firstArrivals
  | uniquePackets
  deriving DecidableEq

def Measure.counts (ctx : List Reception) : Measure → Reception → Bool
  | .receptions, _ => true
  | .firstArrivals, r => isFirst ctx r
  | .uniquePackets, r => isFirst ctx r && nRelays ctx r.payloadHash = 1

def RelayStatsRow.get (row : RelayStatsRow) : Measure → ℕ
  | .receptions => row.receptions
  | .firstArrivals => row.firstArrivals
  | .uniquePackets => row.uniquePackets

/-- The row of one group. -/
def statsRow (ctx : List Reception) (group : (String × Option ℕ) × List Reception) :
    RelayStatsRow where
  relayHex := group.1.1
  bucketTs := group.1.2
  receptions := group.2.countP (Measure.counts ctx .receptions)
  packets := (group.2.map Reception.payloadHash).dedup.length
  firstArrivals := group.2.countP (Measure.counts ctx .firstArrivals)
  uniquePackets := group.2.countP (Measure.counts ctx .uniquePackets)
  lastSeen := (group.2.map Reception.observedAt).foldl max 0

def relayFilter (relayHexes : Option (List String)) (relayHex : String) : Bool :=
  relayHexes.all (fun hexes => relayHex ∈ hexes)

/-- `relay_stats_sql`: the rows of `[start, end]` by relay and bucket, judged among those of
`[ctxStart, ctxEnd]`. -/
def relayStatsSql (table : List Reception) (bucket : Reception → Option ℕ)
    (relayHexes : Option (List String)) (start stop ctxStart ctxEnd : ℕ) : List RelayStatsRow :=
  let ctx := table.filter (fun r => ctxStart ≤ r.observedAt && r.observedAt ≤ ctxEnd)
  let w := ctx.filter (fun r => start ≤ r.observedAt && r.observedAt ≤ stop)
  (groupsBy (fun r => (r.relayHex, bucket r))
    (w.filter (fun r => relayFilter relayHexes r.relayHex))).map (statsRow ctx)

/-! ### The hourly history -/

def hour : ℕ := 3600

def rollupContextSeconds : ℕ := 600

def floorHour (ts : ℕ) : ℕ := ts - ts % hour

def ceilHour (ts : ℕ) : ℕ := if ts % hour = 0 then ts else floorHour ts + hour

namespace Store

variable (s : Store)

/-- `RelayHistoryRepository.latest_hour`. -/
def latestHour : Option ℕ := (s.hourly.map HourRow.hourTs).max?

/-- `PacketReceptionRepository.oldest_observed_at`. -/
def oldestObservedAt : Option ℕ := (s.receptions.map Reception.observedAt).min?

/-- `RelayHistoryRepository.rollup`. -/
def rollup (fromHour toHour : ℕ) : Store :=
  { s with
    hourly := s.hourly.filter (fun row => !(fromHour ≤ row.hourTs && row.hourTs < toHour)) ++
      (relayStatsSql s.receptions (fun r => some (floorHour r.observedAt)) none fromHour (toHour - 1)
        (fromHour - rollupContextSeconds) (toHour - 1 + rollupContextSeconds)).map
          (fun row => ⟨row.bucketTs.getD 0, row⟩) }

def rollupRelayHistory (now : ℕ) : Store :=
  let toHour := floorHour now
  let fromHour := match s.latestHour with
    | some latest => some (latest + hour)
    | none => s.oldestObservedAt.map floorHour
  match fromHour with
  | none => s
  | some fromHour => if toHour ≤ fromHour then s else s.rollup fromHour toHour

/-- The prune of old receptions; zero days keep them. -/
def prune (now days : ℕ) : Store :=
  if days = 0 then s
  else { s with receptions := s.receptions.filter (fun r => now - days * 86400 ≤ r.observedAt) }

/-- `PacketReceptionRepository.insert`. -/
def insert (payloadHash : ℕ) (relayHex : String) (observedAt : ℕ) : Store :=
  { s with
    receptions := s.receptions ++ [⟨s.nextId, payloadHash, relayHex, observedAt⟩]
    nextId := s.nextId + 1 }

end Store

/-! ### Windows -/

structure WindowSources where
  rawStart : Option ℕ
  rollupFrom : ℕ
  rollupTo : ℕ
  deriving DecidableEq

def WindowSources.usesRollup (w : WindowSources) : Bool := w.rollupFrom < w.rollupTo

/-- Where the rows take over from a history that reaches `rolled`. -/
def boundaryTs (endTs : ℕ) (rawOldest : Option ℕ) (rolled : ℕ) : ℕ :=
  match rawOldest with
  | none => endTs + 1
  | some oldest => if floorHour oldest ≤ rolled then ceilHour oldest else oldest

def splitWindow (startTs endTs : ℕ) (rawOldest rolledLatest : Option ℕ) : WindowSources :=
  let rawOnly : WindowSources := ⟨some startTs, 0, 0⟩
  if rawOldest.any (fun oldest => oldest ≤ startTs) then rawOnly
  else
    match rolledLatest with
    | none => rawOnly
    | some rolled =>
      if rolled < floorHour startTs then rawOnly
      else
        let boundary := boundaryTs endTs rawOldest rolled
        ⟨if boundary ≤ endTs then some boundary else none, floorHour startTs,
          min boundary (endTs + 1)⟩

/-- The bucket of a time; no size, or zero, stands for no buckets. -/
def bucketOf (bucketSeconds : Option ℕ) (origin ts : ℕ) : Option ℕ :=
  (bucketSeconds.filter (fun size => size ≠ 0)).map
    (fun size => origin + (ts - origin) / size * size)

namespace Store

variable (s : Store)

/-- `RelayHistoryRepository.relay_stats`. -/
def hourlyStats (fromHour toHour : ℕ) (relayHexes : Option (List String))
    (bucketSeconds : Option ℕ) (origin : ℕ) : List RelayStatsRow :=
  (groupsBy (fun row : HourRow =>
      (row.stats.relayHex, bucketOf bucketSeconds origin (max row.hourTs origin)))
    (s.hourly.filter (fun row => fromHour ≤ row.hourTs && row.hourTs < toHour &&
      relayFilter relayHexes row.stats.relayHex))).map (fun g =>
    { relayHex := g.1.1
      bucketTs := g.1.2
      receptions := (g.2.map (fun row => row.stats.receptions)).sum
      packets := (g.2.map (fun row => row.stats.packets)).sum
      firstArrivals := (g.2.map (fun row => row.stats.firstArrivals)).sum
      uniquePackets := (g.2.map (fun row => row.stats.uniquePackets)).sum
      lastSeen := (g.2.map (fun row => row.stats.lastSeen)).foldl max 0 })

/-- `PacketReceptionRepository.relay_stats`: nothing around the window is looked at. -/
def rawStats (startTs endTs : ℕ) (relayHexes : Option (List String)) (bucketSeconds : Option ℕ)
    (origin : ℕ) : List RelayStatsRow :=
  relayStatsSql s.receptions (fun r => bucketOf bucketSeconds origin r.observedAt) relayHexes startTs
    endTs startTs endTs

def windowSources (startTs endTs : ℕ) : WindowSources :=
  splitWindow startTs endTs s.oldestObservedAt s.latestHour

def windowRelayStats (startTs endTs : ℕ) (relayHexes : Option (List String))
    (bucketSeconds : Option ℕ) : List RelayStatsRow × WindowSources × ℕ :=
  let sources := s.windowSources startTs endTs
  let origin := if sources.usesRollup then floorHour startTs else startTs
  let rolled := if sources.usesRollup then
      s.hourlyStats sources.rollupFrom sources.rollupTo relayHexes bucketSeconds origin
    else []
  let raw := match sources.rawStart with
    | some rawStart => s.rawStats rawStart endTs relayHexes bucketSeconds origin
    | none => []
  (rolled ++ raw, sources, origin)

end Store

/-! ### Histories -/

/-- A copy is recorded, or a pass rolls up and then prunes. -/
inductive Op
  | record (payloadHash : ℕ) (relayHex : String) (observedAt : ℕ)
  | pass (now days : ℕ)

def Store.apply (s : Store) : Op → Store
  | .record payloadHash relayHex observedAt => s.insert payloadHash relayHex observedAt
  | .pass now days => (s.rollupRelayHistory now).prune now days

/-- The store after a history. -/
def Store.after (ops : List Op) : Store := ops.foldl Store.apply {}

/-- Every reception ever recorded, with its id. -/
def recorded (ops : List Op) : List Reception :=
  ops.foldl (fun log op =>
    match op with
    | .record payloadHash relayHex observedAt =>
      log ++ [⟨log.length + 1, payloadHash, relayHex, observedAt⟩]
    | .pass _ _ => log) []

/-- The hours before this one were folded, as far as they had receptions. -/
def foldedTo (ops : List Op) : ℕ :=
  ops.foldl (fun folded op =>
    match op with
    | .record .. => folded
    | .pass now _ => max folded (floorHour now)) 0

/-!
## What the hourly history holds

As long as every copy is stored before its hour is folded, the history holds for each hour
what one pass over all receptions ever recorded would count there: the rows that a fold
looks at include all copies of the packets that it counts.
-/

/-! #### Hours -/

variable (ts : ℕ) {ops : List Op} {days now b a h t fromHour : ℕ} {s : Store}

theorem floorHour_le : floorHour ts ≤ ts := Nat.sub_le _ _

theorem lt_floorHour_add : ts < floorHour ts + hour := by
  unfold floorHour hour
  omega

theorem hour_dvd_floorHour : hour ∣ floorHour ts := Nat.dvd_sub_mod ts

theorem floorHour_mono (h : a ≤ b) : floorHour a ≤ floorHour b := by
  unfold floorHour hour
  omega

theorem floorHour_lt_iff (hh : hour ∣ h) : floorHour t < h ↔ t < h := by
  obtain ⟨k, rfl⟩ := hh
  unfold floorHour hour
  omega

theorem le_floorHour_iff (hh : hour ∣ h) : h ≤ floorHour t ↔ h ≤ t := by
  have := floorHour_lt_iff (t := t) hh
  omega

theorem add_hour_le (ha : hour ∣ a) (hb : hour ∣ b) (h : a < b) : a + hour ≤ b := by
  obtain ⟨i, rfl⟩ := ha
  obtain ⟨j, rfl⟩ := hb
  unfold hour at *
  omega

/-! #### Histories -/

theorem recorded_record (ops : List Op) (payloadHash : ℕ) (relayHex : String) (observedAt : ℕ) :
    recorded (ops ++ [.record payloadHash relayHex observedAt]) =
      recorded ops ++ [⟨(recorded ops).length + 1, payloadHash, relayHex, observedAt⟩] := by
  unfold recorded
  rw [List.foldl_append]
  rfl

theorem recorded_pass (ops : List Op) (now days : ℕ) :
    recorded (ops ++ [.pass now days]) = recorded ops := by
  unfold recorded
  rw [List.foldl_append]
  rfl

theorem foldedTo_record (ops : List Op) (payloadHash : ℕ) (relayHex : String) (observedAt : ℕ) :
    foldedTo (ops ++ [.record payloadHash relayHex observedAt]) = foldedTo ops := by
  unfold foldedTo
  rw [List.foldl_append]
  rfl

theorem foldedTo_pass (ops : List Op) (now days : ℕ) :
    foldedTo (ops ++ [.pass now days]) = max (foldedTo ops) (floorHour now) := by
  unfold foldedTo
  rw [List.foldl_append]
  rfl

theorem after_append (ops : List Op) (op : Op) :
    Store.after (ops ++ [op]) = (Store.after ops).apply op := by
  unfold Store.after
  rw [List.foldl_append]
  rfl

theorem hour_dvd_foldedTo (ops : List Op) : hour ∣ foldedTo ops := by
  induction ops using List.reverseRecOn with
  | nil => exact Nat.dvd_zero hour
  | append_singleton ops op ih =>
    cases op with
    | record => exact foldedTo_record ops _ _ _ ▸ ih
    | pass now days =>
      rw [foldedTo_pass]
      rcases max_choice (foldedTo ops) (floorHour now) with h | h
      · rw [h]
        exact ih
      · rw [h]
        exact hour_dvd_floorHour now

/-- Every copy is stored before its hour is folded, and with the copies of its packet. -/
def Timely (ops : List Op) : Prop :=
  ∀ before payloadHash relayHex observedAt after,
    ops = before ++ .record payloadHash relayHex observedAt :: after →
      foldedTo before ≤ observedAt ∧
        ∀ r ∈ recorded before, r.observedAt < foldedTo before → r.payloadHash ≠ payloadHash

/-- Copies of one packet are received within ten minutes. -/
def Close (ops : List Op) : Prop :=
  ∀ r ∈ recorded ops, ∀ r' ∈ recorded ops, r.payloadHash = r'.payloadHash →
    r'.observedAt ≤ r.observedAt + rollupContextSeconds

theorem Timely.before {op : Op} (h : Timely (ops ++ [op])) : Timely ops := by
  intro before payloadHash relayHex observedAt after heq
  refine h before payloadHash relayHex observedAt (after ++ [op]) ?_
  rw [heq, List.append_assoc]
  rfl

theorem Close.before {op : Op} (h : Close (ops ++ [op])) : Close ops := by
  have hmem : ∀ r ∈ recorded ops, r ∈ recorded (ops ++ [op]) := by
    intro r hr
    cases op with
    | record =>
      rw [recorded_record]
      exact List.mem_append_left _ hr
    | pass =>
      rw [recorded_pass]
      exact hr
  exact fun r hr r' hr' => h r (hmem r hr) r' (hmem r' hr')

/-! #### Judging a copy -/

/-- A copy is judged by the copies of its packet. -/
theorem counts_congr {ctx ctx' : List Reception} {r : Reception}
    (h : ctx.filter (fun r' => r'.payloadHash = r.payloadHash) =
      ctx'.filter (fun r' => r'.payloadHash = r.payloadHash)) (m : Measure) :
    m.counts ctx r = m.counts ctx' r := by
  have hfirst : ∀ rows : List Reception, isFirst rows r =
      (rows.filter (fun r' => r'.payloadHash = r.payloadHash)).all (fun r' => r.id ≤ r'.id) := by
    intro rows
    unfold isFirst
    rw [List.all_filter]
    congr 1
    funext r'
    by_cases hr' : r'.payloadHash = r.payloadHash <;> simp [hr']
  have hrelays : ∀ rows : List Reception, nRelays rows r.payloadHash =
      ((rows.filter (fun r' => r'.payloadHash = r.payloadHash)).map
        Reception.relayHex).dedup.length := fun _ => rfl
  cases m with
  | receptions => rfl
  | firstArrivals =>
    show isFirst ctx r = isFirst ctx' r
    rw [hfirst, hfirst, h]
  | uniquePackets =>
    show (isFirst ctx r && decide (nRelays ctx r.payloadHash = 1)) = _
    rw [hfirst, hrelays, h, ← hfirst, ← hrelays]
    rfl

/-- The counts of the statistics are the counts over the rows. -/
theorem sum_relayStatsSql (table : List Reception) (bucket : Reception → Option ℕ)
    (start stop ctxStart ctxEnd : ℕ) (p : Option ℕ → Bool) (m : Measure) :
    (((relayStatsSql table bucket none start stop ctxStart ctxEnd).filter
        (fun row => p row.bucketTs)).map (fun row => row.get m)).sum =
      ((table.filter (fun r => ctxStart ≤ r.observedAt && r.observedAt ≤ ctxEnd)).filter
        (fun r => start ≤ r.observedAt && r.observedAt ≤ stop)).countP (fun r => p (bucket r) &&
          m.counts (table.filter (fun r => ctxStart ≤ r.observedAt && r.observedAt ≤ ctxEnd)) r) := by
  let ctx := table.filter (fun r => ctxStart ≤ r.observedAt && r.observedAt ≤ ctxEnd)
  let w := ctx.filter (fun r => start ≤ r.observedAt && r.observedAt ≤ stop)
  have hall : w.filter (fun r => relayFilter none r.relayHex) = w :=
    List.filter_eq_self.mpr fun _ _ => rfl
  have hgroup : ∀ g ∈ groupsBy (fun r => (r.relayHex, bucket r)) w,
      (if p (statsRow ctx g).bucketTs then (statsRow ctx g).get m else 0) =
        g.2.countP (fun r => p (bucket r) && m.counts ctx r) := by
    intro g hg
    obtain ⟨hrows, _⟩ := mem_groupsBy hg
    have hbucket : ∀ r ∈ g.2, bucket r = g.1.2 := by
      intro r hr
      rw [hrows] at hr
      exact congrArg Prod.snd (of_decide_eq_true (List.mem_filter.mp hr).2)
    have hget : (statsRow ctx g).get m = g.2.countP (m.counts ctx) := by
      cases m <;> rfl
    rw [hget]
    show (if p g.1.2 then _ else 0) = _
    cases hp : p g.1.2 with
    | true =>
      refine List.countP_congr fun r hr => ?_
      rw [hbucket r hr, hp, Bool.true_and]
    | false =>
      refine (List.countP_eq_zero.mpr fun r hr => ?_).symm
      rw [hbucket r hr, hp, Bool.false_and]
      exact Bool.false_ne_true
  show (((((groupsBy (fun r => (r.relayHex, bucket r))
    (w.filter (fun r => relayFilter none r.relayHex))).map (statsRow ctx)).filter _).map _).sum) = _
  rw [hall, sum_map_filter, List.map_map]
  exact (congrArg List.sum (List.map_congr_left hgroup)).trans (countP_groupsBy _ _ _)

/-! #### The history of whole hours -/

/-- What holds of the store after a history. -/
structure Folded (ops : List Op) (s : Store) : Prop where
  nextId : s.nextId = (recorded ops).length + 1
  kept : ∃ cut, s.receptions = (recorded ops).filter (fun r => cut ≤ r.observedAt) ∧
    (cut = 0 ∨ cut + rollupContextSeconds ≤ foldedTo ops)
  hours : ∀ row ∈ s.hourly, hour ∣ row.hourTs ∧ row.hourTs < foldedTo ops
  has : ∀ r ∈ recorded ops, r.observedAt < foldedTo ops →
    ∃ row ∈ s.hourly, row.hourTs = floorHour r.observedAt
  totals : ∀ (p : ℕ → Bool) (m : Measure),
    ((s.hourly.filter (fun row => p row.hourTs)).map (fun row => row.stats.get m)).sum =
      (recorded ops).countP (fun r => p (floorHour r.observedAt) &&
        decide (r.observedAt < foldedTo ops) && m.counts (recorded ops) r)

theorem folded_start : Folded [] {} :=
  ⟨rfl, ⟨0, rfl, Or.inl rfl⟩, fun _ h => (by cases h), fun _ h => (by cases h), fun _ _ => rfl⟩

/-- A copy that is stored in time changes nothing that was folded. -/
theorem Folded.record (h : Folded ops s) {payloadHash : ℕ}
    {relayHex : String} {observedAt : ℕ} (htime : foldedTo ops ≤ observedAt)
    (hfresh : ∀ r ∈ recorded ops, r.observedAt < foldedTo ops → r.payloadHash ≠ payloadHash) :
    Folded (ops ++ [.record payloadHash relayHex observedAt])
      (s.insert payloadHash relayHex observedAt) := by
  obtain ⟨cut, hkept, hcut⟩ := h.kept
  let new : Reception := ⟨(recorded ops).length + 1, payloadHash, relayHex, observedAt⟩
  have hnew : decide (cut ≤ new.observedAt) = true := by
    refine decide_eq_true (le_trans ?_ htime)
    rcases hcut with hcut | hcut <;> omega
  refine ⟨?_, ⟨cut, ?_, ?_⟩, ?_, ?_, ?_⟩
  · rw [recorded_record, List.length_append, List.length_singleton]
    exact congrArg (· + 1) h.nextId
  · rw [recorded_record, List.filter_append, ← hkept, List.filter_cons, if_pos hnew]
    show s.receptions ++ [⟨s.nextId, _, _, _⟩] = _
    rw [h.nextId]
    rfl
  · rw [foldedTo_record]
    exact hcut
  · rw [foldedTo_record]
    exact h.hours
  · rw [recorded_record, foldedTo_record]
    intro r hr hlt
    rcases List.mem_append.mp hr with hr | hr
    · exact h.has r hr hlt
    · rw [List.mem_singleton.mp hr] at hlt
      exact absurd hlt (not_lt.mpr htime)
  · intro p m
    rw [recorded_record, foldedTo_record, List.countP_append]
    have hlate : List.countP (fun r => p (floorHour r.observedAt) &&
        decide (r.observedAt < foldedTo ops) && m.counts (recorded ops ++ [new]) r) [new] = 0 := by
      refine List.countP_eq_zero.mpr fun r hr => ?_
      rw [List.mem_singleton.mp hr]
      have hnot : decide (new.observedAt < foldedTo ops) = false :=
        decide_eq_false (not_lt.mpr htime)
      simp [hnot]
    rw [hlate, Nat.add_zero]
    refine (h.totals p m).trans (List.countP_congr fun r hr => ?_)
    by_cases hlt : r.observedAt < foldedTo ops
    · have hsame : m.counts (recorded ops) r = m.counts (recorded ops ++ [new]) r := by
        refine counts_congr ?_ m
        rw [List.filter_append, List.filter_cons, if_neg (by simpa using (hfresh r hr hlt).symm),
          List.filter_nil, List.append_nil]
      rw [hsame]
    · simp [hlt]

/-- The rows of the hours that are folded. -/
def folds (fromHour toHour : ℕ) (r : Reception) : Bool :=
  fromHour ≤ floorHour r.observedAt && floorHour r.observedAt < toHour

/-- **A fold counts what one pass over everything would.** -/
theorem sum_rollup (hclose : Close ops) {receptions : List Reception} {cut : ℕ}
    (hkept : receptions = (recorded ops).filter (fun r => cut ≤ r.observedAt)) {toHour : ℕ}
    (hfrom : hour ∣ fromHour) (hto : hour ∣ toHour)
    (hcopies : ∀ r ∈ recorded ops, fromHour ≤ r.observedAt →
      cut = 0 ∨ cut + rollupContextSeconds ≤ r.observedAt) (p : Option ℕ → Bool) (m : Measure)
    (hpos : fromHour < toHour) :
    (((relayStatsSql receptions (fun r => some (floorHour r.observedAt)) none fromHour (toHour - 1)
        (fromHour - rollupContextSeconds) (toHour - 1 + rollupContextSeconds)).filter
          (fun row => p row.bucketTs)).map (fun row => row.get m)).sum =
      (recorded ops).countP (fun r => folds fromHour toHour r && p (some (floorHour r.observedAt)) &&
        m.counts (recorded ops) r) := by
  rw [sum_relayStatsSql, List.countP_filter, List.countP_filter, hkept, List.countP_filter]
  let ctx := ((recorded ops).filter (fun r => cut ≤ r.observedAt)).filter (fun r =>
    fromHour - rollupContextSeconds ≤ r.observedAt &&
      r.observedAt ≤ toHour - 1 + rollupContextSeconds)
  refine List.countP_congr fun r hr => ?_
  have hfolds : folds fromHour toHour r = (decide (fromHour ≤ r.observedAt) &&
      decide (r.observedAt ≤ toHour - 1)) := by
    have hle := le_floorHour_iff (t := r.observedAt) hfrom
    have hlt := floorHour_lt_iff (t := r.observedAt) hto
    rw [Bool.eq_iff_iff]
    simp only [folds, Bool.and_eq_true, decide_eq_true_eq]
    omega
  cases hin : folds fromHour toHour r with
  | false =>
    rw [hfolds] at hin
    simp [hin]
  | true =>
    rw [hfolds] at hin
    simp only [Bool.and_eq_true, decide_eq_true_eq] at hin
    obtain ⟨hstart, hstop⟩ := hin
    have hcut := hcopies r hr hstart
    have hsame : m.counts ctx r = m.counts (recorded ops) r := by
      refine counts_congr ?_ m
      show (((recorded ops).filter _).filter _).filter _ = _
      rw [List.filter_filter, List.filter_filter]
      refine List.filter_congr fun r' hr' => ?_
      by_cases hpacket : r'.payloadHash = r.payloadHash
      · have hnear := hclose r hr r' hr' hpacket.symm
        have hnear' := hclose r' hr' r hr hpacket
        have hrow : fromHour - rollupContextSeconds ≤ r'.observedAt ∧
            r'.observedAt ≤ toHour - 1 + rollupContextSeconds ∧ cut ≤ r'.observedAt := by
          refine ⟨by omega, by omega, ?_⟩
          rcases hcut with hcut | hcut <;> omega
        simp [hpacket, hrow]
      · simp [hpacket]
    have hrow : fromHour - rollupContextSeconds ≤ r.observedAt ∧
        r.observedAt ≤ toHour - 1 + rollupContextSeconds ∧ cut ≤ r.observedAt := by
      refine ⟨by omega, by omega, ?_⟩
      rcases hcut with hcut | hcut <;> omega
    show (p (some (floorHour r.observedAt)) && m.counts ctx r && _ && _ && _) = true ↔ _
    rw [hsame]
    simp [hrow, hstart, hstop]

/-- **A rollup completes the history.** Where the hours to fold begin, nothing is folded yet,
and nothing before them is missing. -/
theorem Folded.rollup (h : Folded ops s) (hclose : Close ops) (hfrom : hour ∣ fromHour) (hpos : fromHour < floorHour now)
    (hgap : ∀ r ∈ recorded ops, r.observedAt < foldedTo ops ↔ r.observedAt < fromHour) :
    Folded (ops ++ [.pass now days]) (s.rollup fromHour (floorHour now)) := by
  have hto := hour_dvd_floorHour now
  obtain ⟨cut, hkept, hcut⟩ := h.kept
  have hcopies : ∀ r ∈ recorded ops, fromHour ≤ r.observedAt →
      cut = 0 ∨ cut + rollupContextSeconds ≤ r.observedAt := by
    intro r hr hlate
    have := hgap r hr
    omega
  have hsum := sum_rollup hclose hkept hfrom hto hcopies
  let rows := relayStatsSql s.receptions (fun r => some (floorHour r.observedAt)) none fromHour
    (floorHour now - 1) (fromHour - rollupContextSeconds)
    (floorHour now - 1 + rollupContextSeconds)
  have hrows : ∀ row ∈ rows, ∃ r ∈ recorded ops, row.bucketTs = some (floorHour r.observedAt) ∧
      fromHour ≤ r.observedAt ∧ r.observedAt < floorHour now := by
    intro row hrow
    obtain ⟨g, hg, rfl⟩ := List.mem_map.mp hrow
    obtain ⟨_, r, hr, hkey⟩ := mem_groupsBy hg
    have hr := List.mem_of_mem_filter hr
    obtain ⟨hr, hin⟩ := List.mem_filter.mp hr
    have hr := List.mem_of_mem_filter hr
    rw [hkept] at hr
    simp only [Bool.and_eq_true, decide_eq_true_eq] at hin
    exact ⟨r, List.mem_of_mem_filter hr, (congrArg Prod.snd hkey).symm, hin.1, by omega⟩
  refine ⟨?_, ⟨cut, ?_, ?_⟩, ?_, ?_, ?_⟩
  · rw [recorded_pass]
    exact h.nextId
  · rw [recorded_pass]
    exact hkept
  · rw [foldedTo_pass]
    omega
  · rw [foldedTo_pass]
    intro row hrow
    rcases List.mem_append.mp hrow with hrow | hrow
    · obtain ⟨hdvd, hlt⟩ := h.hours row (List.mem_of_mem_filter hrow)
      exact ⟨hdvd, lt_of_lt_of_le hlt (le_max_left _ _)⟩
    · obtain ⟨stats, hstats, rfl⟩ := List.mem_map.mp hrow
      obtain ⟨r, _, hbucket, _, hlt⟩ := hrows stats hstats
      show hour ∣ stats.bucketTs.getD 0 ∧ stats.bucketTs.getD 0 < _
      rw [hbucket]
      exact ⟨hour_dvd_floorHour _, lt_of_lt_of_le ((floorHour_lt_iff hto).mpr hlt) (le_max_right _ _)⟩
  · rw [recorded_pass, foldedTo_pass]
    intro r hr hlt
    by_cases hold : r.observedAt < fromHour
    · obtain ⟨row, hrow, hrowTs⟩ := h.has r hr ((hgap r hr).mpr hold)
      refine ⟨row, List.mem_append_left _ (List.mem_filter.mpr ⟨hrow, ?_⟩), hrowTs⟩
      have := (floorHour_lt_iff hfrom).mpr hold
      simp only [hrowTs, Bool.not_eq_true', Bool.and_eq_false_iff, decide_eq_false_iff_not]
      omega
    · have hlate : foldedTo ops ≤ r.observedAt := by
        have := hgap r hr
        omega
      have hnow : r.observedAt < floorHour now := by omega
      have hin : r ∈ (s.receptions.filter (fun r => fromHour - rollupContextSeconds ≤ r.observedAt &&
          r.observedAt ≤ floorHour now - 1 + rollupContextSeconds)).filter
            (fun r => fromHour ≤ r.observedAt && r.observedAt ≤ floorHour now - 1) := by
        rw [hkept]
        simp only [List.mem_filter, Bool.and_eq_true, decide_eq_true_eq]
        have := hcopies r hr (by omega)
        exact ⟨⟨⟨hr, by omega⟩, by omega, by omega⟩, by omega, by omega⟩
      have hgroup := exists_groupsBy (f := fun r => (r.relayHex, some (floorHour r.observedAt)))
        (List.mem_filter.mpr ⟨hin, rfl⟩ : r ∈ List.filter (fun r => relayFilter none r.relayHex) _)
      exact ⟨_, List.mem_append_right _ (List.mem_map_of_mem (List.mem_map_of_mem hgroup)), rfl⟩
  · intro p m
    rw [recorded_pass, foldedTo_pass]
    have hnew := hsum (fun b => p (b.getD 0)) m hpos
    have hold := h.totals (fun ts => !(fromHour ≤ ts && ts < floorHour now) && p ts) m
    have hsplit : (((s.rollup fromHour (floorHour now)).hourly.filter
        (fun row => p row.hourTs)).map (fun row => row.stats.get m)).sum =
        ((s.hourly.filter (fun row => !(fromHour ≤ row.hourTs && row.hourTs < floorHour now) &&
          p row.hourTs)).map (fun row => row.stats.get m)).sum +
        ((rows.filter (fun row => p (row.bucketTs.getD 0))).map (fun row => row.get m)).sum := by
      show (((s.hourly.filter _ ++ rows.map _).filter _).map _).sum = _
      rw [List.filter_append, List.filter_filter, List.map_append, List.sum_append, List.filter_map,
        List.map_map]
      congr 3
      refine congrArg (fun q => s.hourly.filter q) (funext fun row => ?_)
      rw [Bool.and_comm]
    rw [hsplit, hold, hnew]
    refine countP_add_countP fun r hr => ?_
    have hle := le_floorHour_iff (t := r.observedAt) hfrom
    have hlt := floorHour_lt_iff (t := r.observedAt) hto
    have hold := hgap r hr
    show _ + (if (folds fromHour (floorHour now) r && p (floorHour r.observedAt) && _) = true
      then 1 else 0) = _
    cases m.counts (recorded ops) r with
    | false => simp
    | true =>
      cases p (floorHour r.observedAt) with
      | false => simp
      | true =>
        simp only [folds, Bool.and_true, Bool.true_and, Bool.and_eq_true, Bool.not_eq_true',
          Bool.and_eq_false_iff, decide_eq_true_eq, decide_eq_false_iff_not, lt_max_iff]
        split_ifs <;> omega

theorem latestHour_eq_some {latest : ℕ} (h : s.latestHour = some latest) :
    (∃ row ∈ s.hourly, row.hourTs = latest) ∧ ∀ row ∈ s.hourly, row.hourTs ≤ latest := by
  obtain ⟨hmem, hmax⟩ := List.max?_eq_some_iff.mp h
  exact ⟨List.mem_map.mp hmem, fun row hrow => hmax _ (List.mem_map_of_mem hrow)⟩

theorem oldestObservedAt_eq_some {oldest : ℕ} (h : s.oldestObservedAt = some oldest) :
    (∃ r ∈ s.receptions, r.observedAt = oldest) ∧ ∀ r ∈ s.receptions, oldest ≤ r.observedAt := by
  obtain ⟨hmem, hmin⟩ := List.min?_eq_some_iff.mp h
  exact ⟨List.mem_map.mp hmem, fun r hr => hmin _ (List.mem_map_of_mem hr)⟩

theorem latestHour_eq_none (h : s.latestHour = none) : s.hourly = [] :=
  List.map_eq_nil_iff.mp (List.max?_eq_none_iff.mp h)

theorem oldestObservedAt_eq_none (h : s.oldestObservedAt = none) : s.receptions = [] :=
  List.map_eq_nil_iff.mp (List.min?_eq_none_iff.mp h)

theorem Folded.pass_skip (h : Folded ops s)
    (hnone : ∀ r ∈ recorded ops, r.observedAt < floorHour now → r.observedAt < foldedTo ops) :
    Folded (ops ++ [.pass now days]) s := by
  obtain ⟨cut, hkept, hcut⟩ := h.kept
  have hiff : ∀ r ∈ recorded ops,
      r.observedAt < max (foldedTo ops) (floorHour now) ↔ r.observedAt < foldedTo ops := by
    intro r hr
    have := hnone r hr
    rw [lt_max_iff]
    omega
  refine ⟨?_, ⟨cut, ?_, ?_⟩, ?_, ?_, ?_⟩
  · rw [recorded_pass]
    exact h.nextId
  · rw [recorded_pass]
    exact hkept
  · rw [foldedTo_pass]
    omega
  · rw [foldedTo_pass]
    intro row hrow
    exact ⟨(h.hours row hrow).1, lt_of_lt_of_le (h.hours row hrow).2 (le_max_left _ _)⟩
  · rw [recorded_pass, foldedTo_pass]
    exact fun r hr hlt => h.has r hr ((hiff r hr).mp hlt)
  · intro p m
    rw [recorded_pass, foldedTo_pass]
    refine (h.totals p m).trans (List.countP_congr fun r hr => ?_)
    rw [decide_eq_decide.mpr (hiff r hr)]

theorem Folded.mem_receptions (h : Folded ops s) {r : Reception}
    (hr : r ∈ recorded ops) (hlate : foldedTo ops ≤ r.observedAt) : r ∈ s.receptions := by
  obtain ⟨cut, hkept, hcut⟩ := h.kept
  rw [hkept]
  refine List.mem_filter.mpr ⟨hr, decide_eq_true ?_⟩
  rcases hcut with hcut | hcut <;> omega

theorem Folded.rollupRelayHistory (h : Folded ops s) (hclose : Close ops) (now days : ℕ) :
    Folded (ops ++ [.pass now days]) (s.rollupRelayHistory now) := by
  unfold Store.rollupRelayHistory
  cases hlatest : s.latestHour with
  | some latest =>
    obtain ⟨⟨row, hrow, hrowTs⟩, hmax⟩ := latestHour_eq_some hlatest
    obtain ⟨hdvd, hlt⟩ := h.hours row hrow
    rw [hrowTs] at hdvd hlt
    have hle := add_hour_le hdvd (hour_dvd_foldedTo ops) hlt
    dsimp only
    split_ifs with hskip
    · exact h.pass_skip fun r hr hnow => by omega
    · refine h.rollup hclose (Nat.dvd_add hdvd (Nat.dvd_refl hour)) (by omega) fun r hr => ?_
      constructor
      · intro hold
        obtain ⟨row', hrow', hrowTs'⟩ := h.has r hr hold
        have := hmax row' hrow'
        have := lt_floorHour_add r.observedAt
        omega
      · intro hold
        omega
  | none =>
    have hempty := latestHour_eq_none hlatest
    have hlate : ∀ r ∈ recorded ops, foldedTo ops ≤ r.observedAt := by
      intro r hr
      by_contra hold
      obtain ⟨row, hrow, _⟩ := h.has r hr (by omega)
      rw [hempty] at hrow
      cases hrow
    cases holdest : s.oldestObservedAt with
    | none =>
      refine h.pass_skip fun r hr _ => ?_
      have hmem := h.mem_receptions hr (hlate r hr)
      rw [oldestObservedAt_eq_none holdest] at hmem
      cases hmem
    | some oldest =>
      obtain ⟨_, hmin⟩ := oldestObservedAt_eq_some holdest
      have hfloor : ∀ r ∈ recorded ops, floorHour oldest ≤ r.observedAt := by
        intro r hr
        have := hmin r (h.mem_receptions hr (hlate r hr))
        have := floorHour_le oldest
        omega
      show Folded _ (if floorHour now ≤ floorHour oldest then s
        else s.rollup (floorHour oldest) (floorHour now))
      split_ifs with hskip
      · refine h.pass_skip fun r hr hnow => ?_
        have := hfloor r hr
        omega
      · refine h.rollup hclose (hour_dvd_floorHour oldest) (by omega) fun r hr => ?_
        have := hfloor r hr
        have := hlate r hr
        omega

/-- A prune leaves what was folded lately, and nothing that was not. -/
theorem Folded.prune (h : Folded (ops ++ [.pass now days]) s) :
    Folded (ops ++ [.pass now days]) (s.prune now days) := by
  unfold Store.prune
  split_ifs with hdays
  · exact h
  obtain ⟨cut, hkept, hcut⟩ := h.kept
  refine ⟨h.nextId, ⟨max cut (now - days * 86400), ?_, ?_⟩, h.hours, h.has, h.totals⟩
  · show s.receptions.filter _ = _
    rw [hkept, List.filter_filter]
    refine List.filter_congr fun r _ => ?_
    rw [Bool.eq_iff_iff]
    simp only [Bool.and_eq_true, decide_eq_true_eq]
    omega
  · rw [foldedTo_pass] at hcut ⊢
    have hnow := lt_floorHour_add now
    have hday : 86400 ≤ days * 86400 := Nat.le_mul_of_pos_left _ (by omega)
    unfold hour rollupContextSeconds at *
    omega

/-- **The history of whole hours.** -/
theorem folded_after (htimely : Timely ops) (hclose : Close ops) :
    Folded ops (Store.after ops) := by
  induction ops using List.reverseRecOn with
  | nil => exact folded_start
  | append_singleton ops op ih =>
    have h := ih htimely.before hclose.before
    rw [after_append]
    cases op with
    | record payloadHash relayHex observedAt =>
      obtain ⟨htime, hfresh⟩ := htimely ops payloadHash relayHex observedAt [] rfl
      exact h.record htime hfresh
    | pass now days => exact (h.rollupRelayHistory hclose.before now days).prune

end RtfmEv.RelayHistory
