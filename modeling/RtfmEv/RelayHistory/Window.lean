import Mathlib.Data.Finset.Max
import RtfmEv.RelayHistory.Stats

/-!
# Statistics of a window

A window is cut at the first hour that the rows answer. Its older part counts the packets
whose first copy lies there, among all copies; its newer part counts the packets with a copy
there, among the copies there. A packet with copies on both sides is counted on both.
-/

namespace RtfmEv.RelayHistory

open RtfmEv.Lib

/-- A count, summed over relays and buckets. -/
def total (m : Measure) (rows : List RelayStatsRow) : ℕ := (rows.map (fun row => row.get m)).sum

/-- What the window takes from the history ends with the hour of its end, once that hour is
folded. -/
def historyEnd (ops : List Op) (endTs : ℕ) : ℕ :=
  if floorHour endTs < foldedTo ops then floorHour endTs + hour else endTs + 1

/-- The copies of the older part of a window. -/
def inHistory (ops : List Op) (startTs endTs : ℕ) (sources : WindowSources) (r : Reception) : Bool :=
  sources.usesRollup && floorHour startTs ≤ r.observedAt &&
    r.observedAt < sources.rawStart.getD (historyEnd ops endTs)

/-- The copies of the newer part of a window. -/
def inRaw (endTs : ℕ) (sources : WindowSources) (r : Reception) : Bool :=
  sources.rawStart.any (fun rawStart => rawStart ≤ r.observedAt) && r.observedAt ≤ endTs

/-! ### The two stores -/

theorem total_hourlyStats (s : Store) (fromHour toHour : ℕ) (bucketSeconds : Option ℕ) (origin : ℕ)
    (m : Measure) : total m (s.hourlyStats fromHour toHour none bucketSeconds origin) =
      ((s.hourly.filter (fun row => fromHour ≤ row.hourTs && row.hourTs < toHour)).map
        (fun row => row.stats.get m)).sum := by
  let rows := s.hourly.filter (fun row => fromHour ≤ row.hourTs && row.hourTs < toHour)
  have hrows : s.hourly.filter (fun row => fromHour ≤ row.hourTs && row.hourTs < toHour &&
      relayFilter none row.stats.relayHex) = rows :=
    List.filter_congr fun row _ => by simp [relayFilter]
  unfold total Store.hourlyStats
  rw [hrows, List.map_map]
  refine Eq.trans ?_ (sum_groupsBy (fun row : HourRow =>
    (row.stats.relayHex, bucketOf bucketSeconds origin (max row.hourTs origin)))
    (fun row => row.stats.get m) rows)
  refine congrArg List.sum (List.map_congr_left fun g _ => ?_)
  cases m <;> rfl

theorem total_rawStats (s : Store) (startTs endTs : ℕ) (bucketSeconds : Option ℕ) (origin : ℕ)
    (m : Measure) : total m (s.rawStats startTs endTs none bucketSeconds origin) =
      let w := s.receptions.filter (fun r => startTs ≤ r.observedAt && r.observedAt ≤ endTs)
      w.countP (m.counts w) := by
  have hsum := sum_relayStatsSql s.receptions (fun r => bucketOf bucketSeconds origin r.observedAt)
    startTs endTs startTs endTs (fun _ => true) m
  rw [List.filter_true, List.filter_filter] at hsum
  simp only [Bool.and_self, Bool.true_and] at hsum
  exact hsum

variable {ops : List Op}

/-- What the newer part counts, where no row of it was pruned. -/
theorem total_raw {s : Store} (h : Folded ops s) {b endTs : ℕ}
    (hkept : ∀ r ∈ recorded ops, b ≤ r.observedAt → r ∈ s.receptions) (bucketSeconds : Option ℕ)
    (origin : ℕ) (m : Measure) {sources : WindowSources} (hb : sources.rawStart = some b) :
    total m (s.rawStats b endTs none bucketSeconds origin) =
      ((recorded ops).filter (inRaw endTs sources)).countP
        (m.counts ((recorded ops).filter (inRaw endTs sources))) := by
  obtain ⟨cut, hcut, _⟩ := h.kept
  have hrows : s.receptions.filter (fun r => b ≤ r.observedAt && r.observedAt ≤ endTs) =
      (recorded ops).filter (inRaw endTs sources) := by
    rw [hcut, List.filter_filter]
    refine List.filter_congr fun r hr => ?_
    unfold inRaw
    rw [hb, Option.any_some]
    by_cases hlate : b ≤ r.observedAt
    · have hmem := hkept r hr hlate
      rw [hcut] at hmem
      rw [(List.mem_filter.mp hmem).2, Bool.and_true]
    · simp [hlate]
  rw [total_rawStats, hrows]

/-! ### The cut -/

variable {r : Reception} {ops : List Op} {s : Store} {startTs endTs : ℕ} {p : Reception → Bool}
  {rows : List Reception}

theorem Folded.lt_of_pruned {s : Store} (h : Folded ops s)
    (hr : r ∈ recorded ops) (hpruned : r ∉ s.receptions) : r.observedAt < foldedTo ops := by
  by_contra hlate
  exact hpruned (h.mem_receptions hr (not_lt.mp hlate))

theorem Folded.mem_of_oldest {s : Store} (h : Folded ops s) {oldest : ℕ}
    (holdest : s.oldestObservedAt = some oldest) (hr : r ∈ recorded ops)
    (hlate : oldest ≤ r.observedAt) : r ∈ s.receptions := by
  obtain ⟨cut, hkept, _⟩ := h.kept
  obtain ⟨⟨r₀, hr₀, rfl⟩, _⟩ := oldestObservedAt_eq_some holdest
  rw [hkept] at hr₀ ⊢
  have hcut := of_decide_eq_true (List.mem_filter.mp hr₀).2
  exact List.mem_filter.mpr ⟨hr, decide_eq_true (le_trans hcut hlate)⟩

/-- A window is cut where the rows are complete from there on, and the history before. -/
structure Cut (ops : List Op) (s : Store) (startTs endTs : ℕ) (w : WindowSources) : Prop where
  rows : ∀ b, w.rawStart = some b → ∀ r ∈ recorded ops, b ≤ r.observedAt → r ∈ s.receptions
  history : w.usesRollup = true → w.rollupFrom = floorHour startTs ∧ ∀ r ∈ recorded ops,
    floorHour r.observedAt < w.rollupTo ∧ r.observedAt < foldedTo ops ↔
      r.observedAt < w.rawStart.getD (historyEnd ops endTs)

theorem cut_rows (hstored : ∀ r ∈ recorded ops, startTs ≤ r.observedAt → r ∈ s.receptions) :
    Cut ops s startTs endTs ⟨some startTs, 0, 0⟩ := by
  refine ⟨fun b hb r hr hlate => ?_, fun huses => by cases huses⟩
  obtain rfl := Option.some.inj hb
  exact hstored r hr hlate

/-- The cut at a boundary that tells folded receptions from later ones. -/
theorem cut_boundary {boundary : ℕ}
    (hrows : ∀ r ∈ recorded ops, boundary ≤ endTs → boundary ≤ r.observedAt → r ∈ s.receptions)
    (hbefore : ∀ r ∈ recorded ops, boundary ≤ endTs →
      (floorHour r.observedAt < boundary ∧ r.observedAt < foldedTo ops ↔ r.observedAt < boundary))
    (hend : ∀ r ∈ recorded ops, endTs < boundary →
      (floorHour r.observedAt < endTs + 1 ∧ r.observedAt < foldedTo ops ↔
        r.observedAt < historyEnd ops endTs)) :
    Cut ops s startTs endTs ⟨if boundary ≤ endTs then some boundary else none, floorHour startTs,
      min boundary (endTs + 1)⟩ := by
  refine ⟨fun b hb r hr hlate => ?_, fun _ => ⟨rfl, fun r hr => ?_⟩⟩
  · by_cases hle : boundary ≤ endTs
    · rw [if_pos hle] at hb
      obtain rfl := Option.some.inj hb
      exact hrows r hr hle hlate
    · rw [if_neg hle] at hb
      cases hb
  · by_cases hle : boundary ≤ endTs
    · show _ < min boundary (endTs + 1) ∧ _ ↔ _ < (if boundary ≤ endTs then _ else _ : Option ℕ).getD _
      rw [if_pos hle, min_eq_left (by omega)]
      exact hbefore r hr hle
    · show _ < min boundary (endTs + 1) ∧ _ ↔ _ < (if boundary ≤ endTs then _ else _ : Option ℕ).getD _
      rw [if_neg hle, min_eq_right (by omega)]
      exact hend r hr (by omega)

/-- **The cut of a window.** -/
theorem cut_windowSources (h : Folded ops s) (startTs endTs : ℕ) :
    Cut ops s startTs endTs (s.windowSources startTs endTs) := by
  have hF := hour_dvd_foldedTo ops
  have hpruned : ∀ r ∈ recorded ops, r ∉ s.receptions → r.observedAt < foldedTo ops :=
    fun r hr => h.lt_of_pruned hr
  unfold Store.windowSources splitWindow
  split_ifs with hold
  · cases holdest : s.oldestObservedAt with
    | none =>
      rw [holdest] at hold
      cases hold
    | some oldest =>
      rw [holdest, Option.any_some] at hold
      refine cut_rows fun r hr hlate => h.mem_of_oldest holdest hr ?_
      exact le_trans (of_decide_eq_true hold) hlate
  cases hlatest : s.latestHour with
  | none =>
    refine cut_rows fun r hr _ => h.mem_receptions hr ?_
    by_contra hearly
    obtain ⟨row, hrow, _⟩ := h.has r hr (by omega)
    rw [latestHour_eq_none hlatest] at hrow
    cases hrow
  | some rolled =>
    obtain ⟨⟨row, hrow, hrowTs⟩, hmax⟩ := latestHour_eq_some hlatest
    obtain ⟨hdvd, hrolled⟩ := h.hours row hrow
    rw [hrowTs] at hdvd hrolled
    have hfolded : ∀ r ∈ recorded ops, r.observedAt < foldedTo ops →
        floorHour r.observedAt ≤ rolled := by
      intro r hr hlt
      obtain ⟨row', hrow', hrowTs'⟩ := h.has r hr hlt
      exact hrowTs' ▸ hmax row' hrow'
    dsimp only
    by_cases hearly : rolled < floorHour startTs
    · rw [if_pos hearly]
      refine cut_rows fun r hr hlate => h.mem_receptions hr ?_
      by_contra hlt
      have := hfolded r hr (by omega)
      have := floorHour_mono hlate
      omega
    rw [if_neg hearly]
    cases holdest : s.oldestObservedAt with
    | none =>
      have hnone := oldestObservedAt_eq_none holdest
      have hboundary : boundaryTs endTs none rolled = endTs + 1 := rfl
      refine cut_boundary (fun r hr hle => ?_) (fun r hr hle => ?_) fun r hr _ => ?_
      · omega
      · omega
      · have hlt := hpruned r hr (by rw [hnone]; exact List.not_mem_nil)
        unfold historyEnd floorHour hour at *
        obtain ⟨k, hk⟩ := hF
        split_ifs <;> omega
    | some oldest =>
      obtain ⟨_, hmin⟩ := oldestObservedAt_eq_some holdest
      have hbefore : ∀ r ∈ recorded ops, r.observedAt < oldest →
          r.observedAt < foldedTo ops := by
        intro r hr hlt
        refine hpruned r hr fun hmem => ?_
        have := hmin r hmem
        omega
      have hstored : ∀ r ∈ recorded ops, oldest ≤ r.observedAt → r ∈ s.receptions :=
        fun r hr => h.mem_of_oldest holdest hr
      obtain ⟨k, hk⟩ := hF
      obtain ⟨j, hj⟩ := hdvd
      by_cases hcovered : floorHour oldest ≤ rolled
      · have hboundary : boundaryTs endTs (some oldest) rolled = ceilHour oldest :=
          if_pos hcovered
        refine cut_boundary ?_ ?_ ?_ <;> intro r hr hle <;> rw [hboundary] at * <;>
          have := hbefore r hr
        · intro hlate
          refine hstored r hr ?_
          unfold ceilHour floorHour hour at hlate
          split_ifs at hlate <;> omega
        · unfold ceilHour floorHour hour at *
          split_ifs <;> omega
        · unfold historyEnd ceilHour floorHour hour at *
          split_ifs at * <;> omega
      · have hboundary : boundaryTs endTs (some oldest) rolled = oldest := if_neg hcovered
        refine cut_boundary ?_ ?_ ?_ <;> intro r hr hle <;> rw [hboundary] at * <;>
          have := hbefore r hr <;> have := hfolded r hr
        · exact hstored r hr
        · unfold floorHour hour at *
          omega
        · unfold historyEnd floorHour hour at *
          split_ifs <;> omega

/-! ### Totals -/

/-- What the older part counts. -/
theorem total_history (h : Folded ops s) {w : WindowSources} (hcut : Cut ops s startTs endTs w)
    (huses : w.usesRollup = true) (bucketSeconds : Option ℕ) (origin : ℕ) (m : Measure) :
    total m (s.hourlyStats w.rollupFrom w.rollupTo none bucketSeconds origin) =
      (recorded ops).countP (fun r => inHistory ops startTs endTs w r && m.counts (recorded ops) r) := by
  obtain ⟨hfrom, hto⟩ := hcut.history huses
  rw [total_hourlyStats, h.totals (fun ts => w.rollupFrom ≤ ts && ts < w.rollupTo)]
  refine List.countP_congr fun r hr => ?_
  have hsame : (decide (w.rollupFrom ≤ floorHour r.observedAt) &&
      decide (floorHour r.observedAt < w.rollupTo) && decide (r.observedAt < foldedTo ops)) =
        inHistory ops startTs endTs w r := by
    have hle := le_floorHour_iff (t := r.observedAt) (hour_dvd_floorHour startTs)
    unfold inHistory
    rw [huses, hfrom, Bool.true_and, Bool.and_assoc, decide_eq_decide.mpr hle,
      ← decide_eq_decide.mpr (hto r hr), Bool.decide_and]
  rw [hsame]

/-- **The totals of a window**, part by part. -/
theorem total_windowRelayStats (h : Folded ops s) (startTs endTs : ℕ) (bucketSeconds : Option ℕ)
    (m : Measure) :
    total m (s.windowRelayStats startTs endTs none bucketSeconds).1 =
      (recorded ops).countP (fun r =>
        inHistory ops startTs endTs (s.windowSources startTs endTs) r && m.counts (recorded ops) r) +
      ((recorded ops).filter (inRaw endTs (s.windowSources startTs endTs))).countP
        (m.counts ((recorded ops).filter (inRaw endTs (s.windowSources startTs endTs)))) := by
  have hcut := cut_windowSources h startTs endTs
  unfold Store.windowRelayStats
  dsimp only
  generalize s.windowSources startTs endTs = w at hcut ⊢
  unfold total
  rw [List.map_append, List.sum_append]
  congr 1
  · cases huses : w.usesRollup with
    | true =>
      rw [if_pos rfl]
      exact total_history h hcut huses bucketSeconds _ m
    | false =>
      rw [if_neg Bool.false_ne_true]
      refine (List.countP_eq_zero.mpr fun r _ => ?_).symm
      simp [inHistory, huses]
  · cases hraw : w.rawStart with
    | some b => exact total_raw h (hcut.rows b hraw) bucketSeconds _ m hraw
    | none =>
      have hnone : (recorded ops).filter (inRaw endTs w) = [] :=
        List.filter_eq_nil_iff.mpr fun r _ => by simp [inRaw, hraw]
      rw [hnone]
      rfl

/-! ### Packets -/

/-- How many packets have a copy of a kind. -/
def packets (rows : List Reception) (p : Reception → Bool) : ℕ :=
  ((rows.filter p).map Reception.payloadHash).toFinset.card

theorem mem_packets {payloadHash : ℕ} :
    payloadHash ∈ ((rows.filter p).map Reception.payloadHash).toFinset ↔
      ∃ r ∈ rows, p r = true ∧ r.payloadHash = payloadHash := by
  simp only [List.mem_toFinset, List.mem_map, List.mem_filter, and_assoc]

theorem nodup_ids (ops : List Op) : ((recorded ops).map Reception.id).Nodup ∧
    ∀ r ∈ recorded ops, r.id ≤ (recorded ops).length := by
  induction ops using List.reverseRecOn with
  | nil => exact ⟨List.nodup_nil, fun _ h => by cases h⟩
  | append_singleton ops op ih =>
    cases op with
    | pass => rwa [recorded_pass]
    | record payloadHash relayHex observedAt =>
      rw [recorded_record, List.map_append, List.length_append, List.length_singleton]
      refine ⟨?_, fun r hr => ?_⟩
      · rw [List.nodup_append_comm, List.map_singleton]
        refine List.nodup_cons.mpr ⟨fun hmem => ?_, ih.1⟩
        obtain ⟨r, hr, hid⟩ := List.mem_map.mp hmem
        have hle := ih.2 r hr
        have hid : r.id = (recorded ops).length + 1 := hid
        omega
      · rcases List.mem_append.mp hr with hr | hr
        · exact le_trans (ih.2 r hr) (Nat.le_succ _)
        · rw [List.mem_singleton.mp hr]

theorem countP_eq_packets (hids : (rows.map Reception.id).Nodup)
    (hfirst : ∀ r ∈ rows, p r = true → isFirst rows r = true) :
    rows.countP p = packets rows p := by
  have hinj : ((rows.filter p).map Reception.payloadHash).Nodup := by
    refine List.Nodup.map_on (fun r hr r' hr' hsame => ?_) ((List.Nodup.of_map _ hids).filter _)
    obtain ⟨hr, hp⟩ := List.mem_filter.mp hr
    obtain ⟨hr', hp'⟩ := List.mem_filter.mp hr'
    have hle := List.all_eq_true.mp (hfirst r hr hp) r' hr'
    have hle' := List.all_eq_true.mp (hfirst r' hr' hp') r hr
    simp only [hsame, ne_eq, not_true_eq_false, decide_false, Bool.false_or,
      decide_eq_true_eq] at hle hle'
    exact List.inj_on_of_nodup_map hids hr hr' (le_antisymm hle hle')
  unfold packets
  rw [List.toFinset_card_of_nodup hinj, List.length_map, List.countP_eq_length_filter]

theorem exists_first (hr : r ∈ rows) :
    ∃ r' ∈ rows, r'.payloadHash = r.payloadHash ∧ isFirst rows r' = true := by
  let copies := rows.filter (fun r' => r'.payloadHash = r.payloadHash)
  obtain ⟨r', hr', hmin⟩ := Finset.exists_min_image copies.toFinset Reception.id
    ⟨r, List.mem_toFinset.mpr (List.mem_filter.mpr ⟨hr, decide_eq_true rfl⟩)⟩
  obtain ⟨hmem, hsame⟩ := List.mem_filter.mp (List.mem_toFinset.mp hr')
  have hsame := of_decide_eq_true hsame
  refine ⟨r', hmem, hsame, List.all_eq_true.mpr fun r'' hr'' => ?_⟩
  by_cases hpacket : r''.payloadHash = r.payloadHash
  · have hle := hmin r'' (List.mem_toFinset.mpr (List.mem_filter.mpr ⟨hr'', decide_eq_true hpacket⟩))
    simp [hle]
  · simp [hsame, hpacket]

theorem packets_first (q : ℕ → Bool) :
    packets rows (fun r => isFirst rows r && q r.payloadHash) =
      packets rows (fun r => q r.payloadHash) := by
  unfold packets
  congr 1
  ext payloadHash
  rw [mem_packets, mem_packets]
  constructor
  · rintro ⟨r, hr, hp, hsame⟩
    exact ⟨r, hr, (Bool.and_eq_true_iff.mp hp).2, hsame⟩
  · rintro ⟨r, hr, hq, hsame⟩
    obtain ⟨r', hr', hpacket, hfirst⟩ := exists_first hr
    refine ⟨r', hr', ?_, hpacket.trans hsame⟩
    rw [hpacket, hfirst, hq]
    rfl

/-- Packets of two kinds that share none. -/
theorem packets_or {q : Reception → Bool}
    (hapart : ∀ r ∈ rows, ∀ r' ∈ rows, r.payloadHash = r'.payloadHash → p r = true → q r' = true →
      False) : packets rows (fun r => p r || q r) = packets rows p + packets rows q := by
  unfold packets
  rw [← Finset.card_union_of_disjoint]
  · congr 1
    ext payloadHash
    rw [Finset.mem_union, mem_packets, mem_packets, mem_packets]
    simp only [Bool.or_eq_true]
    constructor
    · rintro ⟨r, hr, hp | hq, hsame⟩
      · exact Or.inl ⟨r, hr, hp, hsame⟩
      · exact Or.inr ⟨r, hr, hq, hsame⟩
    · rintro (⟨r, hr, hp, hsame⟩ | ⟨r, hr, hq, hsame⟩)
      · exact ⟨r, hr, Or.inl hp, hsame⟩
      · exact ⟨r, hr, Or.inr hq, hsame⟩
  · rw [Finset.disjoint_left]
    intro payloadHash hp hq
    obtain ⟨r, hr, hp, hsame⟩ := mem_packets.mp hp
    obtain ⟨r', hr', hq, hsame'⟩ := mem_packets.mp hq
    exact hapart r hr r' hr' (hsame.trans hsame'.symm) hp hq

/-- What a window counts of everything that was ever received: receptions of both parts, and
packets whose first copy is in the older part or that have a copy in the newer part, or
those of them that came over one relay. -/
def windowCounts (ops : List Op) (startTs endTs : ℕ) (w : WindowSources) : Measure → ℕ
  | .receptions =>
    (recorded ops).countP (fun r => inHistory ops startTs endTs w r || inRaw endTs w r)
  | .firstArrivals =>
    packets (recorded ops) (fun r =>
      inHistory ops startTs endTs w r && isFirst (recorded ops) r || inRaw endTs w r)
  | .uniquePackets =>
    packets (recorded ops) (fun r =>
      inHistory ops startTs endTs w r && isFirst (recorded ops) r &&
          nRelays (recorded ops) r.payloadHash = 1 ||
        inRaw endTs w r && nRelays ((recorded ops).filter (inRaw endTs w)) r.payloadHash = 1)

/-- No packet has copies on both sides of the cut. -/
def Apart (ops : List Op) (startTs endTs : ℕ) (w : WindowSources) : Prop :=
  ∀ r ∈ recorded ops, ∀ r' ∈ recorded ops, r.payloadHash = r'.payloadHash →
    inHistory ops startTs endTs w r = true → inRaw endTs w r' = true → False

theorem packets_filter (rows : List Reception) (p q : Reception → Bool) :
    packets (rows.filter p) q = packets rows (fun r => p r && q r) := by
  unfold packets
  rw [List.filter_filter]
  simp only [Bool.and_comm]

/-- **Each packet is counted once.** -/
theorem window_counts_once {ops : List Op} (htimely : Timely ops) (hclose : Close ops)
    (startTs endTs : ℕ) (bucketSeconds : Option ℕ)
    (hapart : Apart ops startTs endTs ((Store.after ops).windowSources startTs endTs))
    (m : Measure) :
    total m ((Store.after ops).windowRelayStats startTs endTs none bucketSeconds).1 =
      windowCounts ops startTs endTs ((Store.after ops).windowSources startTs endTs) m := by
  rw [total_windowRelayStats (folded_after htimely hclose)]
  generalize (Store.after ops).windowSources startTs endTs = w at hapart ⊢
  have hids := (nodup_ids ops).1
  have hids' : (((recorded ops).filter (inRaw endTs w)).map Reception.id).Nodup :=
    hids.sublist (List.filter_sublist.map _)
  cases m with
  | receptions =>
    rw [List.countP_filter]
    refine countP_add_countP fun r hr => ?_
    have hpart : inHistory ops startTs endTs w r = true → inRaw endTs w r = true → False :=
      hapart r hr r hr rfl
    simp only [Measure.counts, Bool.and_true, Bool.true_and]
    cases hold : inHistory ops startTs endTs w r <;> cases hnew : inRaw endTs w r
    · rfl
    · rfl
    · rfl
    · exact (hpart hold hnew).elim
  | firstArrivals =>
    have hold : (recorded ops).countP (fun r => inHistory ops startTs endTs w r &&
        isFirst (recorded ops) r) = packets (recorded ops) (fun r =>
          inHistory ops startTs endTs w r && isFirst (recorded ops) r) :=
      countP_eq_packets hids fun r _ hp => (Bool.and_eq_true_iff.mp hp).2
    have hnew : ((recorded ops).filter (inRaw endTs w)).countP
        (isFirst ((recorded ops).filter (inRaw endTs w))) =
          packets (recorded ops) (inRaw endTs w) := by
      have hfirst := @packets_first ((recorded ops).filter (inRaw endTs w)) (fun _ => true)
      rw [countP_eq_packets hids' fun r _ hp => hp]
      simp only [Bool.and_true] at hfirst
      rw [hfirst, packets_filter]
      simp only [Bool.and_true]
    show (recorded ops).countP (fun r => inHistory ops startTs endTs w r && isFirst (recorded ops) r) +
      ((recorded ops).filter (inRaw endTs w)).countP
        (isFirst ((recorded ops).filter (inRaw endTs w))) = packets (recorded ops) _
    rw [hold, hnew, packets_or]
    intro r hr r' hr' hsame hp hq
    exact hapart r hr r' hr' hsame (Bool.and_eq_true_iff.mp hp).1 hq
  | uniquePackets =>
    have hold : (recorded ops).countP (fun r => inHistory ops startTs endTs w r &&
        (isFirst (recorded ops) r && nRelays (recorded ops) r.payloadHash = 1)) =
          packets (recorded ops) (fun r => inHistory ops startTs endTs w r &&
            isFirst (recorded ops) r && nRelays (recorded ops) r.payloadHash = 1) := by
      rw [countP_eq_packets hids fun r _ hp =>
        (Bool.and_eq_true_iff.mp (Bool.and_eq_true_iff.mp hp).2).1]
      simp only [Bool.and_assoc]
    have hnew : ((recorded ops).filter (inRaw endTs w)).countP (fun r =>
        isFirst ((recorded ops).filter (inRaw endTs w)) r &&
          nRelays ((recorded ops).filter (inRaw endTs w)) r.payloadHash = 1) =
        packets (recorded ops) (fun r => inRaw endTs w r &&
          nRelays ((recorded ops).filter (inRaw endTs w)) r.payloadHash = 1) := by
      rw [countP_eq_packets hids' fun r _ hp => (Bool.and_eq_true_iff.mp hp).1,
        packets_first (fun payloadHash =>
          nRelays ((recorded ops).filter (inRaw endTs w)) payloadHash = 1), packets_filter]
    show (recorded ops).countP (fun r => inHistory ops startTs endTs w r &&
        (isFirst (recorded ops) r && nRelays (recorded ops) r.payloadHash = 1)) +
      ((recorded ops).filter (inRaw endTs w)).countP (fun r =>
        isFirst ((recorded ops).filter (inRaw endTs w)) r &&
          nRelays ((recorded ops).filter (inRaw endTs w)) r.payloadHash = 1) =
      packets (recorded ops) _
    rw [hold, hnew, packets_or]
    intro r hr r' hr' hsame hp hq
    have hp := (Bool.and_eq_true_iff.mp hp).1
    exact hapart r hr r' hr' hsame (Bool.and_eq_true_iff.mp hp).1 (Bool.and_eq_true_iff.mp hq).1

/-! ### A history, and a window that cuts a packet -/

theorem timely_nil : Timely [] := by
  intro before _ _ _ after heq
  cases before <;> cases heq

theorem timely_pass (h : Timely ops) (now days : ℕ) : Timely (ops ++ [.pass now days]) := by
  intro before payloadHash relayHex observedAt after heq
  rcases List.eq_nil_or_concat after with rfl | ⟨after, last, rfl⟩
  · cases (List.append_inj' heq rfl).2
  · rw [List.concat_eq_append, ← List.cons_append, ← List.append_assoc] at heq
    exact h before payloadHash relayHex observedAt after (List.append_inj' heq rfl).1

theorem timely_record (h : Timely ops) {payloadHash : ℕ} {relayHex : String}
    {observedAt : ℕ} (htime : foldedTo ops ≤ observedAt)
    (hfresh : ∀ r ∈ recorded ops, r.observedAt < foldedTo ops → r.payloadHash ≠ payloadHash) :
    Timely (ops ++ [.record payloadHash relayHex observedAt]) := by
  intro before payloadHash' relayHex' observedAt' after heq
  rcases List.eq_nil_or_concat after with rfl | ⟨after, last, rfl⟩
  · obtain ⟨rfl, hlast⟩ := List.append_inj' heq rfl
    cases hlast
    exact ⟨htime, hfresh⟩
  · rw [List.concat_eq_append, ← List.cons_append, ← List.append_assoc] at heq
    exact h before payloadHash' relayHex' observedAt' after (List.append_inj' heq rfl).1

/-- Two packets of the first hours, a pass that folds and prunes them, and a third packet. -/
def threePackets : List Op :=
  ((([] ++ [.record 7 "aa" 3500] ++ [.record 7 "bb" 3505] ++ [.record 8 "" 4000]) ++
    [.pass 100000 1]) ++ [.record 9 "cc" 100100])

theorem window_counts_once_threePackets :
    let sources := (Store.after threePackets).windowSources 3000 100200
    total .firstArrivals ((Store.after threePackets).windowRelayStats 3000 100200 none none).1 = 3 ∧
      sources.usesRollup = true ∧ windowCounts threePackets 3000 100200 sources .firstArrivals = 3 := by
  have htimely : Timely threePackets := by
    refine timely_record (timely_pass (timely_record (timely_record (timely_record timely_nil ?_ ?_)
      ?_ ?_) ?_ ?_) _ _) ?_ ?_ <;> decide +kernel
  have hclose : Close threePackets := by
    unfold Close
    decide +kernel
  have hapart : Apart threePackets 3000 100200
      ((Store.after threePackets).windowSources 3000 100200) := by
    unfold Apart
    decide +kernel
  have hcounts : windowCounts threePackets 3000 100200
      ((Store.after threePackets).windowSources 3000 100200) .firstArrivals = 3 := by
    decide +kernel
  exact ⟨(window_counts_once htimely hclose 3000 100200 none hapart .firstArrivals).trans hcounts,
    by decide +kernel, hcounts⟩

/-- Receptions of the window, from the hour of its start where the history is used, and packets
whose first copy ever lies in it. -/
def firstCopyCounts (ops : List Op) (startTs endTs : ℕ) (w : WindowSources) : Measure → ℕ
  | .receptions =>
    (recorded ops).countP (fun r =>
      (if w.usesRollup then floorHour startTs else startTs) ≤ r.observedAt && r.observedAt ≤ endTs)
  | .firstArrivals =>
    packets (recorded ops) (fun r =>
      isFirst (recorded ops) r && startTs ≤ r.observedAt && r.observedAt ≤ endTs)
  | .uniquePackets =>
    packets (recorded ops) (fun r =>
      isFirst (recorded ops) r && startTs ≤ r.observedAt && r.observedAt ≤ endTs &&
        nRelays (recorded ops) r.payloadHash = 1)

/-- **A packet that the window cuts.** Its first copy came before the start of the window, and it
is counted as a first arrival of the second relay. -/
theorem not_forall_firstCopyCounts : ¬ ∀ ops, Close ops → ∀ startTs endTs bucketSeconds m,
    total m ((Store.after ops).windowRelayStats startTs endTs none bucketSeconds).1 =
      firstCopyCounts ops startTs endTs ((Store.after ops).windowSources startTs endTs) m := by
  intro h
  have hclose : Close [.record 7 "aa" 1000, .record 7 "bb" 1010] := by
    unfold Close
    decide +kernel
  exact absurd (h _ hclose 1005 2000 none .firstArrivals) (by decide +kernel)

end RtfmEv.RelayHistory
