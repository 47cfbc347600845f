import RtfmEv.Spam.BlockEdits
import RtfmEv.Spam.Memory

/-!
# Clean traffic keeps every hour

With every pass switched off, a message without a name, a route or a text settles
as clean. One such message an hour opens one hour after the other, and since old
hours are dropped only for spam, all of them stay.
-/

namespace RtfmEv.Spam

open RtfmEv.Lib RtfmEv.HostRepeater

/-- Every pass is switched off. -/
def quietConfig : SpamConfig where
  tunables :=
    { enableHopRules := false
      enableRotationGuard := false
      autoLockdown := false
      enableTextRules := false
      dedupeEnabled := false
      repeatGuard := false
      holdLinks := .off
      detectUnreadable := false }

/-- The message that comes in at an hour. -/
def hourlyMessage (i : ℕ) : Detector.Message where
  ts := 3600 * i
  path := []
  sender := ""
  text := ""
  channel := ""
  nameScore := some 0
  nameDisguised := some false

/-- A message that nothing can be made of. -/
structure Event.Plain (e : Event) : Prop where
  path : e.path = []
  sender : e.sender = "?"
  norm : e.norm = ""
  random : e.random = false
  matched : e.matched = none
  campaign : e.campaign = none

namespace Detector

/-- A detector with every pass switched off that has heard plain messages only. -/
structure Quiet (d : Detector) : Prop where
  config : d.config = quietConfig
  blocks : d.blocks = .empty
  campaigns : d.campaigns = []
  events : ∀ e ∈ d.events, e.Plain

variable {d : Detector} {events : List Event}

theorem Quiet.later (h : d.Quiet) (now : ℚ) :
    Quiet { d with clock := now } := ⟨h.config, h.blocks, h.campaigns, h.events⟩

/-! ### Hearing a message -/

theorem mem_dropWhile {α : Type} {p : α → Bool} {xs : List α} {x : α} (hx : x ∈ xs)
    (hp : p x = false) : x ∈ xs.dropWhile p := by
  rw [← List.takeWhile_append_dropWhile (p := p) (l := xs), List.mem_append] at hx
  rcases hx with htake | hdrop
  · simp [List.mem_takeWhile_imp htake] at hp
  · exact hdrop

theorem Quiet.eventOf_plain (h : d.Quiet) (i : ℕ) :
    (d.eventOf plainTools (hourlyMessage i)).Plain := by
  have hunreadable : d.tunables.detectUnreadable = false := by
    show d.config.tunables.detectUnreadable = false
    rw [h.config]
    rfl
  have hthreshold : d.tunables.nameScoreThreshold = 3 := by
    show d.config.tunables.nameScoreThreshold = 3
    rw [h.config]
    rfl
  refine ⟨rfl, rfl, ?_, ?_, rfl, rfl⟩
  · show lowerAscii "" = ""
    decide
  · simp [eventOf, hourlyMessage, plainTools, hunreadable, hthreshold]

theorem Quiet.catching_eq_none (h : d.blocks = .empty) (e : Event) :
    d.catching e = none := by
  have hblocks : d.blockList = [] := by
    rw [blockList, h]
    rfl
  rw [catching, orderedBlocks, hblocks]
  rfl

theorem Quiet.ingest (h : d.Quiet) (i : ℕ) (hclock : d.clock = 3600 * i) :
    (d.ingest plainTools (hourlyMessage i)).Quiet ∧
      ∃ e ∈ (d.ingest plainTools (hourlyMessage i)).events, e.ts = 3600 * i ∧ e.settled = false := by
  have hcatching : (d.heard plainTools (hourlyMessage i)).catching
      (d.eventOf plainTools (hourlyMessage i)) = none := Quiet.catching_eq_none h.blocks _
  have hingest : d.ingest plainTools (hourlyMessage i) =
      (d.heard plainTools (hourlyMessage i)).trimEvents := by
    rw [ingest_eq, matchEvent, hcatching]
  rw [hingest]
  constructor
  · refine ⟨h.config, h.blocks, h.campaigns, ?_⟩
    intro e he
    rcases List.mem_append.mp ((List.dropWhile_sublist _).subset he) with hold | hnew
    · exact h.events e hold
    · rw [List.mem_singleton.mp hnew]
      exact h.eventOf_plain i
  · refine ⟨d.eventOf plainTools (hourlyMessage i), mem_dropWhile (by simp [heard]) ?_, rfl, rfl⟩
    apply decide_eq_false
    rw [not_lt]
    show d.clock - _ - 60 ≤ 3600 * (i : ℚ)
    rw [hclock]
    have hlongest : (0 : ℚ) ≤ ((max d.tunables.longWindowSeconds
      (max d.tunables.dedupeSeconds d.tunables.windowSeconds) : ℕ) : ℚ) := Nat.cast_nonneg _
    have hsame : (d.heard plainTools (hourlyMessage i)).tunables = d.tunables := rfl
    rw [hsame]
    linarith

/-! ### Deciding -/

theorem findCampaigns_eq_nil (h : ∀ e ∈ events, e.Plain) : d.findCampaigns events = [] := by
  have hshort : (events.drop (events.length - maxCampaignEvents)).filter (fun e =>
      !e.exempt && minCampaignChars ≤ e.norm.toList.length) = [] := by
    apply List.filter_eq_nil_iff.mpr
    intro e he
    rw [(h e (List.mem_of_mem_drop he)).norm]
    simp
  unfold findCampaigns
  simp only [hshort]
  rfl

theorem Quiet.withCampaigns_eq (h : d.Quiet) (now : ℚ) : d.withCampaigns now = d := by
  have hnone : d.findCampaigns (d.events.filter (fun e =>
      Decidable.decide (now - d.tunables.longWindowSeconds ≤ e.ts))) = d.campaigns := by
    rw [h.campaigns]
    exact findCampaigns_eq_nil (fun e he => h.events e (List.mem_filter.mp he).1)
  unfold withCampaigns
  simp only [hnone, h.campaigns]
  have hsame : ∀ e ∈ d.events, (if Decidable.decide (now - d.tunables.longWindowSeconds ≤ e.ts) then
      { e with campaign := none } else e) = id e := by
    intro e he
    split_ifs
    · rw [← (h.events e he).campaign]
      rfl
    · rfl
  simp only [List.find?_nil, Option.map_none]
  rw [List.map_congr_left hsame, List.map_id, ← h.campaigns]

theorem Quiet.learnPath_eq {e : Event} (he : e.Plain) : d.learnPath e = d := by
  rw [learnPath, if_pos he.path]

theorem Quiet.tunables_eq (h : d.Quiet) : d.tunables = quietConfig.tunables := by
  rw [tunables, h.config]

theorem Quiet.decideCampaigns_eq (h : d.Quiet) (P : Primitives) (T : TextTools)
    (now : ℚ) : d.decideCampaigns P T now = d := by
  rw [decideCampaigns, h.withCampaigns_eq, h.tunables_eq]
  rfl

theorem Quiet.correctCampaigns_eq (h : d.Quiet) (longWindow : List Event)
    (now : ℚ) : d.correctCampaigns longWindow now = d := by
  rw [correctCampaigns, h.blocks]
  rfl

/-- No step before the messages settle does anything. -/
theorem Quiet.beforeSettle_eq (h : d.Quiet) (P : Primitives) (T : TextTools)
    (freshSeconds : ℚ) : d.beforeSettle P T none freshSeconds = d := by
  have hpaths : ∀ events : List Event, (∀ e ∈ events, e.Plain) → d.learnPaths events = d := by
    intro events hevents
    induction events with
    | nil => rfl
    | cons e events ih =>
      rw [learnPaths, List.foldl_cons, Quiet.learnPath_eq (hevents e List.mem_cons_self)]
      exact ih (fun e he => hevents e (List.mem_cons_of_mem _ he))
  unfold beforeSettle
  simp only [h.decideCampaigns_eq, h.correctCampaigns_eq, h.tunables_eq]
  exact hpaths _ (fun e he => h.events e (List.mem_filter.mp he).1)

theorem Quiet.settleOne (h : d.Quiet) {e : Event} (he : e.Plain) (now : ℚ) :
    (d.settleOne now e).Quiet := by
  unfold Detector.settleOne
  split_ifs
  · exact h
  · rw [recordHome, if_pos (by simp [he.sender]), learnSender, if_pos (by simp [he.sender]),
      learnRoute, if_pos he.path]
    refine ⟨h.config, h.blocks, h.campaigns, ?_⟩
    intro e' he'
    obtain ⟨old, hold, rfl⟩ := List.mem_map.mp he'
    have hplain := h.events old hold
    split_ifs
    · exact ⟨hplain.path, hplain.sender, hplain.norm, hplain.random, hplain.matched,
        hplain.campaign⟩
    · exact hplain

theorem Quiet.settle (h : d.Quiet) (now : ℚ)
    (hevents : ∀ e ∈ events, e.Plain) : (d.settle events now).Quiet := by
  unfold Detector.settle
  induction events generalizing d with
  | nil => exact h
  | cons e events ih =>
    rw [List.foldl_cons]
    exact ih (h.settleOne (hevents e List.mem_cons_self) now)
      (fun e he => hevents e (List.mem_cons_of_mem _ he))

theorem Quiet.afterSettle (h : d.Quiet) (now : ℚ) :
    (d.afterSettle quietConfig.tunables now).Quiet := by
  have hdrop : d.dropOldLinks = d := by
    rw [dropOldLinks, h.blocks]
    rfl
  have hlinks : d.holdLinks now = d := by
    rw [holdLinks, hdrop, linkOrders, h.tunables_eq]
    rfl
  have hafter : d.afterSettle quietConfig.tunables now = (d.expire now).forgetOld now := by
    show (((d.holdLinks now).stepIf false _).expire now).forgetOld now = _
    rw [hlinks]
    rfl
  rw [hafter]
  refine ⟨h.config, ?_, h.campaigns, h.events⟩
  show d.blocks.eraseIf _ = .empty
  rw [h.blocks]
  rfl

theorem Quiet.decide (h : d.Quiet) (P : Primitives) (T : TextTools)
    (freshSeconds : ℚ) : (d.decide P T none freshSeconds).Quiet := by
  rw [decide_eq]
  show (d.beforeRematch P T none freshSeconds).Quiet
  unfold beforeRematch
  simp only [h.beforeSettle_eq, h.decideCampaigns_eq, h.correctCampaigns_eq, h.tunables_eq]
  apply Quiet.afterSettle
  exact h.settle _ (fun e he => h.events e (List.mem_filter.mp he).1)

end Detector

namespace Ledger

/-! ### One hour after the other -/

theorem outcome_plain {e : Event} (he : e.Plain) (d : Detector) : d.outcome e = .clean := by
  simp [Detector.outcome, Detector.campaignOf, he.random, he.matched, he.campaign]

theorem count_plain {e : Event} (he : e.Plain) (d : Detector) (hours : OrderedDict ℤ Hour) :
    ∃ hour, count d e hours = hours.set (hourOf e.ts) hour := by
  unfold count
  simp only [outcome_plain he]
  exact ⟨_, rfl⟩

/-- Plain messages leave every hour open, and each one that settles opens its own. -/
theorem countAll_plain {now : ℚ} {events : List Event} (hevents : ∀ e ∈ events, e.Plain)
    (d : Detector) (hours : OrderedDict ℤ Hour) {k : ℤ}
    (hk : k ∈ hours.keys ∨ ∃ e ∈ events, settles now e = true ∧ hourOf e.ts = k) :
    k ∈ (countAll now d events hours).keys := by
  induction events generalizing d hours with
  | nil =>
    rcases hk with hk | ⟨e, he, _⟩
    · exact hk
    · cases he
  | cons e rest ih =>
    rw [countAll]
    apply ih (fun e he => hevents e (List.mem_cons_of_mem _ he))
    obtain ⟨hour, hcount⟩ := count_plain (hevents e List.mem_cons_self) d hours
    rw [hcount]
    rcases hk with hk | ⟨e', he', hsettles, hhour⟩
    · left
      split_ifs
      · exact OrderedDict.mem_keys_set hours hour (Or.inr hk)
      · exact hk
    · rcases List.mem_cons.mp he' with rfl | hrest
      · left
        rw [if_pos hsettles]
        exact OrderedDict.mem_keys_set hours hour (Or.inl hhour.symm)
      · exact Or.inr ⟨e', hrest, hsettles, hhour⟩

/-- The first hours are open, and nothing else happened. -/
structure CleanUntil (n : ℕ) (s : Ledger) : Prop where
  quiet : s.detector.Quiet
  clock : s.detector.clock ≤ 3600 * n
  hours : ∀ i < n, (3600 * i : ℤ) ∈ s.hours.keys

theorem hourOf_hourly (i : ℕ) : hourOf (3600 * i) = 3600 * i := by
  unfold hourOf
  have hdiv : (3600 * (i : ℚ)) / 3600 = i := by
    field_simp
  rw [hdiv, Int.floor_natCast]
  omega

variable {s : Ledger}

theorem at?_of_le {now : ℚ} (h : s.detector.clock ≤ now) :
    s.at? now = some { s with detector := { s.detector with clock := now } } := if_pos h

/-- The message of the next hour, and a call of `decide` after it settles. -/
theorem CleanUntil.next (P : Primitives) {n : ℕ} (h : s.CleanUntil n) :
    ∃ heard s' : Ledger, Run (LedgerStep P plainTools) s
      [⟨s, .ingest (3600 * n) (hourlyMessage n) none, heard⟩,
        ⟨heard, .decide (3600 * n + 200) none 0, s'⟩] s' ∧ s'.CleanUntil (n + 1) := by
  set atHour : Ledger := { s with detector := { s.detector with clock := 3600 * n } } with hatHour
  set heard := atHour.ingest plainTools (hourlyMessage n) none with hheard
  set later : Ledger :=
    { heard with detector := { heard.detector with clock := 3600 * n + 200 } } with hlater
  obtain ⟨hquiet, e, he, hts, hunsettled⟩ := (h.quiet.later (3600 * n)).ingest n rfl
  have hclock : heard.detector.clock = 3600 * n :=
    (@Detector.edits_ingest (fun _ => True) (fun _ _ => True) _ _ _).clock
  have hfirst : LedgerStep P plainTools s (.ingest (3600 * n) (hourlyMessage n) none) heard := by
    show (s.at? (3600 * n)).map _ = some heard
    rw [at?_of_le h.clock]
    rfl
  have hsecond : LedgerStep P plainTools heard (.decide (3600 * n + 200) none 0)
      (later.decide P plainTools none 0) := by
    show (heard.at? (3600 * n + 200)).map _ = some (later.decide P plainTools none 0)
    rw [at?_of_le (by rw [hclock]; linarith)]
    rfl
  refine ⟨heard, later.decide P plainTools none 0,
    (Run.single hfirst).append (Run.single hsecond), ?_⟩
  have hlaterQuiet : later.detector.Quiet := hquiet.later _
  have hbefore : later.detector.beforeSettle P plainTools none 0 = later.detector :=
    hlaterQuiet.beforeSettle_eq P plainTools 0
  refine ⟨hlaterQuiet.decide P plainTools 0, ?_, ?_⟩
  · have hkept : (later.detector.decide P plainTools none 0).clock = 3600 * n + 200 :=
      (@Detector.edits_decide (fun _ _ => True) _ _ _ _ _ (fun _ _ => trivial)).clock
    show (later.detector.decide P plainTools none 0).clock ≤ 3600 * ((n + 1 : ℕ) : ℚ)
    rw [hkept]
    push_cast
    linarith
  · intro i hi
    show _ ∈ (countAll _ (later.detector.beforeSettle P plainTools none 0) _ s.hours).keys
    rw [hbefore]
    apply countAll_plain
    · exact fun e he => hquiet.events e (List.mem_filter.mp he).1
    · rcases Nat.lt_succ_iff_lt_or_eq.mp hi with hlt | rfl
      · exact Or.inl (h.hours i hlt)
      · refine Or.inr ⟨e, List.mem_filter.mpr ⟨he, ?_⟩, ?_, ?_⟩
        · apply decide_eq_true
          show (3600 * (i : ℚ) + 200) - _ ≤ e.ts
          have hlong : later.detector.tunables.longWindowSeconds = 7200 := by
            rw [hlaterQuiet.tunables_eq]
            rfl
          rw [hts, hlong]
          push_cast
          linarith
        · simp only [settles, hunsettled, Bool.false_or, Bool.not_eq_true', decide_eq_false_iff_not]
          rw [hts, not_lt]
          show (120 : ℚ) ≤ (3600 * (i : ℚ) + 200) - 3600 * i
          linarith
        · rw [hts]
          exact hourOf_hourly i

theorem cleanUntil_start : (start quietConfig 0).CleanUntil 0 where
  quiet :=
    { config := rfl
      blocks := rfl
      campaigns := rfl
      events := fun e he => absurd he List.not_mem_nil }
  clock := by
    show (0 : ℚ) ≤ 3600 * ((0 : ℕ) : ℚ)
    norm_num
  hours := fun i hi => absurd hi (Nat.not_lt_zero i)

/-- **Hours grow.** A clean message in each of any number of hours keeps all of them open. -/
theorem clean_hours_grow (P : Primitives) (n : ℕ) :
    ∃ h s, Run (LedgerStep P plainTools) (start quietConfig 0) h s ∧
      (∀ ev ∈ h, ev.label.isAirtime = false) ∧
      (0 < n → ∃ ev ∈ h, ev.label.isDecide = true ∧ ev.post = s) ∧ s.CleanUntil n := by
  induction n with
  | zero =>
    exact ⟨[], _, Run.nil _, fun ev hev => absurd hev List.not_mem_nil,
      fun hn => absurd hn (lt_irrefl 0), cleanUntil_start⟩
  | succ n ih =>
    obtain ⟨h, s, hrun, hcalls, _, hclean⟩ := ih
    obtain ⟨heard, s', hnext, hclean'⟩ := hclean.next P
    refine ⟨_, s', hrun.append hnext, ?_, fun _ => ?_, hclean'⟩
    · intro ev hev
      simp only [List.mem_append, List.mem_cons, List.not_mem_nil, or_false] at hev
      rcases hev with hev | rfl | rfl
      · exact hcalls ev hev
      · rfl
      · rfl
    · refine ⟨_, List.mem_append_right _ (List.mem_cons_of_mem _ (List.mem_singleton_self _)),
        rfl, rfl⟩

theorem CleanUntil.le_size {n : ℕ} (h : s.CleanUntil n) : n ≤ s.hours.size := by
  have hnodup : ((List.range n).map (fun i : ℕ => (3600 * i : ℤ))).Nodup := by
    apply List.nodup_range.map
    intro i j hij
    simpa using hij
  have hsub : (List.range n).map (fun i : ℕ => (3600 * i : ℤ)) ⊆ s.hours.keys := by
    intro k hk
    obtain ⟨i, hi, rfl⟩ := List.mem_map.mp hk
    exact h.hours i (List.mem_range.mp hi)
  have hle := OrderedDict.length_le_size hnodup hsub
  rwa [List.length_map, List.length_range] at hle

/-- 202 hours with a clean message each are all kept. -/
theorem not_forall_memory_bounded :
    ¬ ∀ (P : Primitives) (T : TextTools) (config : SpamConfig) (now : ℚ) (h : List LedgerEvent)
      (s : Ledger), Run (LedgerStep P T) (start config now) h s →
      (∀ ev ∈ h, ev.label.isAirtime = false) →
      ∀ ev ∈ h, ev.label.isDecide = true → ev.post.Bounded := by
  intro hall
  obtain ⟨h, s, hrun, hcalls, hlast, hclean⟩ := clean_hours_grow (fixedPrimitives []) 202
  obtain ⟨ev, hev, hdecide, rfl⟩ := hlast (by decide)
  have hbounded := hall _ _ _ _ _ _ hrun hcalls ev hev hdecide
  have hsize := hclean.le_size
  have hhours : ev.post.hours.size ≤ 201 := hbounded.hours
  omega

end Ledger

end RtfmEv.Spam
