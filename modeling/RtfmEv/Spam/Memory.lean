import RtfmEv.HostRepeater.Forwarding
import RtfmEv.Spam.Ledger

/-!
# How much the detector remembers

People, routes, senders, homes and the reported messages stay within their bounds
whatever comes in. The hours do too while every hour that is opened by a message
that is no spam, or by airtime, finds room: old hours are dropped only when a
message counts as spam. Clean traffic opens one hour after the other, and none of
them is ever dropped.
-/

namespace RtfmEv.Spam

open RtfmEv.Lib RtfmEv.HostRepeater

/-! ### Newest entries -/

variable {α β : Type} {less : β → β → Bool}

theorem leastBy_mem {value : α → β} {xs : List α} {x : α}
    (h : leastBy less value xs = some x) : x ∈ xs := by
  cases xs with
  | nil => cases h
  | cons a rest =>
    obtain rfl := Option.some.inj h
    have hfold : ∀ (ys : List α) (best : α),
        ys.foldl (fun best x => if less (value x) (value best) then x else best) best = best ∨
          ys.foldl (fun best x => if less (value x) (value best) then x else best) best ∈ ys := by
      intro ys
      induction ys with
      | nil => exact fun best => Or.inl rfl
      | cons y ys ih =>
        intro best
        rw [List.foldl_cons]
        rcases ih (if less (value y) (value best) then y else best) with hsame | hmem
        · rw [hsame]
          split_ifs
          · exact Or.inr List.mem_cons_self
          · exact Or.inl rfl
        · exact Or.inr (List.mem_cons_of_mem _ hmem)
    rcases hfold rest a with hsame | hmem
    · rw [hsame]
      exact List.mem_cons_self
    · exact List.mem_cons_of_mem _ hmem

theorem leastBy_isSome {value : α → β} {xs : List α}
    (h : xs ≠ []) : (leastBy less value xs).isSome = true := by
  cases xs with
  | nil => exact absurd rfl h
  | cons _ _ => rfl

theorem size_dictOf_le (entries : List (String × β)) : (dictOf entries).size ≤ entries.length := by
  have hfold : ∀ dict : OrderedDict String β,
      (entries.foldl (fun dict entry => dict.set entry.1 entry.2) dict).size ≤
        dict.size + entries.length := by
    induction entries with
    | nil => exact fun dict => le_rfl
    | cons entry entries ih =>
      intro dict
      have hset := OrderedDict.size_set_le dict entry.1 entry.2
      have hrest := ih (dict.set entry.1 entry.2)
      rw [List.foldl_cons, List.length_cons]
      omega
  have h := hfold .empty
  have hempty : (OrderedDict.empty : OrderedDict String β).size = 0 := rfl
  rw [hempty, Nat.zero_add] at h
  exact h

theorem size_dictOf_newest_le (last : β → ℚ) (n : ℕ) (entries : List (String × β)) :
    (dictOf (newest last n entries)).size ≤ n := by
  have h := size_dictOf_le (newest last n entries)
  have htake : (newest last n entries).length ≤ n := List.length_take_le _ _
  omega

namespace Detector

/-! ### Names of senders -/

theorem size_countSender_le {d : Detector} (h : d.senders.size ≤ maxSenderHistory) (e : Event) :
    (d.countSender e).size ≤ maxSenderHistory := by
  unfold countSender
  extract_lets history senders
  have hset : senders.size ≤ d.senders.size + 1 := OrderedDict.size_set_le _ _ _
  split_ifs with hfull
  · have hsome := @leastBy_isSome _ _ (fun a b : ℚ => a < b)
      (fun entry : String × SenderHistory => entry.2.last) senders.entries (by
        intro hnil
        have hzero : senders.size = 0 := by
          show senders.entries.length = 0
          rw [hnil]
          rfl
        omega)
    obtain ⟨entry, hentry⟩ := Option.isSome_iff_exists.mp hsome
    have hkey : entry.1 ∈ senders.keys := List.mem_map.mpr ⟨entry, leastBy_mem hentry, rfl⟩
    have hlt := OrderedDict.size_erase_lt hkey
    rw [hentry]
    show (senders.erase entry.1).size ≤ maxSenderHistory
    omega
  · exact Nat.not_lt.mp hfull

/-! ### Steps that leave the names of senders alone -/

theorem foldl_senders {α : Type} {f : Detector → α → Detector}
    (hf : ∀ d x, (f d x).senders = d.senders) (xs : List α) (d : Detector) :
    (xs.foldl f d).senders = d.senders := by
  induction xs generalizing d with
  | nil => rfl
  | cons x xs ih => rw [List.foldl_cons, ih, hf]

variable {f : Detector → Detector}

theorem stepIf_senders (hf : ∀ d, (f d).senders = d.senders)
    (on : Bool) (d : Detector) : (d.stepIf on f).senders = d.senders := by
  cases on with
  | true => exact hf d
  | false => rfl

variable (d : Detector) (now : ℚ) (e : Event)

theorem want_senders (o : BlockOrder) : (d.want o).senders = d.senders := by
  unfold want addBlock
  split_ifs
  · rfl
  · rfl
  · cases d.blocks.get? o.key with
    | none => rfl
    | some b =>
      show (if _ then d.setBlock o.key _ else d).senders = d.senders
      split_ifs <;> rfl

theorem wantAll_senders (orders : List BlockOrder) :
    (d.wantAll orders).senders = d.senders := foldl_senders want_senders orders d

theorem correctCampaigns_senders (longWindow : List Event) (now : ℚ) :
    (d.correctCampaigns longWindow now).senders = d.senders := by
  apply foldl_senders
  intro acc entry
  split_ifs <;> rfl

theorem learnPath_senders : (d.learnPath e).senders = d.senders := by
  unfold learnPath
  split_ifs
  · rfl
  · cases d.blocks.get? ("hop:" ++ e.firstHop) with
    | none => rfl
    | some b =>
      show (if _ then d else d.setBlock _ _).senders = d.senders
      split_ifs <;> rfl

theorem settleOne_senders :
    (d.settleOne now e).senders = d.senders := by
  unfold settleOne
  split_ifs
  · rfl
  · have hroute : ∀ d : Detector, (d.learnRoute e).senders = d.senders := by
      intro d
      unfold learnRoute
      split_ifs <;> rfl
    have hsender : ∀ d : Detector, (d.learnSender e).senders = d.senders := by
      intro d
      unfold learnSender
      split_ifs <;> rfl
    have hhome : ∀ d : Detector, (d.recordHome e).senders = d.senders := by
      intro d
      unfold recordHome
      split_ifs <;> rfl
    rw [hroute, hsender, hhome]
    rfl

theorem allowOriginOf_senders :
    (d.allowOriginOf e).senders = d.senders := by
  unfold allowOriginOf
  split_ifs
  · rfl
  · extract_lets key
    cases d.blocks.get? key with
    | none => rfl
    | some b =>
      show (if _ then d else d.setBlock _ _).senders = d.senders
      split_ifs <;> rfl

/-- Orders leave them alone, whether their pass is switched on or off. -/
theorem stepIf_wantAll_senders {orders : Detector → List BlockOrder}
    (hf : ∀ d, f d = d.wantAll (orders d)) (on : Bool) (d : Detector) :
    (d.stepIf on f).senders = d.senders :=
  stepIf_senders (fun d => by rw [hf, wantAll_senders]) on d

theorem beforeSettle_senders (P : Primitives) (T : TextTools)
    (judged : Option Event) (freshSeconds : ℚ) :
    (d.beforeSettle P T judged freshSeconds).senders = d.senders := by
  unfold beforeSettle
  extract_lets now campaigns corrected tun duplicates repeats repeaters
  have hcampaigns : campaigns.senders = d.senders :=
    stepIf_wantAll_senders (fun _ => rfl) _ (d.withCampaigns now)
  have hcorrected : corrected.senders = campaigns.senders := correctCampaigns_senders _ _ _
  have hduplicates : duplicates.senders = corrected.senders :=
    stepIf_wantAll_senders (fun _ => rfl) _ _
  have hrepeats : repeats.senders = duplicates.senders :=
    stepIf_wantAll_senders (fun _ => rfl) _ _
  have hrepeaters : repeaters.senders = repeats.senders :=
    stepIf_wantAll_senders (fun _ => rfl) _ _
  rw [learnPaths, foldl_senders learnPath_senders, hrepeaters, hrepeats, hduplicates, hcorrected,
    hcampaigns]

theorem rematch_tables (judged : Option Event) :
    (d.rematch judged).senders = d.senders ∧ (d.rematch judged).known = d.known ∧
      (d.rematch judged).routes = d.routes ∧ (d.rematch judged).homes = d.homes := by
  unfold rematch
  cases judged with
  | none => exact ⟨rfl, rfl, rfl, rfl⟩
  | some e =>
    simp only
    split_ifs
    · exact ⟨rfl, rfl, rfl, rfl⟩
    · unfold matchEvent
      cases d.catching ((d.events.find? (fun other => other.id = e.id)).getD e) with
      | none => exact ⟨rfl, rfl, rfl, rfl⟩
      | some b =>
        simp only [hitBlock]
        split <;> exact ⟨rfl, rfl, rfl, rfl⟩

/-- Forgetting is the last step of a call that changes the tables. -/
theorem decide_tables (P : Primitives) (T : TextTools) (judged : Option Event)
    (freshSeconds : ℚ) :
    ∃ old : Detector, old.senders = d.senders ∧
      (d.decide P T judged freshSeconds).senders = (old.forgetOld d.clock).senders ∧
      (d.decide P T judged freshSeconds).known = (old.forgetOld d.clock).known ∧
      (d.decide P T judged freshSeconds).routes = (old.forgetOld d.clock).routes ∧
      (d.decide P T judged freshSeconds).homes = (old.forgetOld d.clock).homes := by
  rw [decide_eq]
  unfold beforeRematch afterSettle
  extract_lets now corrected before rotation links floods
  have hbefore : before.senders = d.senders := d.beforeSettle_senders P T judged freshSeconds
  have hsettled : (before.settle (before.longEvents now) now).senders = before.senders :=
    foldl_senders (fun d e => d.settleOne_senders now e) _ _
  have hrotation : rotation.senders = (before.settle (before.longEvents now) now).senders :=
    stepIf_senders (fun d => by
      rw [blockRotation, foldl_senders allowOriginOf_senders, wantAll_senders]) _ _
  have hlinks : links.senders = rotation.senders := by
    show (rotation.dropOldLinks.wantAll _).senders = rotation.senders
    rw [wantAll_senders]
    unfold dropOldLinks
    split_ifs <;> rfl
  have hfloods : floods.senders = links.senders :=
    stepIf_wantAll_senders (fun _ => rfl) _ _
  refine ⟨floods.expire now, ?_, rematch_tables _ judged⟩
  show floods.senders = d.senders
  rw [hfloods, hlinks, hrotation, hsettled, hbefore]

/-! ### What is kept of people and routes -/

theorem size_forgetOld_known_le :
    (d.forgetOld now).known.size ≤ maxKnown := by
  show (ite _ _ _ : OrderedDict String KnownEntry).size ≤ maxKnown
  split_ifs with hfull
  · exact size_dictOf_newest_le _ _ _
  · exact Nat.not_lt.mp hfull

theorem size_forgetOld_routes_le :
    (d.forgetOld now).routes.size ≤ maxRoutes := by
  show (ite _ _ _ : OrderedDict String RouteRecord).size ≤ maxRoutes
  split_ifs with hfull
  · exact size_dictOf_newest_le _ _ _
  · rw [Bool.or_eq_true, not_or] at hfull
    exact Nat.not_lt.mp (fun hlt => hfull.1 (decide_eq_true hlt))

theorem forgetOld_homes {name : String}
    (h : name ∈ (d.forgetOld now).homes.keys) :
    name ∈ (d.forgetOld now).known.keys ∨ name ∈ (d.forgetOld now).senders.keys := by
  obtain ⟨entry, hentry, rfl⟩ := List.mem_map.mp h
  have hkept := (List.mem_filter.mp hentry).2
  simp only [Bool.not_eq_true', Bool.and_eq_false_iff, Option.isNone_eq_false_iff,
    Option.isSome_iff_exists] at hkept
  rcases hkept with ⟨_, hget⟩ | ⟨_, hget⟩
  · exact Or.inl (OrderedDict.mem_keys_of_get? hget)
  · exact Or.inr (OrderedDict.mem_keys_of_get? hget)

end Detector

namespace Ledger

/-- What the detector may remember after a call of `decide`. -/
structure Bounded (s : Ledger) : Prop where
  hours : s.hours.size ≤ historyHours + 9
  known : s.detector.known.size ≤ maxKnown
  routes : s.detector.routes.size ≤ maxRoutes
  senders : s.detector.senders.size ≤ maxSenderHistory
  flagged : s.flagged.length ≤ maxFlagged
  duplicated : s.duplicated.length ≤ maxFlagged
  homes : ∀ name ∈ s.detector.homes.keys,
    name ∈ s.detector.known.keys ∨ name ∈ s.detector.senders.keys

/-! ### Reports -/

theorem length_report_le (reported ids : List ℕ) : (report reported ids).length ≤ maxFlagged := by
  unfold report
  extract_lets all
  rw [List.length_drop]
  omega

theorem length_collectFlags_le (events : List Event) (s : Ledger) :
    (s.collectFlags events).flagged.length ≤ maxFlagged := by
  simp only [collectFlags]
  exact length_report_le _ _

theorem length_collectDuplicates_le (events : List Event) (s : Ledger) :
    (s.collectDuplicates events).duplicated.length ≤ maxFlagged := by
  simp only [collectDuplicates]
  exact length_report_le _ _

/-! ### Hours -/

/-- An hour is open already, or there is room for one more. -/
def roomFor (hours : OrderedDict ℤ Hour) (ts : ℚ) : Bool :=
  hours.keys.contains (hourOf ts) || hours.size ≤ historyHours + 8

/-- Every message that settles is spam or finds room for its hour. -/
def countRoom (now : ℚ) (d : Detector) : List Event → OrderedDict ℤ Hour → Bool
  | [], _ => true
  | e :: rest, hours =>
    (!settles now e || (d.outcome e).isSpam || roomFor hours e.ts) &&
      countRoom now (d.settleOne now e) rest (if settles now e then count d e hours else hours)

variable {hours : OrderedDict ℤ Hour}

/-- With more than eight hours too many, all but the newest hours leave. -/
theorem size_prune_le : (prune hours).size ≤ historyHours + 8 := by
  unfold prune
  split_ifs with hfull
  · extract_lets stale
    have hperm := hours.keys.perm_insertionSort (· ≤ ·)
    have hnodup : stale.Nodup :=
      (hperm.nodup_iff.mpr hours.nodup).sublist (List.take_sublist _ _)
    have hsub : stale ⊆ hours.keys := fun k hk => hperm.mem_iff.mp (List.mem_of_mem_take hk)
    have hlength : stale.length = hours.size - historyHours := by
      have hkeys : hours.keys.length = hours.size := List.length_map _
      rw [List.length_take, List.length_insertionSort, hkeys]
      omega
    have hsize := OrderedDict.size_eraseIf_contains hnodup hsub
    omega
  · exact Nat.not_lt.mp hfull

theorem size_set_le_of_room {ts : ℚ} (hour : Hour)
    (hroom : roomFor hours ts = true) (h : hours.size ≤ historyHours + 9) :
    (hours.set (hourOf ts) hour).size ≤ historyHours + 9 := by
  rcases Bool.or_eq_true_iff.mp hroom with hopen | hspace
  · rw [OrderedDict.size_set_of_mem hour (List.contains_iff_mem.mp hopen)]
    exact h
  · have hset := OrderedDict.size_set_le hours (hourOf ts) hour
    have hle := of_decide_eq_true hspace
    omega

theorem size_count_le {d : Detector} {e : Event}
    (hroom : (d.outcome e).isSpam = true ∨ roomFor hours e.ts = true)
    (h : hours.size ≤ historyHours + 9) : (count d e hours).size ≤ historyHours + 9 := by
  unfold count
  extract_lets o counted
  split_ifs with hspam
  · have hprune := @size_prune_le counted
    omega
  · rcases hroom with hspam' | hroom
    · exact absurd hspam' hspam
    · exact size_set_le_of_room _ hroom h

/-- All messages that settle in a call. -/
theorem size_countAll_le {now : ℚ} {d : Detector} {events : List Event}
    (hroom : countRoom now d events hours = true)
    (h : hours.size ≤ historyHours + 9) :
    (countAll now d events hours).size ≤ historyHours + 9 := by
  induction events generalizing d hours with
  | nil => exact h
  | cons e rest ih =>
    rw [countRoom, Bool.and_eq_true] at hroom
    obtain ⟨hfirst, hrest⟩ := hroom
    rw [countAll]
    apply ih hrest
    split_ifs with hsettles
    · apply size_count_le _ h
      rw [hsettles] at hfirst
      simpa using hfirst
    · exact h

end Ledger

/-- A call opens an hour for a message that is no spam, or for airtime, only while
there is room for it. -/
def LedgerOp.roomy (P : Primitives) (T : TextTools) (s : Ledger) : LedgerOp → Bool
  | .ingest _ _ _ => true
  | .decide now judged freshSeconds =>
    let d := { s.detector with clock := now }
    let before := d.beforeSettle P T judged freshSeconds
    Ledger.countRoom now before (before.longEvents now) s.hours
  | .addAirtime ts _ => Ledger.roomFor s.hours ts

def LedgerOp.isDecide : LedgerOp → Bool
  | .decide _ _ _ => true
  | _ => false

def LedgerOp.isAirtime : LedgerOp → Bool
  | .addAirtime _ _ => true
  | _ => false

namespace Ledger

/-- What every call keeps. -/
structure Kept (s : Ledger) : Prop where
  hours : s.hours.size ≤ historyHours + 9
  senders : s.detector.senders.size ≤ maxSenderHistory

variable {s s' : Ledger}

theorem at?_eq_some {now : ℚ} (h : s.at? now = some s') :
    s' = { s with detector := { s.detector with clock := now } } := by
  unfold at? at h
  split_ifs at h
  exact (Option.some.inj h).symm

/-- A call of `decide` leaves everything within its bounds. -/
theorem bounded_decide {P : Primitives} {T : TextTools} {judged : Option Event}
    {freshSeconds : ℚ} (h : s.Kept)
    (hroom : countRoom s.detector.clock (s.detector.beforeSettle P T judged freshSeconds)
      ((s.detector.beforeSettle P T judged freshSeconds).longEvents s.detector.clock)
      s.hours = true) : (s.decide P T judged freshSeconds).Bounded := by
  obtain ⟨old, hold, hsenders, hknown, hroutes, hhomes⟩ :=
    s.detector.decide_tables P T judged freshSeconds
  refine ⟨size_countAll_le hroom h.hours, ?_, ?_, ?_, ?_, ?_, ?_⟩
  · show (s.detector.decide P T judged freshSeconds).known.size ≤ maxKnown
    rw [hknown]
    exact old.size_forgetOld_known_le _
  · show (s.detector.decide P T judged freshSeconds).routes.size ≤ maxRoutes
    rw [hroutes]
    exact old.size_forgetOld_routes_le _
  · show (s.detector.decide P T judged freshSeconds).senders.size ≤ maxSenderHistory
    rw [hsenders]
    have hforget := old.senders.size_eraseIf_le
      (fun entry => entry.2.last < s.detector.clock - senderHistorySeconds)
    rw [hold] at hforget
    have hkept := h.senders
    show (old.senders.eraseIf _).size ≤ maxSenderHistory
    rw [hold]
    omega
  · simp only [decide, collectDuplicates]
    exact length_collectFlags_le _ _
  · rw [decide]
    exact length_collectDuplicates_le _ _
  · show ∀ name ∈ (s.detector.decide P T judged freshSeconds).homes.keys,
      name ∈ (s.detector.decide P T judged freshSeconds).known.keys ∨
        name ∈ (s.detector.decide P T judged freshSeconds).senders.keys
    rw [hhomes, hknown, hsenders]
    exact fun name hname => old.forgetOld_homes _ hname

theorem ingest_senders (d : Detector) (T : TextTools) (m : Detector.Message) :
    (d.ingest T m).senders = d.countSender (d.eventOf T m) := by
  rw [Detector.ingest_eq]
  show ((d.heard T m).matchEvent (d.eventOf T m)).senders = (d.heard T m).senders
  unfold Detector.matchEvent
  cases (d.heard T m).catching (d.eventOf T m) with
  | none => rfl
  | some b =>
    simp only [Detector.hitBlock]
    split <;> rfl

theorem Kept.step {P : Primitives} {T : TextTools} {op : LedgerOp}
    (hstep : LedgerStep P T s op s') (hroom : op.roomy P T s = true) (h : s.Kept) :
    s'.Kept ∧ (op.isDecide = true → s'.Bounded) := by
  cases op with
  | ingest now m messageId =>
    obtain ⟨later, hlater, rfl⟩ := Option.map_eq_some_iff.mp hstep
    obtain rfl := at?_eq_some hlater
    refine ⟨⟨h.hours, ?_⟩, fun hdecide => absurd hdecide Bool.false_ne_true⟩
    show (Detector.ingest _ T m).senders.size ≤ maxSenderHistory
    rw [ingest_senders]
    exact Detector.size_countSender_le h.senders _
  | decide now judged freshSeconds =>
    obtain ⟨later, hlater, rfl⟩ := Option.map_eq_some_iff.mp hstep
    obtain rfl := at?_eq_some hlater
    have hbounded := bounded_decide (s := { s with detector := { s.detector with clock := now } })
      ⟨h.hours, h.senders⟩ hroom
    exact ⟨⟨hbounded.hours, hbounded.senders⟩, fun _ => hbounded⟩
  | addAirtime ts airtimeMs =>
    obtain rfl := Option.some.inj hstep
    exact ⟨⟨size_set_le_of_room _ hroom h.hours, h.senders⟩,
      fun hdecide => absurd hdecide Bool.false_ne_true⟩

theorem kept_start (config : SpamConfig) (now : ℚ) : (start config now).Kept :=
  ⟨Nat.zero_le _, Nat.zero_le _⟩

/-- **Bounded memory.** While every hour that a message which is no spam opens finds
room, each call of `decide` leaves everything within its bounds. -/
theorem memory_bounded {P : Primitives} {T : TextTools} {config : SpamConfig} {now : ℚ}
    {h : List LedgerEvent} {s : Ledger} (hrun : Run (LedgerStep P T) (start config now) h s)
    (hroom : ∀ ev ∈ h, ev.label.roomy P T ev.pre = true) :
    ∀ ev ∈ h, ev.label.isDecide = true → ev.post.Bounded := by
  intro ev hev hdecide
  obtain ⟨before, after, rfl⟩ := List.append_of_mem hev
  obtain ⟨hbefore, hstep, _⟩ := hrun.at_event
  have hkept : ev.pre.Kept :=
    hbefore.invariant (C := fun ev => ev.label.roomy P T ev.pre = true)
      (fun ev hev => hroom ev (List.mem_append_left _ hev))
      (fun ev hstep hroom hkept => (hkept.step hstep hroom).1) (kept_start config now)
  exact (hkept.step hstep (hroom ev hev)).2 hdecide

/-- One message, and the call in which it settles. -/
def firstHourOps : List LedgerOp :=
  [.ingest 0 { ts := 0, path := ["ab"], sender := "alice", text := "hello", channel := "c1" }
      (some 1),
    .decide 200 none 0]

theorem memory_bounded_firstHour :
    ∃ h s, Run (LedgerStep (fixedPrimitives []) plainTools) (start {} 0) h s ∧
      h.map Lib.Event.label = firstHourOps ∧
      ∀ ev ∈ h, ev.label.isDecide = true → ev.post.Bounded := by
  obtain ⟨h, s, hrun, hlabels, hroom⟩ := Run.exists_of_trace
    (LedgerOp.apply (fixedPrimitives []) plainTools) (start {} 0) firstHourOps
    (fun r => r.2.hours.size = 1 &&
      r.1.all (fun ev => ev.label.roomy (fixedPrimitives []) plainTools ev.pre))
    (by decide +kernel)
  have hroomy := List.all_eq_true.mp (Bool.and_eq_true_iff.mp hroom).2
  exact ⟨h, s, hrun, hlabels, memory_bounded hrun hroomy⟩

end Ledger

end RtfmEv.Spam
