import RtfmEv.HostRepeater.Forwarding
import RtfmEv.Spam.Messages

/-!
# Hourly numbers add up

Settling marks a message, so it settles once, and the call that settles it reports it. The
counters of an hour are those of the messages that settled since the hour was opened. Too many
hours are dropped with the oldest first: an hour opens again only if the clock is set back.
-/

namespace RtfmEv.Spam

open RtfmEv.Lib RtfmEv.HostRepeater

/-! ### One call -/

namespace Detector

variable (d : Detector) (now : ℚ) (e : Event)

theorem settleOne_judges :
    (d.settleOne now e).blocks = d.blocks ∧ (d.settleOne now e).campaigns = d.campaigns := by
  have hhome : ∀ d : Detector, (d.recordHome e).blocks = d.blocks ∧
      (d.recordHome e).campaigns = d.campaigns := by
    intro d
    unfold recordHome
    split_ifs <;> exact ⟨rfl, rfl⟩
  have hsender : ∀ d : Detector, (d.learnSender e).blocks = d.blocks ∧
      (d.learnSender e).campaigns = d.campaigns := by
    intro d
    unfold learnSender
    split_ifs <;> exact ⟨rfl, rfl⟩
  have hroute : ∀ d : Detector, (d.learnRoute e).blocks = d.blocks ∧
      (d.learnRoute e).campaigns = d.campaigns := by
    intro d
    unfold learnRoute
    split_ifs <;> exact ⟨rfl, rfl⟩
  unfold settleOne
  split_ifs
  · exact ⟨rfl, rfl⟩
  · rw [(hroute _).1, (hroute _).2, (hsender _).1, (hsender _).2, (hhome _).1, (hhome _).2]
    exact ⟨rfl, rfl⟩

theorem matchedBlock_settleOne (e' : Event) :
    (d.settleOne now e).matchedBlock e' = d.matchedBlock e' := by
  unfold matchedBlock
  rw [(d.settleOne_judges now e).1]

theorem outcome_settleOne (e' : Event) :
    (d.settleOne now e).outcome e' = d.outcome e' := by
  have hcampaign : (d.settleOne now e).campaignOf e' = d.campaignOf e' := by
    unfold campaignOf
    rw [(d.settleOne_judges now e).2]
  unfold outcome
  rw [hcampaign, matchedBlock_settleOne]

end Detector

namespace Accounts

theorem settlement_settleOne (s : Accounts) (d : Detector) (now : ℚ) (e e' : Event) :
    s.settlement (d.settleOne now e) e' = s.settlement d e' := by
  rw [settlement, settlement, Detector.outcome_settleOne, Detector.matchedBlock_settleOne]

/-- **The messages that settle are reported in their order.** -/
theorem settleAll_eq (s : Accounts) (now : ℚ) (d : Detector) (events : List Event)
    (settled : List SettledOutcome) :
    s.settleAll now d events settled = settled ++
      ((events.filter (Ledger.settles now)).map (s.settlement d)).filterMap Settlement.report := by
  induction events generalizing d settled with
  | nil => exact (List.append_nil settled).symm
  | cons e rest ih =>
    have hrest : (rest.filter (Ledger.settles now)).map (s.settlement (d.settleOne now e)) =
        (rest.filter (Ledger.settles now)).map (s.settlement d) :=
      List.map_congr_left (fun e' _ => s.settlement_settleOne d now e e')
    rw [settleAll, ih, hrest]
    by_cases hsettles : Ledger.settles now e = true
    · rw [if_pos hsettles, List.filter_cons_of_pos hsettles, List.map_cons, List.append_assoc]
      congr 1
      cases hreport : (s.settlement d e).report with
      | none => rw [List.filterMap_cons_none hreport]; rfl
      | some outcome => rw [List.filterMap_cons_some hreport]; rfl
    · rw [if_neg hsettles, List.filter_cons_of_neg hsettles]

end Accounts

namespace Ledger

/-- The hours after one more message settled. -/
def book (hours : OrderedDict ℤ Hour) (r : Settlement) : OrderedDict ℤ Hour :=
  let counted := hours.set r.hour (countOutcome r.outcome r.event ((hours.get? r.hour).getD {}))
  if r.outcome.isSpam then prune counted else counted

/-- **The counters follow the messages that settle.** -/
theorem countAll_eq (s : Accounts) (now : ℚ) (d : Detector) (events : List Event)
    (hours : OrderedDict ℤ Hour) :
    countAll now d events hours =
      ((events.filter (settles now)).map (s.settlement d)).foldl book hours := by
  induction events generalizing d hours with
  | nil => rfl
  | cons e rest ih =>
    have hrest : (rest.filter (settles now)).map (s.settlement (d.settleOne now e)) =
        (rest.filter (settles now)).map (s.settlement d) :=
      List.map_congr_left (fun e' _ => s.settlement_settleOne d now e e')
    rw [countAll, ih, hrest]
    by_cases hsettles : settles now e = true
    · rw [if_pos hsettles, List.filter_cons_of_pos hsettles, List.map_cons, List.foldl_cons]
      rfl
    · rw [if_neg hsettles, List.filter_cons_of_neg hsettles]

/-! ### The hours that are kept -/

theorem keys_prune (hours : OrderedDict ℤ Hour) :
    (prune hours).keys =
      if historyHours + 8 < hours.keys.length then
        hours.keys.filter (fun k =>
          !((hours.keys.insertionSort (· ≤ ·)).take (hours.keys.length - historyHours)).contains k)
      else hours.keys := by
  have hsize : hours.keys.length = hours.size := List.length_map _
  rw [prune, hsize]
  split_ifs
  · exact OrderedDict.keys_eraseIf hours _
  · rfl

variable {hours : OrderedDict ℤ Hour}

theorem get?_of_prune {k : ℤ} {hour : Hour}
    (h : (prune hours).get? k = some hour) : hours.get? k = some hour := by
  rw [prune] at h
  split_ifs at h
  · have hkept : (hours.eraseIf _).get? k = some hour := h
    rw [OrderedDict.get?_eraseIf, Option.filter_eq_some_iff] at hkept
    exact hkept.1
  · exact h

theorem keys_book (hours : OrderedDict ℤ Hour) (r : Settlement) :
    (book hours r).keys = keepHour hours.keys r := by
  unfold book keepHour
  cases hspam : r.outcome.isSpam with
  | true =>
    simp only [if_true, true_and, keys_prune, OrderedDict.keys_set]
  | false =>
    simp only [Bool.false_eq_true, if_false, false_and, OrderedDict.keys_set]

/-- An hour that is kept has its old numbers, or one more message. -/
theorem get?_book {r : Settlement} {k : ℤ} {hour : Hour} (h : (book hours r).get? k = some hour) :
    if k = r.hour then hour = countOutcome r.outcome r.event ((hours.get? r.hour).getD {})
    else hours.get? k = some hour := by
  have hcounted : (hours.set r.hour (countOutcome r.outcome r.event
      ((hours.get? r.hour).getD {}))).get? k = some hour := by
    rw [book] at h
    cases hspam : r.outcome.isSpam with
    | true =>
      rw [hspam, if_pos rfl] at h
      exact get?_of_prune h
    | false =>
      rw [hspam, if_neg (by decide)] at h
      exact h
  rw [OrderedDict.get?_set] at hcounted
  split_ifs at hcounted ⊢ with hk
  · exact (Option.some.inj hcounted).symm
  · exact hcounted

end Ledger

/-- The hours after some messages settled: each that is kept has the counters of those that
settled since it was opened. -/
structure Booked (hours : OrderedDict ℤ Hour) (settled : List Settlement) : Prop where
  keys : hours.keys = keptHours settled
  counts : ∀ k hour, hours.get? k = some hour → ∃ n ≤ settled.length,
    k ∉ keptHours (settled.take n) ∧
      hour.Counts ((settled.drop n).filter (fun r => r.hour = k))

theorem keptHours_concat (settled : List Settlement) (r : Settlement) :
    keptHours (settled ++ [r]) = keepHour (keptHours settled) r := by
  rw [keptHours, List.foldl_append]
  rfl

variable {hours : OrderedDict ℤ Hour} {settled : List Settlement} {s : Accounts}
  {config : SpamConfig}

/-- **One more message.** -/
theorem Booked.book
    (h : Booked hours settled) (r : Settlement) :
    Booked (Ledger.book hours r) (settled ++ [r]) := by
  refine ⟨by rw [Ledger.keys_book, keptHours_concat, h.keys], ?_⟩
  intro k hour hget
  have hbook := Ledger.get?_book hget
  by_cases hk : k = r.hour
  · rw [if_pos hk] at hbook
    subst hk
    rw [hbook]
    cases hold : hours.get? r.hour with
    | none =>
      -- the hour opens with this message
      have hnew : r.hour ∉ keptHours settled := by
        rw [← h.keys]
        exact OrderedDict.get?_eq_none_iff.mp hold
      refine ⟨settled.length, ?_, ?_, ?_⟩
      · rw [List.length_append]
        exact Nat.le_add_right _ _
      · rw [List.take_left]
        exact hnew
      · rw [List.drop_left, List.filter_cons_of_pos (by simp), List.filter_nil]
        exact Hour.counts_empty.next r
    | some old =>
      obtain ⟨n, hn, hclosed, hcounts⟩ := h.counts _ _ hold
      refine ⟨n, ?_, ?_, ?_⟩
      · rw [List.length_append]
        exact Nat.le_add_right_of_le hn
      · rw [List.take_append_of_le_length hn]
        exact hclosed
      · rw [List.drop_append_of_le_length hn, List.filter_append,
          List.filter_cons_of_pos (by simp), List.filter_nil]
        exact hcounts.next r
  · rw [if_neg hk] at hbook
    obtain ⟨n, hn, hclosed, hcounts⟩ := h.counts _ _ hbook
    refine ⟨n, ?_, ?_, ?_⟩
    · rw [List.length_append]
      exact Nat.le_add_right_of_le hn
    · rw [List.take_append_of_le_length hn]
      exact hclosed
    · rw [List.drop_append_of_le_length hn, List.filter_append,
        List.filter_cons_of_neg (by simpa using fun heq => hk heq.symm), List.filter_nil,
        List.append_nil]
      exact hcounts

theorem Booked.foldl
    (h : Booked hours settled) (more : List Settlement) :
    Booked (more.foldl Ledger.book hours) (settled ++ more) := by
  induction more generalizing hours settled with
  | nil =>
    rw [List.append_nil]
    exact h
  | cons r more ih =>
    have hmore := ih (h.book r)
    rw [List.append_assoc] at hmore
    exact hmore

/-! ### Messages settle once -/

namespace Detector

variable {e' : Event} (d : Detector)

theorem SameMessages.exists_core {d d' : Detector} (h : SameMessages d d')
    (he' : e' ∈ d'.events) : ∃ e ∈ d.events, e.core = e'.core := by
  have hmem := List.mem_map_of_mem (f := Event.core) he'
  rw [h.cores] at hmem
  exact List.mem_map.mp hmem

theorem SameMessages.ids {d d' : Detector} (h : SameMessages d d') :
    d'.events.map Event.id = d.events.map Event.id := by
  have hid : Event.id = Event.id ∘ Event.core := rfl
  rw [hid, ← List.map_map, ← List.map_map, h.cores]

theorem id_eq_of_core {e : Event} (h : e.core = e'.core) : e.id = e'.id := by
  show e.core.id = e'.core.id
  rw [h]

theorem settled_eq_of_core {e : Event} (h : e.core = e'.core) : e.settled = e'.settled := by
  show e.core.settled = e'.core.settled
  rw [h]

/-- The messages that settle in a call. -/
def settling (before : Detector) (now : ℚ) : List Event :=
  (before.longEvents now).filter (Ledger.settles now)

variable (P : Primitives) (T : TextTools) (judged : Option Event)

/-- After the messages settled, a call only notes matches on them. -/
theorem SameMessages.decide (freshSeconds : ℚ) :
    SameMessages ((d.beforeSettle P T judged freshSeconds).settle
      ((d.beforeSettle P T judged freshSeconds).longEvents d.clock) d.clock)
      (d.decide P T judged freshSeconds) := by
  rw [decide_eq]
  exact (SameEvents.afterSettle _ _ _).messages.trans (SameMessages.rematch _ judged)

/-- **A call keeps the messages, and marks those that settle in it.** -/
theorem decide_marks (freshSeconds : ℚ) (he' : e' ∈ (d.decide P T judged freshSeconds).events)
    (hmark : (∃ e ∈ d.events, e.id = e'.id ∧ e.settled = true) ∨
      e'.id ∈ ((d.beforeSettle P T judged freshSeconds).settling d.clock).map Event.id)
    (hnodup : (d.events.map Event.id).Nodup) : e'.settled = true := by
  have hbefore := SameMessages.beforeSettle d P T judged freshSeconds
  obtain ⟨e₁, he₁, hcore⟩ := (SameMessages.decide d P T judged freshSeconds).exists_core he'
  rw [settle_events] at he₁
  obtain ⟨e, he, rfl⟩ := List.mem_map.mp he₁
  have hid := id_eq_of_core hcore
  rw [← settled_eq_of_core hcore]
  split_ifs at hid ⊢ with hany
  · rfl
  · rcases hmark with ⟨e₀, he₀, hid₀, hsettled⟩ | hnew
    · obtain ⟨e₂, he₂, hcore₂⟩ := hbefore.exists_core he
      have hsame : e₂ = e₀ := by
        apply List.inj_on_of_nodup_map hnodup he₂ he₀
        rw [id_eq_of_core hcore₂, hid, hid₀]
      rw [← settled_eq_of_core hcore₂, hsame]
      exact hsettled
    · exfalso
      apply hany
      obtain ⟨e₂, he₂, heq⟩ := List.mem_map.mp hnew
      obtain ⟨hlong, hsettles⟩ := List.mem_filter.mp he₂
      rw [List.any_eq_true]
      exact ⟨e₂, hlong, by rw [hsettles, heq, hid, beq_self_eq_true]; rfl⟩

theorem decide_ids (freshSeconds : ℚ) :
    (d.decide P T judged freshSeconds).events.map Event.id = d.events.map Event.id := by
  rw [(SameMessages.decide d P T judged freshSeconds).ids, settle_events, List.map_map,
    ← (SameMessages.beforeSettle d P T judged freshSeconds).ids]
  apply List.map_congr_left
  intro e _
  rw [Function.comp_apply]
  split_ifs <;> rfl

theorem decide_rest (freshSeconds : ℚ) :
    (d.decide P T judged freshSeconds).nextEvent = d.nextEvent ∧
      (d.decide P T judged freshSeconds).config = d.config ∧
      (d.decide P T judged freshSeconds).clock = d.clock := by
  have hbefore := SameMessages.beforeSettle d P T judged freshSeconds
  have hafter := SameMessages.decide d P T judged freshSeconds
  obtain ⟨hnext, hconfig, hclock⟩ := (d.beforeSettle P T judged freshSeconds).settle_rest
    ((d.beforeSettle P T judged freshSeconds).longEvents d.clock) d.clock
  exact ⟨hafter.nextEvent.trans (hnext.trans hbefore.nextEvent),
    hafter.config.trans (hconfig.trans hbefore.config),
    hafter.clock.trans (hclock.trans hbefore.clock)⟩

/-- A message that comes in joins the others with the next number, and old ones may go. -/
theorem ingest_messages (T : TextTools) (m : Message) :
    SameMessages (d.heard T m) ((d.heard T m).matchEvent (d.eventOf T m)) ∧
      (d.ingest T m).events.Sublist ((d.heard T m).matchEvent (d.eventOf T m)).events :=
  ⟨SameMessages.matchEvent _ _, List.dropWhile_sublist _⟩

end Detector

/-! ### Runs -/

/-- What holds of the calls so far and the state they led to. -/
structure Told (config : SpamConfig) (settled : List Settlement) (s : Accounts) : Prop where
  config : s.ledger.detector.config = config
  nodup : (s.ledger.detector.events.map Event.id).Nodup
  below : ∀ e ∈ s.ledger.detector.events, e.id < s.ledger.detector.nextEvent
  once : (settled.map (fun r => r.event.id)).Nodup
  settledBelow : ∀ r ∈ settled, r.event.id < s.ledger.detector.nextEvent
  marked : ∀ r ∈ settled, ∀ e ∈ s.ledger.detector.events, e.id = r.event.id → e.settled = true
  waiting : s.settled = []
  booked : Booked s.ledger.hours settled

theorem Told.start (config : SpamConfig) (now : ℚ) :
    Told config [] (Accounts.start config now) where
  config := rfl
  nodup := List.nodup_nil
  below := fun _ he => absurd he List.not_mem_nil
  once := List.nodup_nil
  settledBelow := fun _ hr => absurd hr List.not_mem_nil
  marked := fun _ hr => absurd hr List.not_mem_nil
  waiting := rfl
  booked := ⟨rfl, fun _ _ h => nomatch h⟩

theorem Told.at_ (h : Told config settled s) (now : ℚ) : Told config settled (s.at_ now) :=
  ⟨h.config, h.nodup, h.below, h.once, h.settledBelow, h.marked, h.waiting, h.booked⟩

theorem Told.ingest
    (h : Told config settled s) (T : TextTools) (m : Detector.Message) (messageId : Option ℕ) :
    Told config settled { s with ledger := s.ledger.ingest T m messageId } := by
  obtain ⟨hsame, hsub⟩ := s.ledger.detector.ingest_messages T m
  have hids : ((s.ledger.detector.heard T m).matchEvent
      (s.ledger.detector.eventOf T m)).events.map Event.id =
        s.ledger.detector.events.map Event.id ++ [s.ledger.detector.nextEvent] := by
    rw [hsame.ids]
    show (s.ledger.detector.events ++ [_]).map Event.id = _
    rw [List.map_append]
    rfl
  have hnext : (s.ledger.detector.ingest T m).nextEvent = s.ledger.detector.nextEvent + 1 :=
    hsame.nextEvent
  have hbelow : ∀ i ∈ s.ledger.detector.events.map Event.id, i < s.ledger.detector.nextEvent := by
    intro i hi
    obtain ⟨e, he, rfl⟩ := List.mem_map.mp hi
    exact h.below e he
  refine ⟨?_, ?_, ?_, h.once, ?_, ?_, h.waiting, h.booked⟩
  · exact hsame.config.trans h.config
  · refine List.Nodup.sublist (hsub.map Event.id) ?_
    rw [hids]
    refine h.nodup.append (List.nodup_singleton _) ?_
    rw [List.disjoint_singleton]
    exact fun hin => Nat.lt_irrefl _ (hbelow _ hin)
  · intro e he
    have hin := List.mem_map_of_mem (f := Event.id) (hsub.subset he)
    rw [hids] at hin
    show e.id < (s.ledger.detector.ingest T m).nextEvent
    rw [hnext]
    rcases List.mem_append.mp hin with hold | hnew
    · exact Nat.lt_succ_of_lt (hbelow _ hold)
    · rw [List.mem_singleton.mp hnew]
      exact Nat.lt_succ_self _
  · intro r hr
    show r.event.id < (s.ledger.detector.ingest T m).nextEvent
    rw [hnext]
    exact Nat.lt_succ_of_lt (h.settledBelow r hr)
  · intro r hr e he hid
    obtain ⟨e₀, he₀, hcore⟩ := hsame.exists_core (hsub.subset he)
    have hid₀ := Detector.id_eq_of_core hcore
    rw [← Detector.settled_eq_of_core hcore]
    rcases List.mem_append.mp he₀ with hold | hnew
    · exact h.marked r hr e₀ hold (hid₀.trans hid)
    · rw [List.mem_singleton.mp hnew] at hid₀
      have hlt := h.settledBelow r hr
      rw [← hid, ← hid₀] at hlt
      exact absurd hlt (Nat.lt_irrefl _)

/-- **A call of `decide`** settles messages that did not settle before, each once, and
reports them. -/
theorem Told.decide
    (h : Told config settled s) (P : Primitives) (T : TextTools) (judged : Option Event)
    (freshSeconds : ℚ) :
    Told config
      (settled ++ (((s.ledger.detector.beforeSettle P T judged freshSeconds).settling
        s.ledger.detector.clock).map
          (s.settlement (s.ledger.detector.beforeSettle P T judged freshSeconds))))
      (s.decide P T judged freshSeconds) := by
  have hbefore := Detector.SameMessages.beforeSettle s.ledger.detector P T judged freshSeconds
  obtain ⟨hnext, hconfig, hclock⟩ := s.ledger.detector.decide_rest P T judged freshSeconds
  set d := s.ledger.detector with hd
  set before := d.beforeSettle P T judged freshSeconds with hdef
  have hids := d.decide_ids P T judged freshSeconds
  have hsettling : ∀ e ∈ before.settling d.clock, e ∈ before.events ∧ e.settled = false := by
    intro e he
    obtain ⟨hlong, hsettles⟩ := List.mem_filter.mp he
    refine ⟨(List.mem_filter.mp hlong).1, ?_⟩
    unfold Ledger.settles at hsettles
    rw [Bool.not_eq_true', Bool.or_eq_false_iff] at hsettles
    exact hsettles.1
  have hnew : ((before.settling d.clock).map (s.settlement before)).map (fun r => r.event.id) =
      (before.settling d.clock).map Event.id := by
    rw [List.map_map]
    rfl
  have hknown : ∀ e ∈ before.settling d.clock, ∃ e₀ ∈ d.events, e₀.id = e.id ∧
      e₀.settled = false := by
    intro e he
    obtain ⟨hmem, hunsettled⟩ := hsettling e he
    obtain ⟨e₀, he₀, hcore⟩ := hbefore.exists_core hmem
    exact ⟨e₀, he₀, Detector.id_eq_of_core hcore,
      (Detector.settled_eq_of_core hcore).trans hunsettled⟩
  refine ⟨hconfig.trans h.config, ?_, ?_, ?_, ?_, ?_, rfl, ?_⟩
  · show ((d.decide P T judged freshSeconds).events.map Event.id).Nodup
    rw [hids]
    exact h.nodup
  · intro e he
    have hin : e.id ∈ (d.decide P T judged freshSeconds).events.map Event.id :=
      List.mem_map_of_mem he
    rw [hids] at hin
    obtain ⟨e₀, he₀, hid⟩ := List.mem_map.mp hin
    show e.id < (d.decide P T judged freshSeconds).nextEvent
    rw [hnext, ← hid]
    exact h.below e₀ he₀
  · rw [List.map_append, hnew]
    refine h.once.append ?_ ?_
    · have hsub : (before.settling d.clock).Sublist before.events :=
        List.filter_sublist.trans List.filter_sublist
      refine List.Nodup.sublist (hsub.map Event.id) ?_
      rw [hbefore.ids]
      exact h.nodup
    · intro i hi hi'
      obtain ⟨r, hr, rfl⟩ := List.mem_map.mp hi
      obtain ⟨e, he, hid⟩ := List.mem_map.mp hi'
      obtain ⟨e₀, he₀, hid₀, hunsettled⟩ := hknown e he
      rw [h.marked r hr e₀ he₀ (hid₀.trans hid)] at hunsettled
      cases hunsettled
  · intro r hr
    show r.event.id < (d.decide P T judged freshSeconds).nextEvent
    rw [hnext]
    rcases List.mem_append.mp hr with hold | hnew
    · exact h.settledBelow r hold
    · obtain ⟨e, he, rfl⟩ := List.mem_map.mp hnew
      obtain ⟨e₀, he₀, hid₀, _⟩ := hknown e he
      show e.id < d.nextEvent
      rw [← hid₀]
      exact h.below e₀ he₀
  · intro r hr e he hid
    apply d.decide_marks P T judged freshSeconds he ?_ h.nodup
    rcases List.mem_append.mp hr with hold | hnew'
    · left
      have hin : e.id ∈ (d.decide P T judged freshSeconds).events.map Event.id :=
        List.mem_map_of_mem he
      rw [hids] at hin
      obtain ⟨e₀, he₀, hid₀⟩ := List.mem_map.mp hin
      exact ⟨e₀, he₀, hid₀, h.marked r hold e₀ he₀ (hid₀.trans hid)⟩
    · right
      obtain ⟨e₁, he₁, rfl⟩ := List.mem_map.mp hnew'
      rw [hid]
      exact List.mem_map_of_mem he₁
  · show Booked (Ledger.countAll d.clock before (before.longEvents d.clock) s.ledger.hours) _
    rw [Ledger.countAll_eq s]
    exact h.booked.foldl _

/-! ### A clock that is not set back -/

namespace Ledger

theorem hourOf_spec (ts : ℚ) :
    (hourOf ts : ℚ) ≤ ts ∧ ts < hourOf ts + 3600 ∧ (3600 : ℤ) ∣ hourOf ts := by
  have hle := Int.floor_le (ts / 3600)
  have hlt := Int.lt_floor_add_one (ts / 3600)
  rw [le_div_iff₀ (by norm_num)] at hle
  rw [div_lt_iff₀ (by norm_num)] at hlt
  refine ⟨?_, ?_, Dvd.intro_left _ rfl⟩
  · rw [hourOf]
    push_cast
    exact hle
  · rw [hourOf]
    push_cast
    linarith

/-- Between two places in a sorted list of hours there is at least an hour for each place. -/
theorem hours_apart {ks : List ℤ} (hsorted : ks.Pairwise (· ≤ ·)) (hnodup : ks.Nodup)
    (hhours : ∀ k ∈ ks, (3600 : ℤ) ∣ k) {i : ℕ} (gap : ℕ) (h : i + gap < ks.length) :
    ks[i] + 3600 * gap ≤ ks[i + gap] := by
  induction gap with
  | zero => simp
  | succ gap ih =>
    have hstep := ih (by omega)
    have hle : ks[i + gap] ≤ ks[i + gap + 1] :=
      List.pairwise_iff_getElem.mp hsorted _ _ _ h (Nat.lt_succ_self _)
    have hne : ks[i + gap] ≠ ks[i + gap + 1] := by
      intro heq
      have hsame := (hnodup.getElem_inj_iff).mp heq
      omega
    obtain ⟨a, ha⟩ := hhours _ (List.getElem_mem (l := ks) (n := i + gap) (by omega))
    obtain ⟨b, hb⟩ := hhours _ (List.getElem_mem (l := ks) (n := i + gap + 1) h)
    have hlt : ks[i + gap] < ks[i + gap + 1] := lt_of_le_of_ne hle hne
    show ks[i] + 3600 * ((gap + 1 : ℕ) : ℤ) ≤ ks[i + gap + 1]
    rw [ha, hb] at hlt
    push_cast
    omega

/-- An hour that is dropped is older than all that stay, so it is more than two days old. -/
theorem le_of_dropped {hours : OrderedDict ℤ Hour} {now : ℚ}
    (hpast : ∀ k ∈ hours.keys, (3600 : ℤ) ∣ k ∧ (k : ℚ) ≤ now) {k : ℤ} (hk : k ∈ hours.keys)
    (hdropped : k ∉ (prune hours).keys) : (k : ℚ) + 172800 ≤ now := by
  rw [keys_prune] at hdropped
  split_ifs at hdropped with hmany
  · rw [List.mem_filter, not_and, Bool.not_eq_true', Bool.not_eq_false,
      List.contains_iff_mem] at hdropped
    have hstale := hdropped hk
    set sorted := hours.keys.insertionSort (· ≤ ·) with hsorted
    have hperm : sorted.Perm hours.keys := List.perm_insertionSort _ _
    obtain ⟨i, hi, hget⟩ := List.mem_iff_getElem.mp hstale
    rw [List.getElem_take] at hget
    rw [List.length_take, hperm.length_eq] at hi
    have hplace : i + 192 < sorted.length := by
      have hdays : historyHours = 192 := rfl
      rw [hperm.length_eq]
      omega
    have hapart := hours_apart (List.pairwise_insertionSort (· ≤ ·) hours.keys)
      (hperm.nodup_iff.mpr hours.nodup) (fun k hk => (hpast k (hperm.mem_iff.mp hk)).1) 192 hplace
    have hlast := (hpast _ (hperm.mem_iff.mp (List.getElem_mem hplace))).2
    have hcast : (k : ℚ) + 3600 * 192 ≤ ((sorted[i + 192] : ℤ) : ℚ) := by
      rw [← hget]
      exact_mod_cast hapart
    linarith
  · exact absurd hk hdropped

end Ledger

/-- While the clock is not set back: the kept hours have the counters of all messages of that
hour, and the hours that were dropped are days old. -/
structure Opened (now : ℚ) (hours : OrderedDict ℤ Hour) (settled : List Settlement) : Prop where
  counts : ∀ k hour, hours.get? k = some hour →
    hour.Counts (settled.filter (fun r => r.hour = k))
  gone : ∀ r ∈ settled, r.hour ∈ hours.keys ∨ (r.hour : ℚ) + 172800 ≤ now
  past : ∀ k ∈ hours.keys, (3600 : ℤ) ∣ k ∧ (k : ℚ) ≤ now

variable {now : ℚ}

theorem Opened.later {now' : ℚ}
    (h : Opened now hours settled) (hle : now ≤ now') : Opened now' hours settled where
  counts := h.counts
  gone := fun r hr => (h.gone r hr).imp id (fun hold => hold.trans hle)
  past := fun k hk => ⟨(h.past k hk).1, (h.past k hk).2.trans hle⟩

/-- **One more message of the last day.** -/
theorem Opened.book
    (h : Opened now hours settled) {r : Settlement} (hday : now - 86400 ≤ r.event.ts)
    (hpast : r.event.ts ≤ now) : Opened now (Ledger.book hours r) (settled ++ [r]) := by
  obtain ⟨hle, hlt, hdvd⟩ := Ledger.hourOf_spec r.event.ts
  have hkeys := OrderedDict.keys_set hours r.hour
    (Ledger.countOutcome r.outcome r.event ((hours.get? r.hour).getD {}))
  set counted := hours.set r.hour
    (Ledger.countOutcome r.outcome r.event ((hours.get? r.hour).getD {})) with hcounted
  have hcountedPast : ∀ k ∈ counted.keys, (3600 : ℤ) ∣ k ∧ (k : ℚ) ≤ now := by
    intro k hk
    rw [hkeys] at hk
    split_ifs at hk
    · exact h.past k hk
    · rcases List.mem_append.mp hk with hold | hnew
      · exact h.past k hold
      · rw [List.mem_singleton.mp hnew]
        exact ⟨hdvd, hle.trans hpast⟩
  have hkept : ∀ k ∈ counted.keys, k ∈ (Ledger.book hours r).keys ∨ (k : ℚ) + 172800 ≤ now := by
    intro k hk
    by_cases hin : k ∈ (Ledger.book hours r).keys
    · exact Or.inl hin
    · right
      rw [Ledger.book] at hin
      split_ifs at hin
      · exact Ledger.le_of_dropped hcountedPast hk hin
      · exact absurd hk hin
  have hgrow : ∀ k, k ∈ hours.keys ∨ k = r.hour → k ∈ counted.keys := by
    intro k hk
    exact OrderedDict.mem_keys_set hours _ hk.symm
  refine ⟨?_, ?_, ?_⟩
  · intro k hour hget
    have hbook := Ledger.get?_book hget
    rw [List.filter_append]
    by_cases hk : k = r.hour
    · rw [if_pos hk] at hbook
      subst hk
      rw [hbook, List.filter_cons_of_pos (by simp), List.filter_nil]
      cases hold : hours.get? r.hour with
      | some old => exact (h.counts _ _ hold).next r
      | none =>
        -- no message of this hour settled before, or the hour would be days old
        have hnone : settled.filter (fun r' => r'.hour = r.hour) = [] := by
          rw [List.filter_eq_nil_iff]
          intro r' hr' heq
          have heq := of_decide_eq_true heq
          rcases h.gone r' hr' with hin | hgone
          · rw [heq] at hin
            exact OrderedDict.get?_eq_none_iff.mp hold hin
          · rw [heq] at hgone
            have hlt' : r.event.ts < (r.hour : ℚ) + 3600 := hlt
            linarith
        rw [hnone]
        exact Hour.counts_empty.next r
    · rw [if_neg hk] at hbook
      rw [List.filter_cons_of_neg (by simpa using fun heq => hk heq.symm), List.filter_nil,
        List.append_nil]
      exact h.counts _ _ hbook
  · intro r' hr'
    rcases List.mem_append.mp hr' with hold | hnew
    · rcases h.gone r' hold with hin | hgone
      · exact hkept _ (hgrow _ (Or.inl hin))
      · exact Or.inr hgone
    · rw [List.mem_singleton.mp hnew]
      exact hkept _ (hgrow _ (Or.inr rfl))
  · intro k hk
    apply hcountedPast
    rw [Ledger.book] at hk
    split_ifs at hk
    · rw [Ledger.keys_prune] at hk
      split_ifs at hk
      · exact (List.mem_filter.mp hk).1
      · exact hk
    · exact hk

theorem Opened.foldl
    (h : Opened now hours settled) {more : List Settlement}
    (hmore : ∀ r ∈ more, now - 86400 ≤ r.event.ts ∧ r.event.ts ≤ now) :
    Opened now (more.foldl Ledger.book hours) (settled ++ more) := by
  induction more generalizing hours settled with
  | nil =>
    rw [List.append_nil]
    exact h
  | cons r more ih =>
    obtain ⟨hday, hpast⟩ := hmore r List.mem_cons_self
    have hrest := ih (h.book hday hpast) (fun r' hr' => hmore r' (List.mem_cons_of_mem _ hr'))
    rw [List.append_assoc] at hrest
    exact hrest

/-! ### The numbers of a run -/

variable {P : Primitives} {T : TextTools} {config : SpamConfig}

theorem settledSoFar_concat (h : List AccountEvent) (ev : AccountEvent) :
    settledSoFar P T (h ++ [ev]) = settledSoFar P T h ++ settledIn P T ev := by
  rw [settledSoFar, List.flatMap_append, List.flatMap_cons, List.flatMap_nil, List.append_nil]
  rfl

/-- **One call**: what it settles joins what settled before, and is its result. -/
theorem Told.step {s' : Accounts} {op : AccountOp}
    (hstep : AccountStep P T s op s') (h : Told config settled s) :
    Told config (settled ++ settledIn P T ⟨s, op, s'⟩) s' ∧
      s'.result = (settledIn P T ⟨s, op, s'⟩).filterMap Settlement.report := by
  cases op with
  | ingest now m messageId =>
    obtain rfl := Option.some.inj hstep
    show Told config (settled ++ []) _ ∧ _
    rw [List.append_nil]
    exact ⟨(h.at_ now).ingest T m messageId, rfl⟩
  | decide now judged freshSeconds =>
    obtain rfl := Option.some.inj hstep
    refine ⟨(h.at_ now).decide P T judged freshSeconds, ?_⟩
    show (s.at_ now).settleAll _ _ _ (s.at_ now).settled = _
    rw [Accounts.settleAll_eq, (h.at_ now).waiting]
    rfl
  | mark id enforced =>
    obtain rfl := Option.some.inj hstep
    show Told config (settled ++ []) _ ∧ _
    rw [List.append_nil]
    exact ⟨⟨h.config, h.nodup, h.below, h.once, h.settledBelow, h.marked, h.waiting, h.booked⟩,
      rfl⟩

/-- The hours after a call whose clock is not behind. -/
theorem Opened.step {pre s' : Accounts} {op : AccountOp}
    (hstep : AccountStep P T pre op s') (htold : Told config settled pre)
    (hday : config.tunables.longWindowSeconds ≤ 86400)
    (hclock : pre.ledger.detector.clock ≤ s'.ledger.detector.clock)
    (h : Opened pre.ledger.detector.clock pre.ledger.hours settled) :
    Opened s'.ledger.detector.clock s'.ledger.hours
      (settled ++ settledIn P T ⟨pre, op, s'⟩) := by
  have hlater := h.later hclock
  cases op with
  | ingest now m messageId | mark id enforced =>
    obtain rfl := Option.some.inj hstep
    show Opened _ _ (settled ++ [])
    rw [List.append_nil]
    exact hlater
  | decide now judged freshSeconds =>
    obtain rfl := Option.some.inj hstep
    set s := pre.at_ now with hs
    set before := s.ledger.detector.beforeSettle P T judged freshSeconds with hbefore
    have hnow : (s.decide P T judged freshSeconds).ledger.detector.clock = now :=
      (s.ledger.detector.decide_rest P T judged freshSeconds).2.2
    have hconfig : before.config = config :=
      (Detector.SameMessages.beforeSettle s.ledger.detector P T judged freshSeconds).config.trans
        htold.config
    show Opened _ (Ledger.countAll now before (before.longEvents now) pre.ledger.hours) _
    rw [Ledger.countAll_eq s, hnow]
    have hlater' : Opened now pre.ledger.hours settled := by
      rw [← hnow]
      exact hlater
    apply hlater'.foldl
    intro r hr
    obtain ⟨e, he, rfl⟩ := List.mem_map.mp hr
    obtain ⟨hlong, hsettles⟩ := List.mem_filter.mp he
    have hrecent := of_decide_eq_true (List.mem_filter.mp hlong).2
    unfold Ledger.settles at hsettles
    rw [Bool.not_eq_true', Bool.or_eq_false_iff, decide_eq_false_iff_not, not_lt] at hsettles
    have hold : (120 : ℚ) ≤ now - e.ts := hsettles.2
    have hwindow : ((before.tunables.longWindowSeconds : ℕ) : ℚ) ≤ 86400 := by
      rw [Detector.tunables, hconfig]
      exact_mod_cast hday
    refine ⟨?_, ?_⟩
    · show now - 86400 ≤ e.ts
      unfold Detector.longStart at hrecent
      linarith
    · show e.ts ≤ now
      linarith

/-- **Hourly numbers add up.** A message settles at most once and is reported in the result of
the call that settles it. A kept hour has the counters of the messages of that hour that
settled since it was opened, which are all of them while the clock is not set back. -/
theorem hourly_numbers {now : ℚ} {h : List AccountEvent} {s : Accounts}
    (hrun : Run (AccountStep P T) (Accounts.start config now) h s) :
    ((settledSoFar P T h).map (fun r => r.event.id)).Nodup ∧
      (∀ ev ∈ h, ev.post.result = (settledIn P T ev).filterMap Settlement.report) ∧
      (∀ k hour, s.ledger.hours.get? k = some hour → ∃ n ≤ (settledSoFar P T h).length,
        k ∉ keptHours ((settledSoFar P T h).take n) ∧
          hour.Counts (((settledSoFar P T h).drop n).filter (fun r => r.hour = k))) ∧
      (config.tunables.longWindowSeconds ≤ 86400 →
        (∀ ev ∈ h, ev.pre.ledger.detector.clock ≤ ev.post.ledger.detector.clock) →
        ∀ k hour, s.ledger.hours.get? k = some hour →
          hour.Counts ((settledSoFar P T h).filter (fun r => r.hour = k))) := by
  have htold : Told config (settledSoFar P T h) s ∧
      ∀ ev ∈ h, ev.post.result = (settledIn P T ev).filterMap Settlement.report := by
    refine hrun.history (P := fun h s => Told config (settledSoFar P T h) s ∧
      ∀ ev ∈ h, ev.post.result = (settledIn P T ev).filterMap Settlement.report)
      (C := fun _ => True) (fun _ _ => trivial) ⟨Told.start config now, ?_⟩ ?_
    · exact fun ev hev => absurd hev List.not_mem_nil
    · intro h ev hstep _ hsofar
      obtain ⟨hnext, hresult⟩ := hsofar.1.step hstep
      rw [settledSoFar_concat]
      refine ⟨hnext, ?_⟩
      intro ev' hev'
      rcases List.mem_append.mp hev' with hold | hnew
      · exact hsofar.2 ev' hold
      · rw [List.mem_singleton.mp hnew]
        exact hresult
  refine ⟨htold.1.once, htold.2, htold.1.booked.counts, ?_⟩
  intro hday hclock
  have hopened : Told config (settledSoFar P T h) s ∧
      Opened s.ledger.detector.clock s.ledger.hours (settledSoFar P T h) := by
    refine hrun.history (P := fun h s => Told config (settledSoFar P T h) s ∧
      Opened s.ledger.detector.clock s.ledger.hours (settledSoFar P T h))
      (C := fun ev => ev.pre.ledger.detector.clock ≤ ev.post.ledger.detector.clock) hclock
      ⟨Told.start config now, ?_⟩ ?_
    · exact ⟨fun _ _ hget => absurd hget (by simp [Accounts.start, Ledger.start,
          OrderedDict.get?, OrderedDict.empty]),
        fun _ hr => absurd hr List.not_mem_nil, fun _ hk => absurd hk List.not_mem_nil⟩
    · intro h ev hstep hnotBack hsofar
      rw [settledSoFar_concat]
      exact ⟨(hsofar.1.step hstep).1, hsofar.2.step hstep hsofar.1 hday hnotBack⟩
  exact hopened.2.counts

/-! ### Two runs -/

/-- Spam by the name of its sender, in some hour. -/
def hourlySpam (i : ℕ) : Detector.Message where
  ts := 3600 * i
  path := []
  sender := ""
  text := ""
  channel := ""
  nameScore := some 9
  nameDisguised := some false

/-- A stored message, and the call in which it settles. -/
def oneSpamOps : List AccountOp :=
  [.ingest 0 (hourlySpam 0) (some 7), .decide 200 none 0]

theorem hourly_numbers_one :
    ∃ h s, Run (AccountStep (fixedPrimitives []) plainTools) (Accounts.start {} 0) h s ∧
      h.map Lib.Event.label = oneSpamOps ∧ s.result = [⟨7, .letThrough, none, false⟩] ∧
      ∀ k hour, s.ledger.hours.get? k = some hour →
        hour.Counts ((settledSoFar (fixedPrimitives []) plainTools h).filter
          (fun r => r.hour = k)) := by
  obtain ⟨h, s, hrun, hlabels, hchecked⟩ := Run.exists_of_trace
    (AccountOp.apply (fixedPrimitives []) plainTools) (Accounts.start {} 0) oneSpamOps
    (fun r => decide (r.2.result = [⟨7, .letThrough, none, false⟩]) && r.1.all (fun ev =>
      decide (ev.pre.ledger.detector.clock ≤ ev.post.ledger.detector.clock)))
    (by decide +kernel)
  rw [Bool.and_eq_true] at hchecked
  refine ⟨h, s, hrun, hlabels, of_decide_eq_true hchecked.1, ?_⟩
  exact (hourly_numbers hrun).2.2.2 (by decide)
    (fun ev hev => of_decide_eq_true (List.all_eq_true.mp hchecked.2 ev hev))

/-- Every pass is switched off, with the longest window that can be set. -/
def dayLongConfig : SpamConfig where
  tunables :=
    { enableHopRules := false
      enableRotationGuard := false
      autoLockdown := false
      enableTextRules := false
      dedupeEnabled := false
      repeatGuard := false
      holdLinks := .off
      longWindowSeconds := 86400 }

/-- The messages of one day, and a call at its end. -/
def spamDay (day : ℕ) : List AccountOp :=
  (List.range 24).map (fun i => .ingest (3600 * (24 * day + i : ℕ)) (hourlySpam (24 * day + i)) none)
    ++ [.decide (3600 * (24 * day + 23 : ℕ) + 200) none 0]

/-- Nine days, then the clock is back at its start for one more message. -/
def clockSetBackOps : List AccountOp :=
  (List.range 9).flatMap spamDay ++ [.ingest 0 (hourlySpam 0) none, .decide 200 none 0]

/-- After nine days the first hour is dropped, and it opens again when the clock is set back:
one message in it is counted, and two settled. -/
theorem not_forall_hour_complete :
    ¬ ∀ (P : Primitives) (T : TextTools) (config : SpamConfig) (now : ℚ) (h : List AccountEvent)
      (s : Accounts), config.tunables.longWindowSeconds ≤ 86400 →
      Run (AccountStep P T) (Accounts.start config now) h s →
      ∀ k hour, s.ledger.hours.get? k = some hour →
        hour.messages = ((settledSoFar P T h).filter (fun r => r.hour = k)).length := by
  intro hall
  obtain ⟨h, s, hrun, _, hchecked⟩ := Run.exists_of_trace
    (AccountOp.apply (fixedPrimitives []) plainTools) (Accounts.start dayLongConfig 0)
    clockSetBackOps
    (fun r => (r.2.ledger.hours.get? 0).any (fun hour => hour.messages = 1) &&
      decide (((settledSoFar (fixedPrimitives []) plainTools r.1).filter
        (fun r => r.hour = 0)).length = 2))
    (by decide +kernel)
  rw [Bool.and_eq_true] at hchecked
  cases hget : s.ledger.hours.get? 0 with
  | none =>
    rw [hget] at hchecked
    exact Bool.false_ne_true hchecked.1
  | some hour =>
    rw [hget] at hchecked
    have hone : hour.messages = 1 := of_decide_eq_true hchecked.1
    have hsame := hall _ _ _ _ h s (by decide) hrun 0 hour hget
    rw [hone, of_decide_eq_true hchecked.2] at hsame
    exact absurd hsame (by decide)

end RtfmEv.Spam
