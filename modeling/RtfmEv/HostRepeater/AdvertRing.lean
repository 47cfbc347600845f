import RtfmEv.HostRepeater.Filter
import RtfmEv.Lib.Run

/-!
# The advert window over its calls

The ring holds each key once. An entry stays where it was put: a later pass of the same key starts
its time anew but not its turn in the ring, so the room up to its end counts from the call that
put it in.
-/

namespace RtfmEv.HostRepeater

open RtfmEv.Lib

namespace AdvertOriginWindow

/-- The key that an entry is kept under. -/
def shortKey (key : Bytes) : Bytes := key.take dmcAdvertKeyLen

/-- Keys listed once, and a head that moves only in a full ring. -/
structure RingOk (hours : ℕ) (w : AdvertOriginWindow) : Prop where
  hours : w.hours = hours
  nodup : (w.ring.map Prod.fst).Nodup
  length_le : w.ring.length ≤ dmcAdvertCacheSize
  head_lt : w.head < dmcAdvertCacheSize
  head_eq : w.ring.length < dmcAdvertCacheSize → w.head = 0

/-- The key has no entry. -/
def Absent (w : AdvertOriginWindow) (key : Bytes) : Prop := ∀ e ∈ w.ring, e.1 ≠ shortKey key

instance (w : AdvertOriginWindow) (key : Bytes) : Decidable (w.Absent key) :=
  inferInstanceAs (Decidable (∀ e ∈ w.ring, _))

/-- **What one call does.** A known key is refused, or passes in place; a new one is put behind
the others, or over the entry at the head. -/
inductive Allows (w : AdvertOriginWindow) (key : Bytes) (now : ℚ) :
    AdvertOriginWindow → Bool → Prop
  | refuse (i : ℕ) (seen : ℚ) : w.ring[i]? = some (shortKey key, seen) →
      now - seen < w.hours * 3600 → Allows w key now w false
  | refresh (i : ℕ) (seen : ℚ) : w.ring[i]? = some (shortKey key, seen) →
      w.hours * 3600 ≤ now - seen →
      Allows w key now { w with ring := w.ring.set i (shortKey key, now) } true
  | append : w.Absent key → w.ring.length < dmcAdvertCacheSize →
      Allows w key now { w with ring := w.ring ++ [(shortKey key, now)] } true
  | overwrite : w.Absent key → dmcAdvertCacheSize ≤ w.ring.length →
      Allows w key now { w with ring := w.ring.set w.head (shortKey key, now)
                                head := (w.head + 1) % dmcAdvertCacheSize } true

variable {w : AdvertOriginWindow} {hours : ℕ} {key : Bytes} {w' : AdvertOriginWindow}
  {answer : Bool} {now : ℚ} {p : ℕ}

theorem allow_cases (h : 0 < w.hours) (key : Bytes) (now : ℚ) :
    Allows w key now (w.allow key now).1 (w.allow key now).2 := by
  unfold allow
  rw [if_neg h.ne']
  dsimp only
  cases hfind : w.ring.findIdx? (fun e => e.1 = key.take dmcAdvertKeyLen) with
  | none =>
    have habsent : w.Absent key := by
      intro e he heq
      have := List.findIdx?_eq_none_iff.mp hfind e he
      rw [decide_eq_false_iff_not] at this
      exact this heq
    dsimp only
    split_ifs with hroom
    · exact Allows.append habsent hroom
    · exact Allows.overwrite habsent (not_lt.mp hroom)
  | some i =>
    obtain ⟨hi, hkey, -⟩ := List.findIdx?_eq_some_iff_getElem.mp hfind
    have hentry : w.ring[i]? = some (shortKey key, w.ring[i].2) := by
      rw [List.getElem?_eq_getElem hi]
      exact congrArg some (Prod.ext (of_decide_eq_true hkey) rfl)
    dsimp only
    rw [hentry]
    split_ifs with hwindow
    · exact Allows.refuse i _ hentry hwindow
    · exact Allows.refresh i _ hentry (not_lt.mp hwindow)

theorem ringOk_new : RingOk hours { hours } :=
  ⟨rfl, List.nodup_nil, Nat.zero_le _, Nat.zero_lt_succ _, fun _ => rfl⟩

theorem map_fst_set_same {ring : List (Bytes × ℚ)} {i : ℕ} {seen : ℚ} (now : ℚ)
    (h : ring[i]? = some (key, seen)) :
    (ring.set i (key, now)).map Prod.fst = ring.map Prod.fst := by
  rw [List.map_set]
  refine List.ext_getElem? (fun j => ?_)
  rw [List.getElem?_set]
  split_ifs with hij hlt
  · rw [← hij, List.getElem?_map, h]
    rfl
  · rw [List.length_map] at hlt
    rw [← hij, List.getElem?_map, List.getElem?_eq_none (not_lt.mp hlt)]
    rfl
  · rfl

/-- **The ring keeps its shape.** -/
theorem RingOk.allows
    (h : RingOk hours w) (hcall : Allows w key now w' answer) : RingOk hours w' := by
  cases hcall with
  | refuse i seen hentry hwindow => exact h
  | refresh i seen hentry hwindow =>
    refine ⟨h.hours, ?_, ?_, h.head_lt, ?_⟩
    · show ((w.ring.set i (shortKey key, now)).map Prod.fst).Nodup
      rw [map_fst_set_same now hentry]
      exact h.nodup
    · show (w.ring.set i (shortKey key, now)).length ≤ dmcAdvertCacheSize
      rw [List.length_set]
      exact h.length_le
    · show (w.ring.set i (shortKey key, now)).length < dmcAdvertCacheSize → w.head = 0
      rw [List.length_set]
      exact h.head_eq
  | append habsent hroom =>
    refine ⟨h.hours, ?_, ?_, h.head_lt, fun _ => h.head_eq hroom⟩
    · show ((w.ring ++ [(shortKey key, now)]).map Prod.fst).Nodup
      rw [List.map_append, List.map_singleton, List.nodup_append]
      refine ⟨h.nodup, List.nodup_singleton _, ?_⟩
      intro k hk k' hk'
      obtain ⟨e, he, rfl⟩ := List.mem_map.mp hk
      rw [List.mem_singleton.mp hk']
      exact habsent e he
    · show (w.ring ++ [(shortKey key, now)]).length ≤ dmcAdvertCacheSize
      rw [List.length_append]
      exact hroom
  | overwrite habsent hfull =>
    refine ⟨h.hours, ?_, ?_, Nat.mod_lt _ (by decide), ?_⟩
    · show ((w.ring.set w.head (shortKey key, now)).map Prod.fst).Nodup
      rw [List.map_set]
      refine h.nodup.set ?_
      intro hmem
      obtain ⟨e, he, heq⟩ := List.mem_map.mp hmem
      exact habsent e he heq
    · show (w.ring.set w.head (shortKey key, now)).length ≤ dmcAdvertCacheSize
      rw [List.length_set]
      exact h.length_le
    · show (w.ring.set w.head (shortKey key, now)).length < dmcAdvertCacheSize → _
      rw [List.length_set]
      intro hlt
      exact absurd hlt (not_lt.mpr hfull)

/-! ### The turn of an entry -/

/-- Insertions of other keys up to the one that goes over the entry at `p`. -/
def turn (w : AdvertOriginWindow) (p : ℕ) : ℕ :=
  dmcAdvertCacheSize - w.ring.length + (p + dmcAdvertCacheSize - w.head) % dmcAdvertCacheSize + 1

/-- The key sits at `p`. -/
def At (w : AdvertOriginWindow) (key : Bytes) (p : ℕ) : Prop :=
  ∃ seen, w.ring[p]? = some (shortKey key, seen)

theorem At.lt (h : w.At key p) :
    p < w.ring.length := by
  obtain ⟨seen, hseen⟩ := h
  exact (List.getElem?_eq_some_iff.mp hseen).1

theorem At.not_absent (h : w.At key p) :
    ¬ w.Absent key := by
  obtain ⟨seen, hseen⟩ := h
  exact fun habsent => habsent _ (List.mem_of_getElem? hseen) rfl

theorem exists_at (h : ¬ w.Absent key) :
    ∃ p, w.At key p := by
  unfold Absent at h
  push Not at h
  obtain ⟨e, he, hkey⟩ := h
  obtain ⟨p, hp⟩ := List.mem_iff_getElem?.mp he
  exact ⟨p, e.2, by rw [hp, ← hkey]⟩

/-- A new entry has a whole round before it. -/
theorem RingOk.turn_new
    (h : RingOk hours w) (hcall : Allows w key now w' answer) (habsent : w.Absent key) :
    ∃ p, w'.At key p ∧ turn w' p = dmcAdvertCacheSize := by
  cases hcall with
  | refuse i seen hentry hwindow
  | refresh i seen hentry hwindow => exact absurd habsent (At.not_absent ⟨seen, hentry⟩)
  | append _ hroom =>
    refine ⟨w.ring.length, ⟨now, List.getElem?_concat_length⟩, ?_⟩
    have hhead := h.head_eq hroom
    unfold turn
    show dmcAdvertCacheSize - (w.ring ++ [(shortKey key, now)]).length +
      (w.ring.length + dmcAdvertCacheSize - w.head) % dmcAdvertCacheSize + 1 = _
    rw [List.length_append, List.length_singleton, hhead]
    unfold dmcAdvertCacheSize at hroom ⊢
    omega
  | overwrite _ hfull =>
    have hhead := h.head_lt
    have hlen := le_antisymm h.length_le hfull
    refine ⟨w.head, ⟨now, ?_⟩, ?_⟩
    · show (w.ring.set w.head (shortKey key, now))[w.head]? = some (shortKey key, now)
      rw [List.getElem?_set_self (by omega)]
    · unfold turn
      show dmcAdvertCacheSize - (w.ring.set w.head (shortKey key, now)).length +
        (w.head + dmcAdvertCacheSize - (w.head + 1) % dmcAdvertCacheSize) % dmcAdvertCacheSize
          + 1 = _
      rw [List.length_set, hlen]
      unfold dmcAdvertCacheSize at hhead ⊢
      omega

/-- **An entry moves up only when another key is put in**, and its turn comes at one. -/
theorem RingOk.turn_allows {key' : Bytes} (h : RingOk hours w) (hat : w.At key p)
    (hcall : Allows w key' now w' answer) :
    (¬ w.Absent key' ∧ w'.At key p ∧ turn w' p = turn w p) ∨
      (w.Absent key' ∧ shortKey key' ≠ shortKey key ∧
        (turn w p = 1 ∨ w'.At key p ∧ turn w' p + 1 = turn w p)) := by
  have hp := hat.lt
  obtain ⟨seen, hseen⟩ := hat
  cases hcall with
  | refuse i seen' hentry hwindow =>
    exact Or.inl ⟨At.not_absent ⟨seen', hentry⟩, ⟨seen, hseen⟩, rfl⟩
  | refresh i seen' hentry hwindow =>
    refine Or.inl ⟨At.not_absent ⟨seen', hentry⟩, ?_, ?_⟩
    · by_cases hi : i = p
      · refine ⟨now, ?_⟩
        show (w.ring.set i (shortKey key', now))[p]? = some (shortKey key, now)
        have hsame : shortKey key' = shortKey key := by
          rw [hi, hseen] at hentry
          exact (Prod.mk.inj (Option.some.inj hentry)).1.symm
        rw [hi, List.getElem?_set_self hp, hsame]
      · refine ⟨seen, ?_⟩
        show (w.ring.set i (shortKey key', now))[p]? = some (shortKey key, seen)
        rw [List.getElem?_set_ne hi, hseen]
    · unfold turn
      show dmcAdvertCacheSize - (w.ring.set i (shortKey key', now)).length + _ + 1 = _
      rw [List.length_set]
  | append habsent hroom =>
    have hother : shortKey key' ≠ shortKey key :=
      fun heq => habsent _ (List.mem_of_getElem? hseen) heq.symm
    refine Or.inr ⟨habsent, hother, Or.inr ⟨⟨seen, ?_⟩, ?_⟩⟩
    · show (w.ring ++ [(shortKey key', now)])[p]? = some (shortKey key, seen)
      rw [List.getElem?_append_left hp, hseen]
    · unfold turn
      show dmcAdvertCacheSize - (w.ring ++ [(shortKey key', now)]).length +
        (p + dmcAdvertCacheSize - w.head) % dmcAdvertCacheSize + 1 + 1 = _
      rw [List.length_append, List.length_singleton]
      unfold dmcAdvertCacheSize at hroom ⊢
      omega
  | overwrite habsent hfull =>
    have hother : shortKey key' ≠ shortKey key :=
      fun heq => habsent _ (List.mem_of_getElem? hseen) heq.symm
    have hhead := h.head_lt
    have hlen := le_antisymm h.length_le hfull
    refine Or.inr ⟨habsent, hother, ?_⟩
    by_cases hturn : w.head = p
    · refine Or.inl ?_
      unfold turn
      rw [hlen, hturn]
      unfold dmcAdvertCacheSize at hhead ⊢
      omega
    · refine Or.inr ⟨⟨seen, ?_⟩, ?_⟩
      · show (w.ring.set w.head (shortKey key', now))[p]? = some (shortKey key, seen)
        rw [List.getElem?_set_ne hturn, hseen]
      · unfold turn
        show dmcAdvertCacheSize - (w.ring.set w.head (shortKey key', now)).length +
          (p + dmcAdvertCacheSize - (w.head + 1) % dmcAdvertCacheSize) % dmcAdvertCacheSize
            + 1 + 1 = _
        rw [List.length_set, hlen]
        rw [hlen] at hp
        unfold dmcAdvertCacheSize at hhead hp ⊢
        omega

/-! ### The time of an entry -/

/-- The key was last let through at `since` or later. -/
def SeenSince (w : AdvertOriginWindow) (key : Bytes) (since : ℚ) : Prop :=
  ∀ e ∈ w.ring, e.1 = shortKey key → since ≤ e.2

theorem SeenSince.allows {key' : Bytes} {since : ℚ} (h : w.SeenSince key since) (hnow : since ≤ now)
    (hcall : Allows w key' now w' answer) : w'.SeenSince key since := by
  have hset : ∀ i, ∀ e ∈ w.ring.set i (shortKey key', now), e.1 = shortKey key → since ≤ e.2 := by
    intro i e he hkey
    rcases List.mem_or_eq_of_mem_set he with he | he
    · exact h e he hkey
    · rw [he]
      exact hnow
  cases hcall with
  | refuse i seen hentry hwindow => exact h
  | refresh i seen hentry hwindow => exact hset i
  | append habsent hroom =>
    intro e he hkey
    rcases List.mem_append.mp he with he | he
    · exact h e he hkey
    · rw [List.mem_singleton.mp he]
      exact hnow
  | overwrite habsent hfull => exact hset w.head

theorem RingOk.seenSince
    (h : RingOk hours w) (hcall : Allows w key now w' true) : w'.SeenSince key now := by
  have habsent_since : w.Absent key → w.SeenSince key now :=
    fun habsent e he hkey => absurd hkey (habsent e he)
  generalize hanswer : true = answer at hcall
  cases hcall with
  | refuse i seen hentry hwindow => cases hanswer
  | refresh i seen hentry hwindow =>
    intro e he hkey
    obtain ⟨j, hj⟩ := List.mem_iff_getElem?.mp he
    have hj' : (w.ring.set i (shortKey key, now))[j]? = some e := hj
    by_cases hij : i = j
    · have hlt := (List.getElem?_eq_some_iff.mp hentry).1
      rw [← hij, List.getElem?_set_self hlt] at hj'
      rw [← Option.some.inj hj']
    · rw [List.getElem?_set_ne hij] at hj'
      have hkeys : (w.ring.map Prod.fst)[i]? = (w.ring.map Prod.fst)[j]? := by
        rw [List.getElem?_map, List.getElem?_map, hentry, hj']
        exact congrArg some hkey.symm
      have hlt : i < (w.ring.map Prod.fst).length := by
        rw [List.length_map]
        exact (List.getElem?_eq_some_iff.mp hentry).1
      exact absurd ((List.getElem?_inj hlt h.nodup).mp hkeys) hij
  | append habsent hroom =>
    exact (habsent_since habsent).allows le_rfl (@Allows.append _ key _ habsent hroom)
  | overwrite habsent hfull =>
    exact (habsent_since habsent).allows le_rfl (@Allows.overwrite _ key _ habsent hfull)

end AdvertOriginWindow

open AdvertOriginWindow

/-! ### Runs -/

abbrev RingEvent := Event (Timed ℚ AdvertOriginWindow) (ℚ × Bytes)

abbrev RingStep : Timed ℚ AdvertOriginWindow → ℚ × Bytes → Timed ℚ AdvertOriginWindow → Prop :=
  Ticks (fun w now key => (w.allow key now).1)

/-- The advert of the call is let through. -/
def Passes (e : RingEvent) : Prop := (e.pre.state.allow e.label.2 e.label.1).2 = true

/-- The call puts its key into the ring. -/
def PutsIn (key : Bytes) (e : RingEvent) : Prop :=
  shortKey e.label.2 = shortKey key ∧ e.pre.state.Absent e.label.2

/-- The call puts another key into the ring. -/
def putsInOther (key : Bytes) (e : RingEvent) : Bool :=
  Decidable.decide (shortKey e.label.2 ≠ shortKey key ∧ e.pre.state.Absent e.label.2)

variable {hours : ℕ} {calls : List RingEvent} {x s : Timed ℚ AdvertOriginWindow} {key : Bytes}

theorem ringStep_allows {e : RingEvent} (hhours : 0 < hours) (h : RingOk hours e.pre.state)
    (hstep : RingStep e.pre e.label e.post) :
    Allows e.pre.state e.label.2 e.label.1 e.post.state
      (e.pre.state.allow e.label.2 e.label.1).2 := by
  have hcall := allow_cases (h.hours.symm ▸ hhours : 0 < e.pre.state.hours) e.label.2 e.label.1
  rw [hstep.state_eq]
  exact hcall

theorem ringOk_of_run
    (hhours : 0 < hours) (hrun : Run RingStep s calls x) (h : RingOk hours s.state) :
    RingOk hours x.state :=
  hrun.invariant (P := fun x => RingOk hours x.state) (C := fun _ => True) (fun _ _ => trivial)
    (fun _ hstep _ hpre => hpre.allows (ringStep_allows hhours hpre hstep)) h

/-- **The turn over a run.** From the call that put a key in, its entry is there until as many
other keys as the ring holds were put in. -/
theorem kept_of_run
    {p : ℕ} (hhours : 0 < hours) (hrun : Run RingStep s calls x) (h : RingOk hours s.state)
    (hat : s.state.At key p) (hturn : turn s.state p = dmcAdvertCacheSize) :
    dmcAdvertCacheSize ≤ calls.countP (putsInOther key) ∨ x.state.At key p ∧
      calls.countP (putsInOther key) + turn x.state p = dmcAdvertCacheSize := by
  have hall : RingOk hours x.state ∧
      (dmcAdvertCacheSize ≤ calls.countP (putsInOther key) ∨ x.state.At key p ∧
        calls.countP (putsInOther key) + turn x.state p = dmcAdvertCacheSize) := by
    refine hrun.history (P := fun calls x => RingOk hours x.state ∧
      (dmcAdvertCacheSize ≤ calls.countP (putsInOther key) ∨ x.state.At key p ∧
        calls.countP (putsInOther key) + turn x.state p = dmcAdvertCacheSize))
      (C := fun _ => True) (fun _ _ => trivial) ⟨h, Or.inr ⟨hat, ?_⟩⟩ ?_
    · rw [List.countP_nil, zero_add]
      exact hturn
    · intro calls e hstep _ ⟨hpre, hkept⟩
      have hcall := ringStep_allows hhours hpre hstep
      refine ⟨hpre.allows hcall, ?_⟩
      rw [List.countP_append, List.countP_singleton]
      rcases hkept with hover | ⟨hat', hcount⟩
      · exact Or.inl (hover.trans (Nat.le_add_right _ _))
      · rcases hpre.turn_allows hat' hcall with ⟨hknown, hstay, hsame⟩ | ⟨habsent, hother, hmoved⟩
        · have hnot : putsInOther key e = false := decide_eq_false (fun h => hknown h.2)
          rw [hnot, hsame]
          exact Or.inr ⟨hstay, hcount⟩
        · have hyes : putsInOther key e = true := decide_eq_true ⟨hother, habsent⟩
          rw [hyes, if_pos rfl]
          rcases hmoved with hlast | ⟨hstay, hnext⟩
          · exact Or.inl (by omega)
          · exact Or.inr ⟨hstay, by omega⟩
  exact hall.2

/-- A key that is in the ring was put in, and not again since. -/
theorem exists_putsIn {start : ℚ} (hhours : 0 < hours)
    (hrun : Run RingStep ⟨start, { hours }⟩ calls x)
    (hin : ¬ x.state.Absent key) :
    ∃ b₁ e₀ b₂, calls = b₁ ++ e₀ :: b₂ ∧ PutsIn key e₀ ∧ ∀ e ∈ b₂, ¬ PutsIn key e := by
  induction hrun with
  | nil => exact absurd (fun e he => absurd he List.not_mem_nil) hin
  | @snoc t u l calls hrun hstep ih =>
    have hok := ringOk_of_run hhours hrun ringOk_new
    have hcall : Allows t.state l.2 l.1 u.state (t.state.allow l.2 l.1).2 :=
      ringStep_allows (e := ⟨t, l, u⟩) hhours hok hstep
    by_cases hputs : PutsIn key ⟨t, l, u⟩
    · exact ⟨calls, ⟨t, l, u⟩, [], rfl, hputs, fun e he => absurd he List.not_mem_nil⟩
    · -- the entry was there before this call
      have hbefore : ¬ t.state.Absent key := by
        intro habsent
        refine hin (fun e he hkey => ?_)
        have hfresh : ∀ now, e = (shortKey l.2, now) → t.state.Absent l.2 → False :=
          fun now heq habs => hputs ⟨by rw [← hkey, heq], habs⟩
        generalize u.state = w at hcall he
        generalize (t.state.allow l.2 l.1).2 = answer at hcall
        cases hcall with
        | refuse i seen hentry hwindow => exact habsent e he hkey
        | refresh i seen hentry hwindow =>
          rcases List.mem_or_eq_of_mem_set he with he | he
          · exact habsent e he hkey
          · refine habsent _ (List.mem_of_getElem? hentry) ?_
            rw [← hkey, he]
        | append habs hroom =>
          rcases List.mem_append.mp he with he | he
          · exact habsent e he hkey
          · exact hfresh _ (List.mem_singleton.mp he) habs
        | overwrite habs hfull =>
          rcases List.mem_or_eq_of_mem_set he with he | he
          · exact habsent e he hkey
          · exact hfresh _ he habs
      obtain ⟨b₁, e₀, b₂, rfl, hputs₀, hlast⟩ := ih hbefore
      refine ⟨b₁, e₀, b₂ ++ [⟨t, l, u⟩], by rw [List.append_assoc]; rfl, hputs₀, fun e he => ?_⟩
      rcases List.mem_append.mp he with he | he
      · exact hlast e he
      · rw [List.mem_singleton.mp he]
        exact hputs

theorem seenSince_of_run (hhours : 0 < hours) (hrun : Run RingStep s calls x)
    (h : RingOk hours s.state)
    (hseen : s.state.SeenSince key s.clock) : x.state.SeenSince key s.clock := by
  have hall : RingOk hours x.state ∧ s.clock ≤ x.clock ∧ x.state.SeenSince key s.clock := by
    refine hrun.invariant (P := fun x => RingOk hours x.state ∧ s.clock ≤ x.clock ∧
      x.state.SeenSince key s.clock) (C := fun _ => True) (fun _ _ => trivial)
      (fun e hstep _ hpre => ?_) ⟨h, le_rfl, hseen⟩
    have hcall := ringStep_allows hhours hpre.1 hstep
    have hnow := hpre.2.1.trans hstep.1
    exact ⟨hpre.1.allows hcall, hnow.trans_eq hstep.clock_eq.symm, hpre.2.2.allows hnow hcall⟩
  exact hall.2.2

/-- **The advert window over any run of calls.** The ring is a table of at most 256 keys, and a
key passes twice within the window only after a whole round of other keys went in since it was
put in. -/
theorem advert_window {start : ℚ} {calls : List RingEvent} {x : Timed ℚ AdvertOriginWindow}
    (hhours : 0 < hours) (hrun : Run RingStep ⟨start, { hours }⟩ calls x) :
    ((x.state.ring.map Prod.fst).Nodup ∧ x.state.ring.length ≤ dmcAdvertCacheSize) ∧
    ∀ before e₁ mid e₂ after, calls = before ++ e₁ :: (mid ++ e₂ :: after) →
      shortKey e₂.label.2 = shortKey e₁.label.2 → Passes e₁ → Passes e₂ →
      e₂.label.1 - e₁.label.1 < hours * 3600 →
      (∃ b₁ e₀ b₂, before ++ [e₁] = b₁ ++ e₀ :: b₂ ∧ PutsIn e₁.label.2 e₀ ∧
        (∀ e ∈ b₂, ¬ PutsIn e₁.label.2 e) ∧
        dmcAdvertCacheSize ≤ (b₂ ++ mid).countP (putsInOther e₁.label.2)) ∧
      (PutsIn e₁.label.2 e₁ → dmcAdvertCacheSize ≤ mid.countP (putsInOther e₁.label.2)) := by
  have hnew : RingOk hours ({ hours } : AdvertOriginWindow) := ringOk_new
  have hend := ringOk_of_run hhours hrun hnew
  refine ⟨⟨hend.nodup, hend.length_le⟩, ?_⟩
  intro before e₁ mid e₂ after hcalls hkey hpass₁ hpass₂ hwithin
  rw [hcalls] at hrun
  obtain ⟨hbefore, hstep₁, hrest⟩ := hrun.at_event
  obtain ⟨hmid, hstep₂, -⟩ := hrest.at_event
  have hok₁ : RingOk hours e₁.pre.state := ringOk_of_run hhours hbefore hnew
  have hcall₁ := ringStep_allows hhours hok₁ hstep₁
  unfold Passes at hpass₁ hpass₂
  rw [hpass₁] at hcall₁
  have hok₁' := hok₁.allows hcall₁
  have hok₂ := ringOk_of_run hhours hmid hok₁'
  have hcall₂ := ringStep_allows hhours hok₂ hstep₂
  rw [hpass₂] at hcall₂
  -- the entry is gone at the second call, as it would have refused it
  have habsent : e₂.pre.state.Absent e₁.label.2 := by
    have hseen : e₂.pre.state.SeenSince e₁.label.2 e₁.post.clock :=
      seenSince_of_run hhours hmid hok₁' (by
        rw [hstep₁.clock_eq]
        exact hok₁.seenSince hcall₁)
    unfold Absent
    rw [← hkey]
    generalize hanswer : true = answer at hcall₂
    generalize e₂.post.state = w at hcall₂
    cases hcall₂ with
    | refuse i seen hentry hwindow => cases hanswer
    | refresh i seen hentry hwindow =>
      have hsince := hseen _ (List.mem_of_getElem? hentry) hkey
      rw [hstep₁.clock_eq] at hsince
      rw [hok₂.hours] at hwindow
      linarith
    | append habsent hroom => exact habsent
    | overwrite habsent hfull => exact habsent
  have hin : ¬ e₁.post.state.Absent e₁.label.2 := by
    by_cases hput : e₁.pre.state.Absent e₁.label.2
    · obtain ⟨p, hat, -⟩ := hok₁.turn_new hcall₁ hput
      exact hat.not_absent
    · obtain ⟨p, hat⟩ := exists_at hput
      rcases hok₁.turn_allows hat hcall₁ with ⟨-, hstay, -⟩ | ⟨habs, -, -⟩
      · exact hstay.not_absent
      · exact absurd habs hput
  have hupto : Run RingStep ⟨start, { hours }⟩ (before ++ [e₁]) e₁.post :=
    hbefore.append (Run.single hstep₁)
  obtain ⟨b₁, e₀, b₂, hsplit, hputs, hlast⟩ := exists_putsIn hhours hupto hin
  have hround : dmcAdvertCacheSize ≤ (b₂ ++ mid).countP (putsInOther e₁.label.2) := by
    rw [hsplit] at hupto
    obtain ⟨hb₁, hstep₀, hb₂⟩ := hupto.at_event
    have hok₀ : RingOk hours e₀.pre.state := ringOk_of_run hhours hb₁ hnew
    have hcall₀ := ringStep_allows hhours hok₀ hstep₀
    obtain ⟨p, hat, hturn⟩ := hok₀.turn_new hcall₀ hputs.2
    have hat' : e₀.post.state.At e₁.label.2 p := by
      unfold At at hat ⊢
      rw [← hputs.1]
      exact hat
    rcases kept_of_run hhours (hb₂.append hmid) (hok₀.allows hcall₀) hat' hturn with
      hover | ⟨hstay, -⟩
    · exact hover
    · exact absurd habsent hstay.not_absent
  refine ⟨⟨b₁, e₀, b₂, hsplit, hputs, hlast, hround⟩, fun hput => ?_⟩
  -- nothing lies behind the first call, as it put the key in itself
  have hnil : b₂ = [] := by
    rcases List.eq_nil_or_concat b₂ with hnil | ⟨b, e, hb⟩
    · exact hnil
    · rw [hb, List.concat_eq_append, ← List.cons_append, ← List.append_assoc] at hsplit
      have heq := (List.append_inj' hsplit rfl).2
      refine absurd hput (hlast e₁ ?_)
      rw [hb, List.concat_eq_append, List.singleton_inj.mp heq]
      exact List.mem_concat_self
  rw [hnil, List.nil_append] at hround
  exact hround

/-! ### A full ring -/

/-- Calls with keys of their own fill the ring in their order. -/
theorem ring_play {calls : List (ℚ × Bytes)}
    (hhours : 0 < s.state.hours)
    (hroom : s.state.ring.length + calls.length ≤ dmcAdvertCacheSize)
    (hnodup : (s.state.ring.map Prod.fst ++ calls.map (fun l => shortKey l.2)).Nodup) :
    (Run.play (fun w now key => (w.allow key now).1) s calls).state =
      ⟨s.state.hours, s.state.ring ++ calls.map (fun l => (shortKey l.2, l.1)), s.state.head⟩ := by
  induction calls generalizing s with
  | nil =>
    rw [List.map_nil, List.append_nil]
    rfl
  | cons l calls ih =>
    have habsent : s.state.Absent l.2 := by
      intro e he hkey
      have hdisjoint := (List.nodup_append.mp hnodup).2.2
      exact hdisjoint _ (List.mem_map_of_mem he) _ List.mem_cons_self hkey
    have hlen : s.state.ring.length < dmcAdvertCacheSize := by
      rw [List.length_cons] at hroom
      omega
    have hcall : (s.state.allow l.2 l.1).1 =
        ⟨s.state.hours, s.state.ring ++ [(shortKey l.2, l.1)], s.state.head⟩ := by
      have hnone : s.state.ring.findIdx? (fun e => e.1 = l.2.take dmcAdvertKeyLen) = none :=
        List.findIdx?_eq_none_iff.mpr (fun e he => decide_eq_false (habsent e he))
      unfold AdvertOriginWindow.allow
      rw [if_neg hhours.ne']
      dsimp only
      rw [hnone]
      dsimp only
      rw [if_pos hlen]
      rfl
    show (Run.play (fun w now key => (w.allow key now).1)
      ⟨l.1, (s.state.allow l.2 l.1).1⟩ calls).state = _
    rw [hcall, @ih ⟨l.1, ⟨s.state.hours, s.state.ring ++ [(shortKey l.2, l.1)], s.state.head⟩⟩
      hhours]
    · dsimp only
      rw [List.append_assoc]
      rfl
    · show (s.state.ring ++ [(shortKey l.2, l.1)]).length + calls.length ≤ dmcAdvertCacheSize
      rw [List.length_append, List.length_singleton]
      rw [List.length_cons] at hroom
      omega
    · show ((s.state.ring ++ [(shortKey l.2, l.1)]).map Prod.fst ++ _).Nodup
      rw [List.map_append, List.append_assoc]
      exact hnodup

/-- A key of four bytes. -/
def smallKey (a b : UInt8) : Bytes := [a, b, 0, 0]

/-- As many calls as the ring has room, each with a key of its own. -/
def fillCalls : List (ℚ × Bytes) :=
  (List.range dmcAdvertCacheSize).map (fun i => (0, smallKey (UInt8.ofNat i) 0))

/-- The calls fill a new ring. -/
def filled : Timed ℚ AdvertOriginWindow :=
  Run.play (fun w now key => (w.allow key now).1) ⟨0, { hours := 1 }⟩ fillCalls

theorem filled_run : Run RingStep ⟨0, { hours := 1 }⟩
    (Run.timeline (fun w now key => (w.allow key now).1) ⟨0, { hours := 1 }⟩ fillCalls) filled :=
  Run.of_timeline _ _ _ (by decide +kernel)

theorem filled_state : filled.state =
    { hours := 1, ring := fillCalls.map (fun l => (shortKey l.2, l.1)) } := by
  refine (ring_play (by decide) (by decide +kernel) ?_).trans ?_
  · show (fillCalls.map (fun l => shortKey l.2)).Nodup
    unfold fillCalls
    rw [List.map_map]
    refine List.Nodup.map_on (fun i hi j hj heq => ?_) List.nodup_range
    have hbyte : UInt8.ofNat i = UInt8.ofNat j := (List.cons.inj heq).1
    have hmod := congrArg UInt8.toNat hbyte
    rw [UInt8.toNat_ofNat', UInt8.toNat_ofNat'] at hmod
    have hi' := List.mem_range.mp hi
    have hj' := List.mem_range.mp hj
    unfold dmcAdvertCacheSize at hi' hj'
    omega
  · rfl

/-- One more call after `s`. -/
def ringEvent (s : Timed ℚ AdvertOriginWindow) (now : ℚ) (key : Bytes) : RingEvent :=
  ⟨s, (now, key), ⟨now, (s.state.allow key now).1⟩⟩

/-- The first key passes again after its window. -/
def refreshed (s : Timed ℚ AdvertOriginWindow) : RingEvent := ringEvent s 3600 (smallKey 0 0)

/-- A new key goes over the entry at the head. -/
def overwritten (s : Timed ℚ AdvertOriginWindow) : RingEvent :=
  ringEvent (refreshed s).post 3600 (smallKey 0 1)

/-- The first key again. -/
def repassed (s : Timed ℚ AdvertOriginWindow) : RingEvent :=
  ringEvent (overwritten s).post 3600 (smallKey 0 0)

theorem repassed_run (h : s.clock ≤ 3600) :
    Run RingStep s [refreshed s, overwritten s, repassed s] (repassed s).post := by
  have h₁ : Run RingStep s [refreshed s] (refreshed s).post := Run.single ⟨h, rfl⟩
  have h₂ : Run RingStep (refreshed s).post [overwritten s] (overwritten s).post :=
    Run.single ⟨le_rfl, rfl⟩
  have h₃ : Run RingStep (overwritten s).post [repassed s] (repassed s).post :=
    Run.single ⟨le_rfl, rfl⟩
  exact (h₁.append h₂).append h₃

theorem repassed_passes : Passes (refreshed filled) ∧ Passes (repassed filled) ∧
    [overwritten filled].countP (putsInOther (smallKey 0 0)) = 1 := by
  unfold Passes repassed overwritten refreshed ringEvent
  rw [filled_state]
  decide +kernel

/-- **An entry that was passed again is overwritten in its old turn.** -/
theorem not_forall_advert_window : ¬ ∀ (hours : ℕ) (start : ℚ) (calls : List RingEvent)
    (x : Timed ℚ AdvertOriginWindow), 0 < hours → Run RingStep ⟨start, { hours }⟩ calls x →
      ∀ before e₁ mid e₂ after, calls = before ++ e₁ :: (mid ++ e₂ :: after) →
        shortKey e₂.label.2 = shortKey e₁.label.2 → Passes e₁ → Passes e₂ →
        e₂.label.1 - e₁.label.1 < hours * 3600 →
        dmcAdvertCacheSize ≤ mid.countP (putsInOther e₁.label.2) := by
  intro hall
  have hclock : filled.clock ≤ 3600 := by decide +kernel
  obtain ⟨hpass₁, hpass₂, hone⟩ := repassed_passes
  have hcount := hall 1 0 _ _ (by decide) (filled_run.append (repassed_run hclock)) _
    (refreshed filled) [overwritten filled] (repassed filled) [] rfl rfl hpass₁ hpass₂ (by
      show (3600 : ℚ) - 3600 < (1 : ℕ) * 3600
      norm_num)
  have hle : dmcAdvertCacheSize ≤ [overwritten filled].countP (putsInOther (smallKey 0 0)) := hcount
  rw [hone] at hle
  exact absurd hle (by decide)

/-- The window of one key. -/
theorem advert_window_two :
    ((({ hours := 2 } : AdvertOriginWindow).allow (smallKey 1 2) 0).1.ring.map Prod.fst).Nodup :=
  (advert_window (by decide) ((Run.nil (⟨0, { hours := 2 }⟩ : Timed ℚ AdvertOriginWindow)).snoc
    (l := ((0 : ℚ), smallKey 1 2)) ⟨le_rfl, rfl⟩)).1.1

end RtfmEv.HostRepeater
