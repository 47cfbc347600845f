import RtfmEv.SendPacer.Sends

/-!
# How far apart two sends are, and when a wait ends

The use that sends next is inside, so it has seen the clock at the time its send was
ready, which the gap and the first echo of the last send bound. A use whose first loop
ends at a reading has its deadline from that reading until it is inside.
-/

namespace RtfmEv.SendPacer

open RtfmEv.Lib

namespace World

variable {g : ℕ} {w w' : World} {i : ℕ} {t : Readings} {d : ℚ}

/-- The events of a run around two of its labels. -/
theorem split_labels {h : List (Event World Op)} {before between after : List Op}
    {op₁ op₂ : Op} (r : Runs w h w')
    (hl : h.map Event.label = before ++ op₁ :: between ++ op₂ :: after) :
    ∃ u₁ v₁ u₂ v₂ f mid, Runs w f u₁ ∧ u₁.step op₁ = some v₁ ∧ Runs v₁ mid u₂ ∧
      u₂.step op₂ = some v₂ ∧ mid.map Event.label = between ∧ (∀ e ∈ f, e ∈ h) ∧
      (∀ e ∈ mid, e ∈ h) ∧ ⟨u₁, op₁, v₁⟩ ∈ h := by
  obtain ⟨h₁, h₂, rfl, hl₁, hl₂⟩ := List.map_eq_append_iff.mp hl
  obtain ⟨f, h₃, rfl, -, hl₃⟩ := List.map_eq_append_iff.mp hl₁
  obtain ⟨e₁, mid, rfl, he₁, hmid⟩ := List.map_eq_cons_iff.mp hl₃
  obtain ⟨e₂, rest, rfl, he₂, -⟩ := List.map_eq_cons_iff.mp hl₂
  rw [List.append_assoc, List.cons_append] at r
  obtain ⟨hf, hs₁, hrest⟩ := r.at_event
  obtain ⟨hm, hs₂, -⟩ := hrest.at_event
  refine ⟨e₁.pre, e₁.post, e₂.pre, e₂.post, f, mid, hf, he₁ ▸ hs₁, hm, he₂ ▸ hs₂, hmid, ?_, ?_, ?_⟩
  · intro e he
    exact List.mem_append_left _ (List.mem_append_left _ he)
  · intro e he
    exact List.mem_append_left _ (List.mem_append_right _ (List.mem_cons_of_mem _ he))
  · rw [← he₁]
    exact List.mem_append_left _ (List.mem_append_right _ List.mem_cons_self)

/-- **The next send** comes a gap after the last one, or a second after its first echo. -/
theorem Runs.nextSend {h : List (Event World Op)} (r : Runs w h w') (hg : 0 < g)
    (hgap : ∀ e ∈ h, e.label.GapIs g) (hw : w.Spaced g) {j : ℕ} {messageId : Option ℤ}
    {t₁ t₂ : ℚ} {between : List Op} (hnext : NextSend h i messageId t₁ between j t₂) :
    t₁ + g ≤ t₂ ∨ ∃ e, (heard i messageId between).firstEcho = some e ∧
      e + echoReleaseSeconds ≤ t₂ := by
  obtain ⟨hij, hmark, before, after, messageId', hl⟩ := hnext
  obtain ⟨u₁, v₁, u₂, v₂, f, mid, hf, hs₁, hm, hs₂, rfl, hfsub, hmsub, hin⟩ := split_labels r hl
  have hu₁ : u₁.Spaced g := hf.spaced hg (fun e he => hgap e (hfsub e he)) hw
  have hgapm : ∀ e ∈ mid, e.label.GapIs g := fun e he => hgap e (hmsub e he)
  obtain ⟨⟨hinside, hnow⟩, heq⟩ := Option.ite_none_right_eq_some.mp hs₁
  have hv₁ : v₁.Spaced g := spaced_step hg (hgap _ hin) hs₁ hu₁
  have hfollows : Follows i t₁ { ids := messageId.toList } v₁ := by
    cases heq
    have hstate : ((u₁.slot i).markSent u₁.state messageId t₁).2 =
        { u₁.state with lastSendAt := some t₁, lastMessageId := messageId,
                        firstEchoAt := none } := by
      simp [SendSlot.markSent, hu₁.paced i]
    refine ⟨(hu₁.markSent hg hinside hnow messageId).1.sent, ?_, ?_, ?_, ?_⟩
    · rw [hstate]
    · intro m hmid
      rw [hstate] at hmid
      exact Option.mem_toList.mpr hmid
    · intro e he
      rw [hstate] at he
      cases he
    · intro e he
      cases he
  have hlast := hm.follows hg hgapm
    (fun e he => hmark _ (List.mem_map_of_mem he)) hv₁ hfollows
  have hu₂ := hm.spaced hg hgapm hv₁
  obtain ⟨⟨hinside₂, hnow₂⟩, -⟩ := Option.ite_none_right_eq_some.mp hs₂
  obtain ⟨-, -, k, hk⟩ := hu₂.sent t₁ hlast.last
  have hki : i = k := hu₂.sender_eq hlast.last hk.sent hlast.sent
  have hready := hk.ready j (by rw [← hki]; exact Ne.symm hij) (by rw [hinside₂]; rfl)
  cases hecho : u₂.state.firstEchoAt with
  | none =>
    have hle := hready _ (State.readyAt_of_none hlast.last hecho g)
    exact Or.inl (hle.trans hnow₂)
  | some e =>
    have hle := (hready _ (State.readyAt_of_some hlast.last hecho g)).trans hnow₂
    rcases min_le_iff.mp hle with hgapped | hechoed
    · exact Or.inl hgapped
    · obtain ⟨e₀, he₀, hle₀⟩ := hlast.echo e hecho
      exact Or.inr ⟨e₀, he₀, by linarith⟩

/-! ### Echoes of other messages -/

/-- The operation notes an echo of one of the messages. -/
def echoOf (ids : List ℤ) : Op → Prop
  | .noteEcho messageId _ => messageId ∈ ids
  | _ => False

theorem ids_subset_hear (i : ℕ) (s : Heard) (op : Op) : s.ids ⊆ (s.hear i op).ids := by
  intro m hm
  cases op with
  | bindMessage j messageId =>
    rw [Heard.hear]
    split
    · exact List.mem_cons_of_mem _ hm
    · exact hm
  | noteEcho messageId now =>
    rw [Heard.hear]
    split
    · exact hm
    · exact hm
  | enter j => exact hm
  | resume j => exact hm
  | cancel j => exact hm
  | readGap j sendGapSeconds r => exact hm
  | turn j r => exact hm
  | quiet j now => exact hm
  | leave j => exact hm
  | markSent j messageId now => exact hm
  | noteRx now => exact hm

theorem ids_subset_heard (i : ℕ) (ops : List Op) (s : Heard) :
    s.ids ⊆ (ops.foldl (Heard.hear i) s).ids := by
  induction ops generalizing s with
  | nil => exact List.Subset.refl _
  | cons op ops ih => exact List.Subset.trans (ids_subset_hear i s op) (ih (s.hear i op))

/-- No echo is heard of a send when only echoes of other messages are noted. -/
theorem firstEcho_none_of_others (i : ℕ) (ops : List Op) (s : Heard) (hs : s.firstEcho = none)
    (h : ∀ op ∈ ops, ¬ echoOf (ops.foldl (Heard.hear i) s).ids op) :
    (ops.foldl (Heard.hear i) s).firstEcho = none := by
  induction ops generalizing s with
  | nil => exact hs
  | cons op ops ih =>
    have hsub : s.ids ⊆ ((op :: ops).foldl (Heard.hear i) s).ids := ids_subset_heard i _ s
    have hop := h op List.mem_cons_self
    refine ih (s.hear i op) ?_ (fun op' hop' => h op' (List.mem_cons_of_mem _ hop'))
    cases op with
    | bindMessage j messageId =>
      rw [Heard.hear]
      split
      · exact hs
      · exact hs
    | noteEcho messageId now =>
      rw [Heard.hear, if_neg]
      · exact hs
      · intro hin
        exact hop (hsub hin.1)
    | enter j => exact hs
    | resume j => exact hs
    | cancel j => exact hs
    | readGap j sendGapSeconds r => exact hs
    | turn j r => exact hs
    | quiet j now => exact hs
    | leave j => exact hs
    | markSent j messageId now => exact hs
    | noteRx now => exact hs

/-! ### The end of a wait -/

/-- A use whose first loop ended is in the second one with this deadline, or beyond it. -/
def Past (quietDeadline : ℚ) (p : Phase) : Prop :=
  (∃ wake, p = .quiet quietDeadline wake) ∨ p = .inside ∨ p = .done

theorem past_waitForQuiet (s : State) (quietDeadline now : ℚ) :
    Past quietDeadline (s.waitForQuiet quietDeadline now) := by
  rcases s.waitForQuiet_spec quietDeadline now with h | ⟨-, wake, h, -⟩
  · exact Or.inr (Or.inl h)
  · exact Or.inl ⟨wake, h⟩

theorem past_waitForTurn {s : State} {gapSeconds : ℕ}
    (h : (s.waitForTurn gapSeconds t).passed = true) :
    Past (t.start + quietAirMaxWaitSeconds) (s.waitForTurn gapSeconds t) := by
  rcases s.waitForTurn_spec gapSeconds t with ⟨-, heq⟩ | ⟨ready, wake, -, -, -, heq⟩
  · rw [heq]
    exact past_waitForQuiet s _ _
  · rw [heq] at h
    cases h

theorem phase_goTo (w : World) (i j : ℕ) (p : Phase) :
    (w.goTo j p).phase i = if i = j then p else w.phase i := by
  show Function.update w.phase j p i = _
  rw [Function.update_apply]

theorem past_goTo {j : ℕ} {p : Phase} (h : Past d (w.phase i))
    (hp : i = j → Past d p) : Past d ((w.goTo j p).phase i) := by
  rw [phase_goTo]
  split
  · rename_i hij
    exact hp hij
  · exact h

/-- **One step keeps the deadline** of a use that is past the first loop. -/
theorem past_step {op : Op} (hs : w.step op = some w')
    (h : Past d (w.phase i)) : Past d (w'.phase i) := by
  cases op with
  | enter j =>
    obtain ⟨hj, heq⟩ := Option.ite_none_right_eq_some.mp hs
    cases heq
    refine past_goTo (w := { w with lock := (w.lock.acquire j).2 }) h ?_
    rintro rfl
    rw [Past, hj] at h
    simp at h
  | resume j =>
    obtain ⟨hj, heq⟩ := Option.ite_none_right_eq_some.mp hs
    obtain ⟨r, -, rfl⟩ := Option.map_eq_some_iff.mp heq
    refine past_goTo (w := { w with lock := r.2 }) h ?_
    rintro rfl
    rw [Past, hj] at h
    simp at h
  | cancel j | markSent j messageId now | noteRx now | noteEcho messageId now =>
    obtain ⟨-, heq⟩ := Option.ite_none_right_eq_some.mp hs
    cases heq
    exact h
  | readGap j sendGapSeconds t =>
    obtain ⟨⟨hj, -⟩, heq⟩ := Option.ite_none_right_eq_some.mp hs
    cases heq
    refine past_goTo (w := { w with clock := t.quiet }) h ?_
    rintro rfl
    rw [Past, hj] at h
    simp at h
  | turn j t =>
    rw [step] at hs
    split at hs
    · rename_i gap wake hj
      obtain ⟨-, heq⟩ := Option.ite_none_right_eq_some.mp hs
      cases heq
      refine past_goTo (w := { w with clock := t.quiet }) h ?_
      rintro rfl
      rw [Past, hj] at h
      simp at h
    · cases hs
  | quiet j now =>
    rw [step] at hs
    split at hs
    · rename_i d' wake hj
      obtain ⟨-, heq⟩ := Option.ite_none_right_eq_some.mp hs
      cases heq
      refine past_goTo (w := { w with clock := now }) h ?_
      rintro rfl
      rcases h with ⟨wake', hq⟩ | hin | hdone
      · rw [hj] at hq
        cases hq
        exact past_waitForQuiet _ _ _
      · rw [hj] at hin
        cases hin
      · rw [hj] at hdone
        cases hdone
    · cases hs
  | leave j =>
    obtain ⟨-, heq⟩ := Option.ite_none_right_eq_some.mp hs
    cases heq
    exact past_goTo (w := { w with lock := w.lock.release }) h (fun _ => Or.inr (Or.inr rfl))
  | bindMessage j messageId =>
    cases hs
    exact h

theorem phase_of_turn {op : Op} (hg : 0 < g)
    (hgap : op.GapIs g) (hs : w.step op = some w') (hw : w.Spaced g)
    (hturn : op.turnOf i = some t) : w'.phase i = w.state.waitForTurn g t := by
  cases op with
  | readGap j sendGapSeconds r =>
    obtain ⟨rfl, hr⟩ := Option.ite_none_right_eq_some.mp hturn
    cases hr
    obtain ⟨-, heq⟩ := Option.ite_none_right_eq_some.mp hs
    have hgap' : readGapSeconds sendGapSeconds = g := hgap
    rw [hgap', if_neg hg.ne'] at heq
    cases heq
    rw [phase_goTo, if_pos rfl]
  | turn j r =>
    obtain ⟨rfl, hr⟩ := Option.ite_none_right_eq_some.mp hturn
    cases hr
    rw [step] at hs
    split at hs
    · rename_i gap wake hj
      obtain ⟨-, heq⟩ := Option.ite_none_right_eq_some.mp hs
      rw [(hw.turn j gap wake hj).1] at heq
      cases heq
      rw [phase_goTo, if_pos rfl]
    · cases hs
  | enter j => cases hturn
  | resume j => cases hturn
  | cancel j => cases hturn
  | quiet j now => cases hturn
  | leave j => cases hturn
  | markSent j messageId now => cases hturn
  | bindMessage j messageId => cases hturn
  | noteRx now => cases hturn
  | noteEcho messageId now => cases hturn

theorem passed_waitForTurn {s : State}
    (hpast : ∀ t₁, s.lastSendAt = some t₁ → t₁ + g ≤ t.now) :
    (s.waitForTurn g t).passed = true := by
  rcases s.waitForTurn_spec g t with ⟨-, heq⟩ | ⟨ready, wake, hready, hlt, -, -⟩
  · rw [heq]
    exact State.passed_waitForQuiet _ _ _
  · obtain ⟨t₁, ht₁, hle⟩ := State.readyAt_le hready
    have hover := hpast t₁ ht₁
    linarith

theorem inside_of_quiet {now : ℚ} (hs : w.step (.quiet i now) = some w')
    (h : Past d (w.phase i)) (hd : d ≤ now) : w'.phase i = .inside := by
  rw [step] at hs
  split at hs
  · rename_i d' wake hi
    obtain ⟨-, heq⟩ := Option.ite_none_right_eq_some.mp hs
    cases heq
    rw [phase_goTo, if_pos rfl]
    rcases h with ⟨wake', hq⟩ | hin | hdone
    · rw [hi] at hq
      cases hq
      exact State.waitForQuiet_of_le _ hd
    · rw [hi] at hin
      cases hin
    · rw [hi] at hdone
      cases hdone
  · cases hs

/-- **The wait is over** at the first round at or past the deadline that the end of the first
loop set. -/
theorem Runs.inside {f mid rest : List (Event World Op)} {e₁ e₂ : Event World Op} {now : ℚ}
    (r : Runs w (f ++ e₁ :: mid ++ e₂ :: rest) w')
    (hpast : Past d (e₁.post.phase i)) (hq : e₂.label = .quiet i now) (hd : d ≤ now) :
    e₂.post.phase i = .inside := by
  rw [List.append_assoc, List.cons_append] at r
  obtain ⟨-, -, hrest⟩ := r.at_event
  obtain ⟨hm, hs, -⟩ := hrest.at_event
  have hp : Past d (e₂.pre.phase i) :=
    Run.invariant (P := fun w => Past d (w.phase i)) (C := fun _ => True) hm (fun _ _ => trivial)
      (fun _ hs _ hw => past_step hs hw) hpast
  rw [hq] at hs
  exact inside_of_quiet hs hp hd

/-- **Send spacing.** In every run with a constant gap one use at a time holds the slot, two
sends that follow each other are a gap apart or the second one is a second after the first
echo of the first, echoes of other messages do not matter, and each loop ends at its first
round at or past the time it waits for. -/
theorem send_spacing {g : ℕ} {clock : ℚ} {h : List (Event World Op)} {w : World} (hg : 0 < g)
    (r : Runs (start clock) h w) (hgap : ∀ e ∈ h, e.label.GapIs g) :
    (∀ i j, (w.phase i).holds = true → (w.phase j).holds = true → i = j) ∧
    (∀ i messageId t₁ between j t₂, NextSend h i messageId t₁ between j t₂ →
      (t₁ + g ≤ t₂ ∨ ∃ e, (heard i messageId between).firstEcho = some e ∧
        e + echoReleaseSeconds ≤ t₂) ∧
      ((∀ op ∈ between, ¬ echoOf (heard i messageId between).ids op) → t₁ + g ≤ t₂)) ∧
    (∀ e ∈ h, ∀ i t, e.label.turnOf i = some t →
      (∀ t₁, e.pre.state.lastSendAt = some t₁ → t₁ + g ≤ t.now) →
      Past (t.start + quietAirMaxWaitSeconds) (e.post.phase i)) ∧
    (∀ f e₁ mid e₂ rest i t now, h = f ++ e₁ :: mid ++ e₂ :: rest →
      e₁.label.turnOf i = some t → (e₁.post.phase i).passed = true → e₂.label = .quiet i now →
      t.start + quietAirMaxWaitSeconds ≤ now → e₂.post.phase i = .inside) ∧
    (∀ i gap wake, w.phase i = .turn gap wake →
      ∃ t₁, w.state.lastSendAt = some t₁ ∧ wake ≤ t₁ + g) ∧
    ∀ i quietDeadline wake, w.phase i = .quiet quietDeadline wake → wake ≤ quietDeadline := by
  have hstart := spaced_start g clock
  have hw := Runs.spaced r hg hgap hstart
  refine ⟨hw.exclusive.one, ?_, ?_, ?_, ?_, hw.quiet⟩
  · intro i messageId t₁ between j t₂ hnext
    have hspaced := Runs.nextSend r hg hgap hstart hnext
    refine ⟨hspaced, ?_⟩
    intro hothers
    have hnone := firstEcho_none_of_others i between { ids := messageId.toList } rfl hothers
    rcases hspaced with hgapped | ⟨e, he, -⟩
    · exact hgapped
    · have hno : (heard i messageId between).firstEcho = none := hnone
      rw [hno] at he
      cases he
  · intro e he i t hturn hpast
    obtain ⟨f, rest, rfl⟩ := List.append_of_mem he
    obtain ⟨hf, hs, -⟩ := r.at_event
    have hpre := Runs.spaced hf hg (fun e he => hgap e (List.mem_append_left _ he)) hstart
    rw [phase_of_turn hg (hgap e he) hs hpre hturn]
    exact past_waitForTurn (passed_waitForTurn hpast)
  · intro f e₁ mid e₂ rest i t now hh hturn hpassed hq hd
    subst hh
    have he₁ : e₁ ∈ f ++ e₁ :: mid ++ e₂ :: rest := by simp
    have hr := r
    rw [List.append_assoc, List.cons_append] at hr
    obtain ⟨hf, hs, -⟩ := hr.at_event
    have hpre := Runs.spaced hf hg
      (fun e he => hgap e (List.mem_append_left _ (List.mem_append_left _ he))) hstart
    have hphase := phase_of_turn hg (hgap e₁ he₁) hs hpre hturn
    rw [hphase] at hpassed
    exact Runs.inside r (hphase ▸ past_waitForTurn hpassed) hq hd
  · intro i gap wake hi
    exact (hw.turn i gap wake hi).2

/-- The readings of a task that runs on at once. -/
def atOnce (now : ℚ) : Readings := ⟨now, now, now⟩

/-- A second send two seconds after the echo of the first one. -/
def echoedOps : List Op :=
  [.enter 0, .readGap 0 (some 5) (atOnce 0), .markSent 0 (some 7) 0, .enter 1, .leave 0,
    .resume 1, .readGap 1 (some 5) (atOnce 1), .noteEcho 7 1, .turn 1 (atOnce 3),
    .markSent 1 none 3]

theorem send_spacing_echoed :
    ∃ h w, Runs (start 0) h w ∧ h.map Event.label = echoedOps ∧
      ((0 : ℚ) + (5 : ℕ) ≤ 3 ∨ ∃ e, (heard 0 (some 7) [.enter 1, .leave 0, .resume 1,
        .readGap 1 (some 5) (atOnce 1), .noteEcho 7 1, .turn 1 (atOnce 3)]).firstEcho = some e ∧
          e + echoReleaseSeconds ≤ 3) := by
  obtain ⟨h, w, r, hl, -⟩ := Run.exists_of_trace step (start 0) echoedOps (fun _ => true)
    (by decide +kernel)
  have hgap : ∀ e ∈ h, e.label.GapIs 5 := by
    intro e he
    have hmem : e.label ∈ echoedOps := hl ▸ List.mem_map_of_mem he
    simp only [echoedOps, List.mem_cons, List.not_mem_nil, or_false] at hmem
    rcases hmem with h | h | h | h | h | h | h | h | h | h
    all_goals
      rw [h]
      simp [Op.GapIs, readGapSeconds]
  have hnext : NextSend h 0 (some 7) 0 [.enter 1, .leave 0, .resume 1,
      .readGap 1 (some 5) (atOnce 1), .noteEcho 7 1, .turn 1 (atOnce 3)] 1 3 := by
    refine ⟨by decide, ?_, [.enter 0, .readGap 0 (some 5) (atOnce 0)], [], none, hl⟩
    intro op hop
    simp only [List.mem_cons, List.not_mem_nil, or_false] at hop
    rcases hop with rfl | rfl | rfl | rfl | rfl | rfl
    all_goals rfl
  exact ⟨h, w, r, hl, ((send_spacing (by decide) r hgap).2.1 _ _ _ _ _ _ hnext).1⟩

/-- The second use has the slot at `4`, does its next round late at `6`, and is still in the
second loop past `0 + 5 + 3`. -/
def lateOps : List Op :=
  [.enter 0, .readGap 0 (some 5) (atOnce 0), .markSent 0 (some 7) 0, .enter 1, .leave 0,
    .resume 1, .readGap 1 (some 5) (atOnce 4), .noteRx 5, .turn 1 (atOnce 6), .noteRx 8,
    .quiet 1 (17 / 2)]

/-- A wait may go on when the clock is past the gap and the longest wait for quiet. -/
theorem not_forall_wait_ends :
    ¬ ∀ (g : ℕ) (clock : ℚ) (h : List (Event World Op)) (w : World), 0 < g →
      Runs (start clock) h w → (∀ e ∈ h, e.label.GapIs g) →
      ∀ e ∈ h, ∀ i now t₁, e.label = .quiet i now → e.post.state.lastSendAt = some t₁ →
        t₁ + g + quietAirMaxWaitSeconds < now → e.post.phase i = .inside := by
  intro hall
  obtain ⟨h, w, r, hl, hp⟩ := Run.exists_of_trace step (start 0) lateOps
    (fun r => r.1.getLast?.any fun e : Event World Op =>
      decide (e.post.state.lastSendAt = some 0) && decide (e.post.phase 1 ≠ .inside))
    (by decide +kernel)
  obtain ⟨e, he, hlate⟩ := Option.any_eq_true _ _ |>.mp hp
  rw [Bool.and_eq_true, decide_eq_true_eq, decide_eq_true_eq] at hlate
  have hmem : e ∈ h := List.mem_of_getLast? he
  have hlabel : e.label = .quiet 1 (17 / 2) := by
    have hlast : (h.map Event.label).getLast? = some e.label := by
      rw [List.getLast?_map, he]
      rfl
    rw [hl] at hlast
    exact (Option.some.inj hlast).symm
  have hgap : ∀ e ∈ h, e.label.GapIs 5 := by
    intro e he
    have hmem : e.label ∈ lateOps := hl ▸ List.mem_map_of_mem he
    simp only [lateOps, List.mem_cons, List.not_mem_nil, or_false] at hmem
    rcases hmem with h | h | h | h | h | h | h | h | h | h | h
    all_goals
      rw [h]
      simp [Op.GapIs, readGapSeconds]
  have hpast : (0 : ℚ) + (5 : ℕ) + quietAirMaxWaitSeconds < 17 / 2 := by
    unfold quietAirMaxWaitSeconds
    norm_num
  exact hlate.2 (hall 5 0 h w (by decide) r hgap e hmem 1 _ 0 hlabel hlate.1 hpast)

end World

end RtfmEv.SendPacer
