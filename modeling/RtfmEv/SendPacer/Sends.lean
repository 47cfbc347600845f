import RtfmEv.SendPacer.Slot

/-!
# The sends of a run

Between two sends that follow each other the pacing fields belong to the first one:
the message they hold is one that send was given, and the echo they hold was heard
after its first one. The use that sends next has seen the clock at the time they give.
-/

namespace RtfmEv.SendPacer

open RtfmEv.Lib

/-- A send is marked. -/
def Op.marks : Op → Bool
  | .markSent _ _ _ => true
  | _ => false

/-- The readings with which a use does a round of the first loop. -/
def Op.turnOf (i : ℕ) : Op → Option Readings
  | .readGap j _ t => if j = i then some t else none
  | .turn j t => if j = i then some t else none
  | _ => none

/-- The ids a send was given, and when its first echo was noted. -/
structure Heard where
  ids : List ℤ
  firstEcho : Option ℚ := none

/-- What an operation after the send of `i` tells of it. -/
def Heard.hear (i : ℕ) (s : Heard) : Op → Heard
  | .bindMessage j messageId => if j = i then { s with ids := messageId :: s.ids } else s
  | .noteEcho messageId now =>
    if messageId ∈ s.ids ∧ s.firstEcho = none then { s with firstEcho := some now } else s
  | _ => s

/-- What the operations after a send of `i` tell of it. -/
def heard (i : ℕ) (messageId : Option ℤ) (ops : List Op) : Heard :=
  ops.foldl (Heard.hear i) { ids := messageId.toList }

/-- The use `j` marks the next send at `t₂` after that of another use `i` at `t₁`. -/
def NextSend (h : List (Event World Op)) (i : ℕ) (messageId : Option ℤ) (t₁ : ℚ)
    (between : List Op) (j : ℕ) (t₂ : ℚ) : Prop :=
  i ≠ j ∧ (∀ op ∈ between, op.marks = false) ∧ ∃ before after messageId',
    h.map Event.label =
      before ++ .markSent i messageId t₁ :: between ++ .markSent j messageId' t₂ :: after

namespace World

variable {g : ℕ} {w w' : World} {op : Op} {i : ℕ} {t : ℚ} {s : Heard}

/-! ### One step -/

/-- **One step keeps the spacing.** -/
theorem spaced_step (hg : 0 < g) (hgap : op.GapIs g)
    (hs : w.step op = some w') (h : w.Spaced g) : w'.Spaced g := by
  have hex := exclusive_step hs h.exclusive
  cases op with
  | enter i =>
    obtain ⟨-, heq⟩ := Option.ite_none_right_eq_some.mp hs
    cases heq
    refine h.goTo_idle hex ?_
    cases (w.lock.acquire i).1 with
    | true => exact Or.inl rfl
    | false => exact Or.inr (Or.inl rfl)
  | resume i =>
    obtain ⟨-, heq⟩ := Option.ite_none_right_eq_some.mp hs
    obtain ⟨⟨got, L⟩, -, rfl⟩ := Option.map_eq_some_iff.mp heq
    refine h.goTo_idle hex ?_
    cases got with
    | true => exact Or.inl rfl
    | false => exact Or.inr (Or.inr rfl)
  | cancel i =>
    obtain ⟨-, heq⟩ := Option.ite_none_right_eq_some.mp hs
    cases heq
    refine ⟨hex, h.paced, h.unsent, ?_, h.turn, h.quiet⟩
    intro t ht
    obtain ⟨hle, hecho, k, hk⟩ := h.sent t ht
    exact ⟨hle, hecho, k, hk.sent, hk.others, hk.ready⟩
  | readGap i sendGapSeconds t =>
    obtain ⟨⟨-, ht⟩, heq⟩ := Option.ite_none_right_eq_some.mp hs
    have hgap' : readGapSeconds sendGapSeconds = g := hgap
    rw [hgap', if_neg hg.ne'] at heq
    cases heq
    exact h.goTo_turn ht hex
  | turn i t =>
    rw [step] at hs
    split at hs
    · rename_i gap wake hi
      obtain ⟨ht, heq⟩ := Option.ite_none_right_eq_some.mp hs
      rw [(h.turn i gap wake hi).1] at heq
      cases heq
      exact h.goTo_turn ht hex
    · cases hs
  | quiet i now =>
    rw [step] at hs
    split at hs
    · rename_i d wake hi
      obtain ⟨hnow, heq⟩ := Option.ite_none_right_eq_some.mp hs
      cases heq
      exact h.goTo_quiet hnow hex (Or.inl (by rw [hi]; rfl))
    · cases hs
  | leave i =>
    obtain ⟨-, heq⟩ := Option.ite_none_right_eq_some.mp hs
    cases heq
    exact h.goTo_idle hex (Or.inr (Or.inr rfl))
  | markSent i messageId now =>
    obtain ⟨⟨hi, hnow⟩, heq⟩ := Option.ite_none_right_eq_some.mp hs
    cases heq
    exact (h.markSent hg hi hnow messageId).2
  | bindMessage i messageId =>
    cases hs
    refine h.heard le_rfl ?_ (Or.inl ?_)
    · unfold SendSlot.bindMessage
      split
      · rfl
      · rfl
    · unfold SendSlot.bindMessage
      split
      · rfl
      · rfl
  | noteRx now =>
    obtain ⟨hnow, heq⟩ := Option.ite_none_right_eq_some.mp hs
    cases heq
    exact h.heard hnow rfl (Or.inl rfl)
  | noteEcho messageId now =>
    obtain ⟨hnow, heq⟩ := Option.ite_none_right_eq_some.mp hs
    cases heq
    refine h.heard hnow ?_ ?_
    · unfold State.noteEcho
      split
      · rfl
      · rfl
    · unfold State.noteEcho
      split
      · rename_i hfirst
        exact Or.inr ⟨hfirst.2, rfl⟩
      · exact Or.inl rfl

theorem clock_step (hs : w.step op = some w') : w.clock ≤ w'.clock := by
  cases op with
  | enter i | cancel i | leave i =>
    obtain ⟨-, heq⟩ := Option.ite_none_right_eq_some.mp hs
    cases heq
    exact le_rfl
  | resume i =>
    obtain ⟨-, heq⟩ := Option.ite_none_right_eq_some.mp hs
    obtain ⟨r, -, rfl⟩ := Option.map_eq_some_iff.mp heq
    exact le_rfl
  | readGap i sendGapSeconds t =>
    obtain ⟨⟨-, ht⟩, heq⟩ := Option.ite_none_right_eq_some.mp hs
    cases heq
    exact ht.1.trans (ht.2.1.trans ht.2.2)
  | turn i t =>
    rw [step] at hs
    split at hs
    · obtain ⟨ht, heq⟩ := Option.ite_none_right_eq_some.mp hs
      cases heq
      exact ht.1.trans (ht.2.1.trans ht.2.2)
    · cases hs
  | quiet i now =>
    rw [step] at hs
    split at hs
    · obtain ⟨hnow, heq⟩ := Option.ite_none_right_eq_some.mp hs
      cases heq
      exact hnow
    · cases hs
  | markSent i messageId now =>
    obtain ⟨⟨-, hnow⟩, heq⟩ := Option.ite_none_right_eq_some.mp hs
    cases heq
    exact hnow
  | bindMessage i messageId =>
    cases hs
    exact le_rfl
  | noteRx now | noteEcho messageId now =>
    obtain ⟨hnow, heq⟩ := Option.ite_none_right_eq_some.mp hs
    cases heq
    exact hnow

/-- The operation is of a use in the lock or in the loops, and reads the pacing fields only. -/
def reads : Op → Bool
  | .markSent _ _ _ => false
  | .bindMessage _ _ => false
  | .noteRx _ => false
  | .noteEcho _ _ => false
  | _ => true

theorem reads_step (hop : reads op = true) (hs : w.step op = some w') :
    w'.slot = w.slot ∧ w'.state = w.state := by
  cases op with
  | enter i | cancel i | readGap i sendGapSeconds t | leave i =>
    obtain ⟨-, heq⟩ := Option.ite_none_right_eq_some.mp hs
    cases heq
    exact ⟨rfl, rfl⟩
  | resume i =>
    obtain ⟨-, heq⟩ := Option.ite_none_right_eq_some.mp hs
    obtain ⟨r, -, rfl⟩ := Option.map_eq_some_iff.mp heq
    exact ⟨rfl, rfl⟩
  | turn i t | quiet i now =>
    rw [step] at hs
    split at hs
    · obtain ⟨-, heq⟩ := Option.ite_none_right_eq_some.mp hs
      cases heq
      exact ⟨rfl, rfl⟩
    · cases hs
  | markSent i messageId now => cases hop
  | bindMessage i messageId => cases hop
  | noteRx now => cases hop
  | noteEcho messageId now => cases hop

/-! ### The last send -/

/-- What the pacing fields hold of the last send, that of `i` at `t`. -/
structure Follows (i : ℕ) (t : ℚ) (s : Heard) (w : World) : Prop where
  sent : (w.slot i).sentAt = some t
  last : w.state.lastSendAt = some t
  message : ∀ messageId, w.state.lastMessageId = some messageId → messageId ∈ s.ids
  echo : ∀ e, w.state.firstEchoAt = some e → ∃ e₀, s.firstEcho = some e₀ ∧ e₀ ≤ e
  past : ∀ e₀, s.firstEcho = some e₀ → e₀ ≤ w.clock

/-- Only the use itself has sent at the time of the last send. -/
theorem Spaced.sender_eq {j : ℕ} (hw : w.Spaced g)
    (hlast : w.state.lastSendAt = some t) (hi : (w.slot i).sentAt = some t)
    (hj : (w.slot j).sentAt = some t) : j = i := by
  obtain ⟨-, -, k, hk⟩ := hw.sent t hlast
  have hone : ∀ n, (w.slot n).sentAt = some t → n = k := by
    intro n hn
    by_contra hnk
    exact lt_irrefl t (hk.others n hnk t hn)
  exact (hone j hj).trans (hone i hi).symm

/-- A message bound to the last send is one of its own, and one bound to an earlier send
changes nothing. -/
theorem Follows.bind (hw : w.Spaced g)
    (h : Follows i t s w) (j : ℕ) (messageId : ℤ) :
    Follows i t (s.hear i (.bindMessage j messageId))
      { w with state := (w.slot j).bindMessage w.state messageId } := by
  rw [Heard.hear]
  by_cases hji : j = i
  · subst hji
    have hbind : (w.slot j).bindMessage w.state messageId =
        { w.state with lastMessageId := some messageId } := by
      rw [SendSlot.bindMessage, if_pos]
      rw [h.sent, h.last]
      exact ⟨Option.some_ne_none t, rfl⟩
    rw [if_pos rfl, hbind]
    refine ⟨h.sent, h.last, ?_, h.echo, h.past⟩
    intro m hm
    cases hm
    exact List.mem_cons_self
  · have hbind : (w.slot j).bindMessage w.state messageId = w.state := by
      rw [SendSlot.bindMessage, if_neg]
      intro hsame
      exact hji (hw.sender_eq h.last h.sent (hsame.2.symm.trans h.last))
    rw [if_neg hji, hbind]
    exact h

/-- An echo is taken for one of the last send only if it is one, and is not its first only if
that has been heard. -/
theorem Follows.noteEcho {now : ℚ} (h : Follows i t s w)
    (hnow : w.clock ≤ now) (messageId : ℤ) :
    Follows i t (s.hear i (.noteEcho messageId now))
      { w with clock := now, state := w.state.noteEcho messageId now } := by
  have hids : (s.hear i (.noteEcho messageId now)).ids = s.ids := by
    rw [Heard.hear]
    split
    · rfl
    · rfl
  have hkept : ∀ e₀, s.firstEcho = some e₀ →
      (s.hear i (.noteEcho messageId now)).firstEcho = some e₀ := by
    intro e₀ he₀
    rw [Heard.hear, if_neg]
    · exact he₀
    · rw [he₀]
      intro hnone
      cases hnone.2
  have hpast : ∀ e₀, (s.hear i (.noteEcho messageId now)).firstEcho = some e₀ → e₀ ≤ now := by
    intro e₀ he₀
    rw [Heard.hear] at he₀
    split at he₀
    · exact (Option.some.inj he₀).ge
    · exact (h.past e₀ he₀).trans hnow
  by_cases hfirst : some messageId = w.state.lastMessageId ∧ w.state.firstEchoAt = none
  · have hstate : w.state.noteEcho messageId now = { w.state with firstEchoAt := some now } := by
      rw [State.noteEcho, if_pos hfirst]
    have hmem : messageId ∈ s.ids := h.message messageId hfirst.1.symm
    rw [hstate]
    refine ⟨h.sent, h.last, ?_, ?_, hpast⟩
    · rw [hids]
      exact h.message
    · intro e he
      cases he
      cases hheard : s.firstEcho with
      | some e₀ => exact ⟨e₀, hkept e₀ hheard, (h.past e₀ hheard).trans hnow⟩
      | none =>
        refine ⟨now, ?_, le_rfl⟩
        rw [Heard.hear, if_pos ⟨hmem, hheard⟩]
  · have hstate : w.state.noteEcho messageId now = w.state := by
      rw [State.noteEcho, if_neg hfirst]
    rw [hstate]
    refine ⟨h.sent, h.last, ?_, ?_, hpast⟩
    · rw [hids]
      exact h.message
    · intro e he
      obtain ⟨e₀, he₀, hle⟩ := h.echo e he
      exact ⟨e₀, hkept e₀ he₀, hle⟩

/-- **The fields follow the last send**, with what each operation tells of it. -/
theorem follows_step (hmark : op.marks = false)
    (hs : w.step op = some w') (hw : w.Spaced g) (h : Follows i t s w) :
    Follows i t (s.hear i op) w' := by
  have hreads : reads op = true → s.hear i op = s → Follows i t (s.hear i op) w' := by
    intro hop hhear
    obtain ⟨hslot, hstate⟩ := reads_step hop hs
    rw [hhear]
    refine ⟨?_, ?_, ?_, ?_, fun e₀ he₀ => (h.past e₀ he₀).trans (clock_step hs)⟩
    · rw [hslot]
      exact h.sent
    · rw [hstate]
      exact h.last
    · rw [hstate]
      exact h.message
    · rw [hstate]
      exact h.echo
  cases op with
  | enter j => exact hreads rfl rfl
  | resume j => exact hreads rfl rfl
  | cancel j => exact hreads rfl rfl
  | readGap j sendGapSeconds r => exact hreads rfl rfl
  | turn j r => exact hreads rfl rfl
  | quiet j now => exact hreads rfl rfl
  | leave j => exact hreads rfl rfl
  | markSent j messageId now => cases hmark
  | bindMessage j messageId =>
    cases hs
    exact h.bind hw j messageId
  | noteRx now =>
    obtain ⟨hnow, heq⟩ := Option.ite_none_right_eq_some.mp hs
    cases heq
    exact ⟨h.sent, h.last, h.message, h.echo, fun e₀ he₀ => (h.past e₀ he₀).trans hnow⟩
  | noteEcho messageId now =>
    obtain ⟨hnow, heq⟩ := Option.ite_none_right_eq_some.mp hs
    cases heq
    exact h.noteEcho hnow messageId

/-! ### Runs -/

/-- **The pacing holds in a whole run.** -/
theorem Runs.spaced {h : List (Event World Op)} (r : Runs w h w') (hg : 0 < g)
    (hgap : ∀ e ∈ h, e.label.GapIs g) (hw : w.Spaced g) : w'.Spaced g :=
  Run.invariant (P := fun w => w.Spaced g) (C := fun e => e.label.GapIs g) r hgap
    (fun _ hs hC hw => spaced_step hg hC hs hw) hw

/-- The fields follow the last send until the next one. -/
theorem Runs.follows {h : List (Event World Op)} (r : Runs w h w') (hg : 0 < g)
    (hgap : ∀ e ∈ h, e.label.GapIs g) (hmark : ∀ e ∈ h, e.label.marks = false) (hw : w.Spaced g)
    (hf : Follows i t s w) :
    Follows i t ((h.map Event.label).foldl (Heard.hear i) s) w' := by
  have hboth := Run.history (P := fun h w => w.Spaced g ∧
      Follows i t ((h.map Event.label).foldl (Heard.hear i) s) w)
    (C := fun e => e.label.GapIs g ∧ e.label.marks = false) r
    (fun e he => ⟨hgap e he, hmark e he⟩) ⟨hw, hf⟩
    (by
      intro h e hs hC hw
      refine ⟨spaced_step hg hC.1 hs hw.1, ?_⟩
      rw [List.map_append, List.foldl_append]
      exact follows_step hC.2 hs hw.1 hw.2)
  exact hboth.2

end World

end RtfmEv.SendPacer
