import RtfmEv.CompanionBridge.Server
import RtfmEv.DirectMessage.FirstSend

/-!
# What happens to a registered token

The frames made for a message are followed from where they are spawned to where
they are written: for its own session they are SENT and then one confirmation,
and for any other there are none. `Sent` says so, and every step keeps it.
-/

namespace RtfmEv.CompanionBridge

open RtfmEv.Lib RtfmEv.DirectMessage

/-! ### The frames made for a message -/

/-- The frames of the writes to a session that have not started. -/
def spawnedTo (c : ℕ) (l : List (ℕ × Frame)) : List Frame :=
  (l.filter (fun x => x.1 == c)).map Prod.snd

/-- The frames made for a message on their way to a session, oldest first. -/
def framesFor (m c : ℕ) (b : BridgeState) : List Frame :=
  ((b.writers c).written ++ (b.writers c).waiting ++ spawnedTo c b.spawned).filter
    (fun frame => frame.message == some m)

theorem spawnedTo_append (c c' : ℕ) (frame : Frame) (l : List (ℕ × Frame)) :
    spawnedTo c (l ++ [(c', frame)]) = spawnedTo c l ++ if c' = c then [frame] else [] := by
  unfold spawnedTo
  rw [List.filter_append, List.map_append]
  by_cases hc : c' = c <;> simp [hc]

theorem spawnedTo_cons (c c' : ℕ) (frame : Frame) (l : List (ℕ × Frame)) :
    spawnedTo c ((c', frame) :: l) = (if c' = c then [frame] else []) ++ spawnedTo c l := by
  unfold spawnedTo
  by_cases hc : c' = c <;> simp [hc]

namespace BridgeState

variable {c m c' : ℕ} {b' b : BridgeState}

theorem framesFor_congr (hwriters : b'.writers = b.writers)
    (hspawned : b'.spawned = b.spawned) : framesFor m c b' = framesFor m c b := by
  unfold framesFor
  rw [hwriters, hspawned]

/-- A spawned frame comes last. -/
theorem framesFor_spawn (m c c' : ℕ) (frame : Frame) (b : BridgeState) :
    framesFor m c (b.spawn c' frame) =
      framesFor m c b ++ if c' = c ∧ frame.message = some m then [frame] else [] := by
  unfold framesFor spawn
  dsimp only
  rw [spawnedTo_append, ← List.append_assoc, List.filter_append]
  by_cases hc : c' = c <;> by_cases hm : frame.message = some m <;> simp [hc, hm]

theorem framesFor_write_of_ne (c c' : ℕ) {frame : Frame} (hframe : frame.message ≠ some m)
    (b : BridgeState) : framesFor m c (b.write c' frame) = framesFor m c b := by
  unfold write
  split
  · unfold framesFor setWriter
    by_cases hc : c = c'
    · subst hc
      simp [hframe]
    · simp [Function.update_of_ne hc]
  · rfl

theorem framesFor_write_of_nil {frame : Frame} (hframe : frame.message = some m) (h : framesFor m c b = []) :
    framesFor m c (b.write c' frame) = if c' = c ∧ c ∈ b.sessions then [frame] else [] := by
  unfold write
  split
  · rename_i hmem
    unfold framesFor at h ⊢
    unfold setWriter
    by_cases hc : c = c'
    · subst hc
      simp only [List.filter_append, List.append_eq_nil_iff] at h
      simp [hframe, h.1.1, h.1.2, h.2, hmem]
    · have hne : ¬ (c' = c ∧ c ∈ b.sessions) := fun hboth => hc hboth.1.symm
      rw [if_neg hne]
      simpa [Function.update_of_ne hc] using h
  · rename_i hmem
    rw [h, if_neg]
    rintro ⟨rfl, hin⟩
    exact hmem hin

/-- A write that starts keeps its place, unless its session has gone. -/
theorem framesFor_startWrite (c : ℕ) (h : b.startWrite = some b') :
    framesFor m c b' = framesFor m c b ∨
      (c ∉ b.sessions ∧ (framesFor m c b').Sublist (framesFor m c b)) := by
  unfold startWrite at h
  split at h
  · cases h
  rename_i c' frame rest hspawned
  cases h
  have hdrop : (framesFor m c { b with spawned := rest }).Sublist (framesFor m c b) := by
    unfold framesFor
    refine List.Sublist.filter _ (List.Sublist.append_left ?_ _)
    rw [hspawned, spawnedTo_cons]
    exact List.sublist_append_right _ _
  by_cases hc : c' = c
  · subst hc
    by_cases hmem : c' ∈ b.sessions
    · left
      simp only [write, hmem, if_true, framesFor, setWriter, Function.update_self, hspawned,
        spawnedTo_cons, List.append_assoc]
    · right
      refine ⟨hmem, ?_⟩
      rw [write, if_neg hmem]
      exact hdrop
  · left
    have hsame : framesFor m c { b with spawned := rest } = framesFor m c b := by
      unfold framesFor
      rw [hspawned, spawnedTo_cons, if_neg hc, List.nil_append]
    rw [← hsame]
    unfold write
    split
    · have hne : c ≠ c' := fun heq => hc heq.symm
      simp only [framesFor, setWriter, Function.update_of_ne hne]
    · rfl

theorem framesFor_acquire (c : ℕ) (h : b.acquire c' = some b') :
    framesFor m c b' = framesFor m c b := by
  unfold acquire at h
  split at h
  · rename_i frame rest _ hwaiting
    cases h
    unfold framesFor setWriter
    by_cases hc : c = c'
    · subst hc
      simp [hwaiting]
    · simp [Function.update_of_ne hc]
  · cases h

theorem framesFor_release (m c c' : ℕ) (b : BridgeState) :
    framesFor m c (b.setWriter c' { b.writers c' with draining := none }) = framesFor m c b := by
  unfold framesFor setWriter
  by_cases hc : c = c'
  · subst hc
    simp
  · simp [Function.update_of_ne hc]

/-! ### The parts of a step that leave the rest alone -/

theorem write_frame (c : ℕ) (frame : Frame) (b : BridgeState) :
    (b.write c frame).dm = b.dm ∧ (b.write c frame).acks = b.acks ∧
      (b.write c frame).sends = b.sends ∧ (b.write c frame).sessions = b.sessions ∧
        (b.write c frame).lastSession = b.lastSession := by
  unfold write setWriter
  split <;> exact ⟨rfl, rfl, rfl, rfl, rfl⟩

theorem onAcked_frame (m : ℕ) (b : BridgeState) :
    (b.onAcked m).dm = b.dm ∧ (b.onAcked m).sends = b.sends ∧
      (b.onAcked m).sessions = b.sessions ∧ (b.onAcked m).lastSession = b.lastSession ∧
        (b.onAcked m).monotonic = b.monotonic := by
  unfold onAcked spawn
  split
  · exact ⟨rfl, rfl, rfl, rfl, rfl⟩
  · dsimp only
    split <;> exact ⟨rfl, rfl, rfl, rfl, rfl⟩

theorem onAcked_of_ne {m' : ℕ} (hm : m ≠ m') (b : BridgeState) :
    (b.onAcked m').acks.get m = b.acks.get m ∧
      ∀ c, framesFor m c (b.onAcked m') = framesFor m c b := by
  unfold onAcked
  split
  · exact ⟨rfl, fun _ => rfl⟩
  rename_i e he
  dsimp only
  split
  · refine ⟨Table.get_erase_of_ne _ hm, fun c => ?_⟩
    rw [framesFor_spawn, if_neg, List.append_nil]
    · exact framesFor_congr rfl rfl
    · rintro ⟨_, hmessage⟩
      exact hm (Option.some.inj hmessage).symm
  · exact ⟨Table.get_erase_of_ne _ hm, fun c => framesFor_congr rfl rfl⟩

theorem onAcked_of_none (h : b.acks.get m = none) : b.onAcked m = b := by
  unfold onAcked
  rw [h]

theorem close_frame (c : ℕ) (b : BridgeState) :
    (b.close c).dm = b.dm ∧ (b.close c).sends = b.sends ∧ (b.close c).lastSession = b.lastSession ∧
      ∀ m c', framesFor m c' (b.close c) = framesFor m c' b :=
  ⟨rfl, rfl, rfl, fun _ _ => framesFor_congr rfl rfl⟩

theorem mem_sessions_close : c' ∈ (b.close c).sessions ↔ c' ∈ b.sessions ∧ c' ≠ c := by
  simp [close]

end BridgeState

/-! ### A message whose token is registered -/

open BridgeState

/-- The token of a message is registered for a session. `R` says that an ACK of
the message was reported, `P` that its entry was pruned. -/
structure Sent (m c : ℕ) (token : Token) (R P : Prop) (b : BridgeState) : Prop where
  old : m ≤ b.dm.lastId
  known : c ≤ b.lastSession
  session : ∀ {d}, b.sends.get m = some d → d.session = c ∧ d.phase ≠ .sending
  others : ∀ {c'}, c' ≠ c → framesFor m c' b = []
  shape : ∃ flood rtt, (framesFor m c b).Sublist [.sent m flood token, .sendConfirmed m token rtt]
  entry : ∀ {e}, b.acks.get m = some e → e.session = c ∧ e.token = token ∧
    (c ∈ b.sessions → ∃ flood, framesFor m c b = [.sent m flood token])
  pending : R → c ∈ b.sessions → ∀ {e}, b.acks.get m = some e →
    ∃ d, b.sends.get m = some d ∧ d.phase = .writing true
  answered : ¬ P → c ∈ b.sessions → b.acks.get m = none →
    ∃ flood rtt, framesFor m c b = [.sent m flood token, .sendConfirmed m token rtt]

namespace Sent

variable {m c : ℕ} {token : Token} {R P : Prop} {b b' : BridgeState}

/-- What concerns the message stays as it is. -/
theorem congr (h : Sent m c token R P b) (hdm : b.dm.lastId ≤ b'.dm.lastId)
    (hlast : b.lastSession ≤ b'.lastSession) (hsends : b'.sends.get m = b.sends.get m)
    (hacks : b'.acks.get m = b.acks.get m) (hsessions : c ∈ b'.sessions ↔ c ∈ b.sessions)
    (hframes : ∀ c', framesFor m c' b' = framesFor m c' b) : Sent m c token R P b' := by
  refine ⟨h.old.trans hdm, h.known.trans hlast, ?_, ?_, ?_, ?_, ?_, ?_⟩
  · rw [hsends]
    exact h.session
  · intro c' hc
    rw [hframes]
    exact h.others hc
  · rw [hframes]
    exact h.shape
  · rw [hacks, hsessions, hframes]
    exact h.entry
  · rw [hacks, hsessions, hsends]
    exact h.pending
  · rw [hacks, hsessions, hframes]
    exact h.answered

theorem mono {R' Q : Prop} (h : Sent m c token R P b) (hR : R' → R) (hP : P → Q) :
    Sent m c token R' Q b :=
  ⟨h.old, h.known, h.session, h.others, h.shape, h.entry, fun hr => h.pending (hR hr),
    fun hp => h.answered (fun hp' => hp (hP hp'))⟩

theorem write (h : Sent m c token R P b) (c' : ℕ) {frame : Frame}
    (hframe : frame.message ≠ some m) : Sent m c token R P (b.write c' frame) := by
  obtain ⟨hdm, hacks, hsends, hsessions, hlast⟩ := write_frame c' frame b
  refine h.congr (by rw [hdm]) (by rw [hlast]) (by rw [hsends]) (by rw [hacks])
    (by rw [hsessions]) ?_
  exact fun c'' => framesFor_write_of_ne c'' c' hframe b

theorem close (h : Sent m c token R P b) (c' : ℕ) : Sent m c token R P (b.close c') := by
  obtain ⟨hdm, hsends, hlast, hframes⟩ := close_frame c' b
  have hacks : ∀ {e}, (b.close c').acks.get m = some e → b.acks.get m = some e ∧ c ≠ c' := by
    intro e he
    obtain ⟨he, hsession⟩ := Table.get_keep_eq_some.mp he
    rw [(h.entry he).1] at hsession
    exact ⟨he, bne_iff_ne.mp hsession⟩
  refine ⟨hdm ▸ h.old, hlast ▸ h.known, hsends ▸ h.session, ?_, ?_, ?_, ?_, ?_⟩
  · intro c'' hc
    rw [hframes]
    exact h.others hc
  · rw [hframes]
    exact h.shape
  · intro e he
    obtain ⟨hsession, htoken, hsent⟩ := h.entry (hacks he).1
    refine ⟨hsession, htoken, fun hmem => ?_⟩
    rw [hframes]
    exact hsent (mem_sessions_close.mp hmem).1
  · intro hr hmem e he
    rw [hsends]
    exact h.pending hr (mem_sessions_close.mp hmem).1 (hacks he).1
  · intro hp hmem hnone
    obtain ⟨hin, hne⟩ := mem_sessions_close.mp hmem
    rw [hframes]
    refine h.answered hp hin ?_
    -- an entry of the session would have stayed
    cases hentry : b.acks.get m with
    | none => rfl
    | some e =>
      have hpass : (e.session != c') = true := by
        rw [(h.entry hentry).1]
        exact bne_iff_ne.mpr hne
      have hkept : (b.close c').acks.get m = some e := Table.get_keep_of_pass hentry hpass
      rw [hnone] at hkept
      cases hkept

/-- **The confirmation.** An ACK takes the entry and spawns the frame. -/
theorem onAcked_self (h : Sent m c token R P b) : Sent m c token True P (b.onAcked m) := by
  cases hentry : b.acks.get m with
  | none =>
    rw [onAcked_of_none hentry]
    refine ⟨h.old, h.known, h.session, h.others, h.shape, h.entry, ?_, h.answered⟩
    intro _ _ e he
    rw [hentry] at he
    cases he
  | some e =>
    obtain ⟨hsession, htoken, hsent⟩ := h.entry hentry
    obtain ⟨hdm, hsends, hsessions, hlast, _⟩ := onAcked_frame m b
    have hgone : (b.onAcked m).acks.get m = none := by
      unfold BridgeState.onAcked
      rw [hentry]
      dsimp only
      split <;> exact Table.get_erase_self ..
    have hframes : ∀ c', framesFor m c' (b.onAcked m) = framesFor m c' b ++
        if c = c' ∧ c ∈ b.sessions then
          [.sendConfirmed m token ((b.monotonic - e.sentAt) * 1000)] else [] := by
      intro c'
      unfold BridgeState.onAcked
      rw [hentry]
      dsimp only
      rw [hsession, htoken]
      split
      · rename_i hmem
        rw [framesFor_spawn]
        simp only [Frame.message, and_true, hmem]
        exact congrArg (fun l => l ++ _) (framesFor_congr rfl rfl)
      · rename_i hmem
        simp only [hmem, and_false, if_false, List.append_nil]
        exact framesFor_congr rfl rfl
    refine ⟨hdm ▸ h.old, hlast ▸ h.known, hsends ▸ h.session, ?_, ?_, ?_, ?_, ?_⟩
    · intro c' hc
      rw [hframes, h.others hc, if_neg (fun hboth => hc hboth.1.symm), List.append_nil]
    · rw [hframes]
      by_cases hmem : c ∈ b.sessions
      · obtain ⟨flood, hsent⟩ := hsent hmem
        rw [hsent, if_pos ⟨rfl, hmem⟩]
        exact ⟨flood, _, List.Sublist.refl _⟩
      · rw [if_neg (fun hboth => hmem hboth.2), List.append_nil]
        exact h.shape
    · intro e' he'
      rw [hgone] at he'
      cases he'
    · intro _ _ e' he'
      rw [hgone] at he'
      cases he'
    · intro _ hmem _
      rw [hsessions] at hmem
      obtain ⟨flood, hsent⟩ := hsent hmem
      rw [hframes, hsent, if_pos ⟨rfl, hmem⟩]
      exact ⟨flood, _, rfl⟩

theorem onAcked_other (h : Sent m c token R P b) {m' : ℕ} (hm : m ≠ m') :
    Sent m c token R P (b.onAcked m') := by
  obtain ⟨hdm, hsends, hsessions, hlast, _⟩ := onAcked_frame m' b
  obtain ⟨hacks, hframes⟩ := onAcked_of_ne hm b
  exact h.congr (by rw [hdm]) (by rw [hlast]) (by rw [hsends]) hacks (by rw [hsessions]) hframes

/-- A report: of this message it is remembered in `R`. -/
theorem onEvent (h : Sent m c token R P b) (m' : ℕ) :
    Sent m c token (R ∨ m' = m) P (b.onEvent m') := by
  unfold BridgeState.onEvent
  split
  · rename_i hnone
    refine ⟨h.old, h.known, h.session, h.others, h.shape, h.entry, ?_, h.answered⟩
    intro _ hmem
    rw [hnone] at hmem
    cases hmem
  · by_cases hm : m = m'
    · subst hm
      exact h.onAcked_self.mono (fun _ => trivial) id
    · refine (h.onAcked_other hm).mono ?_ id
      rintro (hr | heq)
      · exact hr
      · exact absurd heq.symm hm

theorem startWrite (h : Sent m c token R P b) (hstart : b.startWrite = some b') :
    Sent m c token R P b' := by
  have hkeeps : b'.dm = b.dm ∧ b'.acks = b.acks ∧ b'.sends = b.sends ∧
      b'.sessions = b.sessions ∧ b'.lastSession = b.lastSession := by
    unfold BridgeState.startWrite at hstart
    split at hstart
    · cases hstart
    · cases hstart
      exact write_frame ..
  obtain ⟨hdm, hacks, hsends, hsessions, hlast⟩ := hkeeps
  have hframes := fun c' => framesFor_startWrite (m := m) c' hstart
  have hothers : ∀ {c'}, c' ≠ c → framesFor m c' b' = [] := by
    intro c' hc
    rcases hframes c' with hs | ⟨_, hsub⟩
    · rw [hs, h.others hc]
    · rw [h.others hc] at hsub
      exact List.sublist_nil.mp hsub
  rcases hframes c with hs | ⟨hmem, hsub⟩
  · refine h.congr (by rw [hdm]) (by rw [hlast]) (by rw [hsends]) (by rw [hacks])
      (by rw [hsessions]) ?_
    intro c'
    by_cases hc : c' = c
    · rw [hc, hs]
    · rw [hothers hc, h.others hc]
  · -- the session has gone, so only the shape is left to show
    have hgone : c ∉ b'.sessions := hsessions ▸ hmem
    obtain ⟨flood, rtt, hshape⟩ := h.shape
    refine ⟨hdm ▸ h.old, hlast ▸ h.known, hsends ▸ h.session, hothers,
      ⟨flood, rtt, hsub.trans hshape⟩, ?_, fun _ hin => absurd hin hgone,
      fun _ hin => absurd hin hgone⟩
    intro e he
    rw [hacks] at he
    exact ⟨(h.entry he).1, (h.entry he).2.1, fun hin => absurd hin hgone⟩

theorem pruneAcks (h : Sent m c token R P b) :
    Sent m c token R (P ∨ ∃ e, b.acks.get m = some e ∧ e.stale b.monotonic = true)
      b.pruneAcks := by
  have hframes : ∀ c', framesFor m c' b.pruneAcks = framesFor m c' b :=
    fun c' => framesFor_congr rfl rfl
  have hacks : ∀ {e}, b.pruneAcks.acks.get m = some e → b.acks.get m = some e :=
    fun he => (Table.get_keep_eq_some.mp he).1
  refine ⟨h.old, h.known, h.session, ?_, ?_, ?_, ?_, ?_⟩
  · intro c' hc
    rw [hframes]
    exact h.others hc
  · rw [hframes]
    exact h.shape
  · intro e he
    rw [hframes]
    exact h.entry (hacks he)
  · exact fun hr hmem e he => h.pending hr hmem (hacks he)
  · intro hp hmem hnone
    rw [hframes]
    refine h.answered (fun hp' => hp (Or.inl hp')) hmem ?_
    cases hentry : b.acks.get m with
    | none => rfl
    | some e =>
      refine absurd (Or.inr ⟨e, hentry, ?_⟩) hp
      by_contra hfresh
      have hpass : (!e.stale b.monotonic) = true := by simpa using hfresh
      have hkept : b.pruneAcks.acks.get m = some e := Table.get_keep_of_pass hentry hpass
      rw [hnone] at hkept
      cases hkept

theorem sentWritten (h : Sent m c token R P b) {m' : ℕ} (hwritten : b.sentWritten m' = some b') :
    Sent m c token R P b' := by
  unfold BridgeState.sentWritten at hwritten
  split at hwritten
  · rename_i c' flood acked hsend
    split at hwritten
    · cases hwritten
      by_cases hm : m = m'
      · subst hm
        have hpending : R → c ∈ b.sessions → ∀ {e}, b.acks.get m = some e → acked = true := by
          intro hr hmem e he
          obtain ⟨d, hd, hphase⟩ := h.pending hr hmem he
          rw [hsend] at hd
          cases hd
          cases hphase
          rfl
        have herased : Sent m c token (R ∧ acked = false) P
            { b with sends := b.sends.erase m } := by
          have hframes : ∀ c', framesFor m c' { b with sends := b.sends.erase m } =
              framesFor m c' b := fun c' => framesFor_congr rfl rfl
          refine ⟨h.old, h.known, ?_, ?_, ?_, ?_, ?_, ?_⟩
          · intro d hd
            exact absurd rfl (Table.get_erase_eq_some hd).1
          · intro c'' hc
            rw [hframes]
            exact h.others hc
          · rw [hframes]
            exact h.shape
          · rw [hframes]
            exact h.entry
          · rintro ⟨hr, hacked⟩ hmem e he
            rw [hpending hr hmem he] at hacked
            cases hacked
          · rw [hframes]
            exact h.answered
        cases acked with
        | true => exact herased.onAcked_self.mono (fun _ => trivial) id
        | false => exact herased.mono (fun hr => ⟨hr, rfl⟩) id
      · have herased : Sent m c token R P { b with sends := b.sends.erase m' } :=
          h.congr (Nat.le_refl _) (Nat.le_refl _) (Table.get_erase_of_ne _ hm) rfl Iff.rfl
            (fun _ => framesFor_congr rfl rfl)
        cases acked with
        | true => exact herased.onAcked_other hm
        | false => exact herased
    · cases hwritten
  · cases hwritten

/-- Another call of `_send_direct` goes on. -/
theorem sendEnded (h : Sent m c token R P b) (m' : ℕ) (result : SendResult) (token' : Token) :
    Sent m c token R
      (P ∨ ((∃ d, b.sends.get m' = some d ∧ d.phase = .sending ∧ result ≠ .raised) ∧
        ∃ e, b.acks.get m = some e ∧ e.stale b.monotonic = true)) (b.sendEnded m' result token') := by
  unfold BridgeState.sendEnded
  split
  · rename_i c' flood acked hsend
    have hm : m ≠ m' := by
      rintro rfl
      exact (h.session hsend).2 rfl
    have hregistered : Sent m c token R P
        { b with acks := b.acks.set m' ⟨c', token', b.monotonic⟩ } :=
      h.congr (Nat.le_refl _) (Nat.le_refl _) rfl (Table.get_set_of_ne _ _ hm) Iff.rfl
        (fun _ => framesFor_congr rfl rfl)
    have hframe : Frame.message (.sent m' flood token') ≠ some m := by
      intro heq
      exact hm (Option.some.inj heq).symm
    have hpruned := hregistered.pruneAcks.mono (Q := P ∨
      ((∃ d, b.sends.get m' = some d ∧ d.phase = .sending ∧ SendResult.returned acked ≠ .raised) ∧
        ∃ e, b.acks.get m = some e ∧ e.stale b.monotonic = true)) id (by
      rintro (hp | ⟨e, he, hstale⟩)
      · exact Or.inl hp
      · rw [Table.get_set_of_ne _ _ hm] at he
        exact Or.inr ⟨⟨_, hsend, rfl, by simp⟩, e, he, hstale⟩)
    refine Sent.write ?_ c' hframe
    exact hpruned.congr (Nat.le_refl _) (Nat.le_refl _) (Table.get_set_of_ne _ _ hm) rfl Iff.rfl
      (fun _ => framesFor_congr rfl rfl)
  · rename_i c' flood hsend
    have hm : m ≠ m' := by
      rintro rfl
      exact (h.session hsend).2 rfl
    have herased : Sent m c token R P { b with sends := b.sends.erase m' } :=
      h.congr (Nat.le_refl _) (Nat.le_refl _) (Table.get_erase_of_ne _ hm) rfl Iff.rfl
        (fun _ => framesFor_congr rfl rfl)
    exact (herased.write c' (by simp [Frame.message])).mono id Or.inl
  · exact h.mono id Or.inl

end Sent

/-! ### What a step registers, reports and prunes -/

/-- The message, session and token that a step registers. -/
def registration (ev : BridgeEvent) : Option (ℕ × ℕ × Token) :=
  match ev.label with
  | .dm op token =>
    match sendResult ev.pre.dm op with
    | some (m, .returned _) =>
      match ev.pre.sends.get m with
      | some ⟨c, _, .sending⟩ => some (m, c, token)
      | _ => none
    | _ => none
  | _ => none

/-- The step reports the message as acked: an ACK of it is counted, or a copy of it
is heard while its token is registered. -/
def reports (m : ℕ) (ev : BridgeEvent) : Bool :=
  match ev.label with
  | .dm op _ => decide (acked op = some m)
  | .echo m' => decide (m' = m) && (ev.pre.acks.get m).isSome
  | _ => false

/-- The step prunes the entry of the message: a token is registered and the entry
is too old. -/
def prunes (m : ℕ) (ev : BridgeEvent) : Bool :=
  (registration ev).isSome && (ev.pre.acks.get m).any (fun e => e.stale ev.pre.monotonic)

theorem prunes_iff {m : ℕ} {ev : BridgeEvent} : prunes m ev = true ↔
    (registration ev).isSome = true ∧
      ∃ e, ev.pre.acks.get m = some e ∧ e.stale ev.pre.monotonic = true := by
  unfold prunes
  rw [Bool.and_eq_true, Option.any_eq_true]

/-- The report of a step on the direct messages. -/
def reportStep (op : DmOp) (dm : DmState) (b : BridgeState) : BridgeState :=
  match acked op with
  | some m => onEvent m { b with dm := dm }
  | none => { b with dm := dm }

theorem dmStep_eq (op : DmOp) (token : Token) (dm : DmState) (b : BridgeState) :
    b.dmStep op token dm =
      match sendResult b.dm op with
      | some (m, result) => (reportStep op dm b).sendEnded m result token
      | none => reportStep op dm b := rfl

theorem reportStep_frame (op : DmOp) (dm : DmState) (b : BridgeState) :
    (reportStep op dm b).dm = dm ∧ (reportStep op dm b).sends = b.sends ∧
      (reportStep op dm b).sessions = b.sessions ∧
        (reportStep op dm b).lastSession = b.lastSession ∧
          (reportStep op dm b).monotonic = b.monotonic := by
  unfold reportStep onEvent
  split
  · split
    · exact ⟨rfl, rfl, rfl, rfl, rfl⟩
    · exact onAcked_frame ..
  · exact ⟨rfl, rfl, rfl, rfl, rfl⟩

theorem dmStep_dm (op : DmOp) (token : Token) (dm : DmState) (b : BridgeState) :
    (b.dmStep op token dm).dm = dm := by
  rw [dmStep_eq]
  have hreport := (reportStep_frame op dm b).1
  split
  · unfold sendEnded
    split
    · exact (write_frame ..).1.trans hreport
    · exact (write_frame ..).1.trans hreport
    · exact hreport
  · exact hreport

theorem acks_reportStep {op : DmOp} {dm : DmState} {b : BridgeState} {m : ℕ} {e : AckEntry}
    (he : (reportStep op dm b).acks.get m = some e) : b.acks.get m = some e := by
  unfold reportStep onEvent onAcked spawn at he
  split at he
  · split at he
    · exact he
    split at he
    · exact he
    dsimp only at he
    split at he
    · exact (Table.get_erase_eq_some he).2
    · exact (Table.get_erase_eq_some he).2
  · exact he

section

variable {m : ℕ} {ev : BridgeEvent}

/-- **A registered message.** Every step keeps what is known of it. -/
theorem Sent.step {c : ℕ} {token : Token} {R P : Prop} (h : Sent m c token R P ev.pre)
    (hstep : BridgeStep ev.pre ev.label ev.post) :
    Sent m c token (R ∨ reports m ev = true) (P ∨ prunes m ev = true) ev.post ∧
      (registration ev).map Prod.fst ≠ some m := by
  obtain ⟨b, op, b'⟩ := ev
  dsimp only at h hstep ⊢
  unfold BridgeStep at hstep
  have hquiet : (∀ op' token', op ≠ .dm op' token') → (∀ m', op ≠ .echo m') →
      Sent m c token R P b' →
      Sent m c token (R ∨ reports m ⟨b, op, b'⟩ = true) (P ∨ prunes m ⟨b, op, b'⟩ = true) b' ∧
        (registration ⟨b, op, b'⟩).map Prod.fst ≠ some m := by
    intro hop hecho h'
    cases op with
    | dm op' token' => exact absurd rfl (hop op' token')
    | echo m' => exact absurd rfl (hecho m')
    | _ => exact ⟨h'.mono (fun hr => hr.resolve_right (by simp [reports])) Or.inl, by
        simp [registration]⟩
  cases op with
  | connect c' =>
    refine hquiet (by simp) (by simp) ?_
    simp only [BridgeOp.apply] at hstep
    split at hstep
    · rename_i hnew
      cases hstep
      have hne : c ≠ c' := by
        rintro rfl
        exact absurd h.known (Nat.not_le.mpr hnew)
      refine h.congr (Nat.le_refl _) (Nat.le_of_lt hnew) rfl rfl ?_
        (fun _ => framesFor_congr rfl rfl)
      simp [hne]
    · cases hstep
  | close c' =>
    cases hstep
    exact hquiet (by simp) (by simp) (h.close c')
  | advance now =>
    refine hquiet (by simp) (by simp) ?_
    simp only [BridgeOp.apply] at hstep
    split at hstep
    · cases hstep
      exact h.congr (Nat.le_refl _) (Nat.le_refl _) rfl rfl Iff.rfl
        (fun _ => framesFor_congr rfl rfl)
    · cases hstep
  | answer c' =>
    cases hstep
    exact hquiet (by simp) (by simp) (h.write c' (by simp [Frame.message]))
  | push c' =>
    cases hstep
    refine hquiet (by simp) (by simp) (h.congr (Nat.le_refl _) (Nat.le_refl _) rfl rfl Iff.rfl ?_)
    intro c''
    rw [framesFor_spawn]
    simp [Frame.message]
  | sendDirect c' m' flood =>
    refine hquiet (by simp) (by simp) ?_
    simp only [BridgeOp.apply, sendDirect] at hstep
    split at hstep
    · obtain ⟨dm, hcreate, heq⟩ := Option.map_eq_some_iff.mp hstep
      cases heq
      have hid := @DmState.lastId_mono ⟨b.dm, .create m', dm⟩ hcreate
      have hne : m ≠ m' := by
        rintro rfl
        exact absurd h.old (Nat.not_le.mpr (DmState.create_spec hcreate).1)
      exact h.congr hid (Nat.le_refl _) (Table.get_set_of_ne _ _ hne) rfl Iff.rfl
        (fun _ => framesFor_congr rfl rfl)
    · cases hstep
  | echo m' =>
    cases hstep
    refine ⟨(h.onEvent m').mono ?_ Or.inl, by simp [registration]⟩
    rintro (hr | hreports)
    · exact Or.inl hr
    · refine Or.inr ?_
      simp only [reports, Bool.and_eq_true, decide_eq_true_eq] at hreports
      exact hreports.1
  | startWrite => exact hquiet (by simp) (by simp) (h.startWrite hstep)
  | acquire c' =>
    refine hquiet (by simp) (by simp) ?_
    have hkeeps : b'.dm = b.dm ∧ b'.acks = b.acks ∧ b'.sends = b.sends ∧
        b'.sessions = b.sessions ∧ b'.lastSession = b.lastSession := by
      simp only [BridgeOp.apply, BridgeState.acquire] at hstep
      split at hstep
      · cases hstep
        exact ⟨rfl, rfl, rfl, rfl, rfl⟩
      · cases hstep
    obtain ⟨hdm, hacks, hsends, hsessions, hlast⟩ := hkeeps
    exact h.congr (by rw [hdm]) (by rw [hlast]) (by rw [hsends]) (by rw [hacks])
      (by rw [hsessions]) (fun c'' => framesFor_acquire c'' hstep)
  | drained c' failed =>
    refine hquiet (by simp) (by simp) ?_
    simp only [BridgeOp.apply, drained] at hstep
    split at hstep
    · cases hstep
    cases hstep
    have hreleased : Sent m c token R P
        (b.setWriter c' { b.writers c' with draining := none }) :=
      h.congr (Nat.le_refl _) (Nat.le_refl _) rfl rfl Iff.rfl
        (fun c'' => framesFor_release m c'' c' b)
    cases failed with
    | true => exact hreleased.close c'
    | false => exact hreleased
  | sentWritten m' => exact hquiet (by simp) (by simp) (h.sentWritten hstep)
  | dm op token' =>
    obtain ⟨dm, hdm, rfl⟩ := Option.map_eq_some_iff.mp hstep
    have hid := @DmState.lastId_mono ⟨b.dm, op, dm⟩ hdm
    have hmoved : Sent m c token R P { b with dm := dm } :=
      h.congr hid (Nat.le_refl _) rfl rfl Iff.rfl (fun _ => framesFor_congr rfl rfl)
    have hreport : Sent m c token (R ∨ acked op = some m) P (reportStep op dm b) := by
      unfold reportStep
      split
      · rename_i m' hacked
        refine (hmoved.onEvent m').mono ?_ id
        rw [hacked, Option.some.injEq]
        exact id
      · rename_i hacked
        refine hmoved.mono ?_ id
        rw [hacked]
        simp
    obtain ⟨_, hsends, _, _, hclock⟩ := reportStep_frame op dm b
    have hregistration : (registration ⟨b, .dm op token', b.dmStep op token' dm⟩).map Prod.fst ≠
        some m := by
      unfold registration
      dsimp only
      split
      · split
        · rename_i hsend
          intro heq
          cases Option.some.inj heq
          exact (h.session hsend).2 rfl
        · simp
      · simp
    refine ⟨?_, hregistration⟩
    rw [dmStep_eq]
    have hlabel : reports m ⟨b, .dm op token', b.dmStep op token' dm⟩ = true ↔
        acked op = some m := decide_eq_true_iff
    rw [← dmStep_eq op token' dm b, hlabel, dmStep_eq]
    cases hresult : sendResult b.dm op with
    | none => exact hreport.mono id Or.inl
    | some r =>
      obtain ⟨m', result⟩ := r
      refine (hreport.sendEnded m' result token').mono id ?_
      rintro (hp | ⟨⟨⟨c', flood, phase⟩, hd, hphase, hresult'⟩, e, he, hstale⟩)
      · exact Or.inl hp
      · refine Or.inr (prunes_iff.mpr ⟨?_, e, acks_reportStep he, hclock ▸ hstale⟩)
        rw [hsends] at hd
        dsimp only at hphase
        subst hphase
        cases result with
        | raised => exact absurd rfl hresult'
        | returned acked => simp [registration, hresult, hd]

end

end RtfmEv.CompanionBridge
