import RtfmEv.CompanionBridge.SentToken

/-!
# Every acked message of a session is confirmed

A message has no token while its send is awaited, and no ACK of it is reported
then unless the send counts one itself and returns the message as acked. With the
registration it becomes `Sent`.
-/

namespace RtfmEv.CompanionBridge

open RtfmEv.Lib RtfmEv.DirectMessage BridgeState

/-! ### A message whose token is not registered -/

/-- The message has no token. While its first send is awaited no ACK of it was
reported, and so it is before its row is stored. -/
structure Unsent (m : ℕ) (R : Prop) (b : BridgeState) : Prop where
  entry : b.acks.get m = none
  frames : ∀ c, framesFor m c b = []
  sending : ∀ {d}, b.sends.get m = some d →
    d.phase = .sending ∧ d.session ≤ b.lastSession ∧ m ≤ b.dm.lastId ∧ b.dm.Unmatched m ∧ ¬ R
  unused : b.dm.lastId < m → b.dm.Unused m ∧ b.sends.get m = none ∧ ¬ R

namespace Unsent

variable {m : ℕ} {R : Prop} {b b' : BridgeState}

theorem congr (h : Unsent m R b) (hdm : b'.dm = b.dm) (hlast : b.lastSession ≤ b'.lastSession)
    (hsends : b'.sends.get m = b.sends.get m) (hacks : b'.acks.get m = b.acks.get m)
    (hframes : ∀ c, framesFor m c b' = framesFor m c b) : Unsent m R b' := by
  refine ⟨hacks.trans h.entry, fun c => (hframes c).trans (h.frames c), ?_, ?_⟩
  · intro d hd
    rw [hsends] at hd
    obtain ⟨hphase, hsession, hid, hunmatched, hr⟩ := h.sending hd
    rw [hdm]
    exact ⟨hphase, hsession.trans hlast, hid, hunmatched, hr⟩
  · rw [hdm, hsends]
    exact h.unused

theorem write (h : Unsent m R b) (c : ℕ) {frame : Frame} (hframe : frame.message ≠ some m) :
    Unsent m R (b.write c frame) := by
  obtain ⟨hdm, hacks, hsends, _, hlast⟩ := write_frame c frame b
  exact h.congr hdm (Nat.le_of_eq hlast.symm) (by rw [hsends]) (by rw [hacks])
    (fun c' => framesFor_write_of_ne c' c hframe b)

theorem onAcked (h : Unsent m R b) {m' : ℕ} (hm : m ≠ m') : Unsent m R (b.onAcked m') := by
  obtain ⟨hdm, hsends, _, hlast, _⟩ := onAcked_frame m' b
  obtain ⟨hacks, hframes⟩ := onAcked_of_ne hm b
  exact h.congr hdm (Nat.le_of_eq hlast.symm) (by rw [hsends]) hacks hframes

theorem onEvent (h : Unsent m R b) (m' : ℕ) : Unsent m R (b.onEvent m') := by
  unfold BridgeState.onEvent
  split
  · exact h
  by_cases hm : m = m'
  · subst hm
    rw [onAcked_of_none h.entry]
    exact h
  · exact h.onAcked hm

theorem keep (h : Unsent m R b) (p : AckEntry → Bool) (l : List ℕ) :
    Unsent m R { b with
      sessions := l
      acks := b.acks.keep p } := by
  refine h.congr rfl (Nat.le_refl _) rfl ?_ (fun _ => framesFor_congr rfl rfl)
  rw [h.entry, Option.eq_none_iff_forall_ne_some]
  intro e he
  have hentry := (Table.get_keep_eq_some.mp he).1
  rw [h.entry] at hentry
  cases hentry

/-- The row of a message is stored for a session. -/
theorem sendDirect {dm : DmState} (hsound : dm.Sound) (h : Unsent m R b) {c m' : ℕ} {flood : Bool}
    (hknown : c ≤ b.lastSession) (hcreate : DmStep b.dm (.create m') dm) :
    Unsent m R { b with
      dm := dm
      sends := b.sends.set m' ⟨c, flood, .sending⟩ } := by
  obtain ⟨hnew, hlast⟩ := DmState.create_spec hcreate
  have hregisters : ¬ DmState.Registers m ⟨b.dm, .create m', dm⟩ := by
    rintro ⟨_, _, hop, _⟩
    cases hop
  have hunmatched : b.dm.Unmatched m → dm.Unmatched m := fun hpre =>
    @DmState.Unmatched.step ⟨b.dm, .create m', dm⟩ m hpre hcreate hregisters
  refine ⟨h.entry, fun c' => (framesFor_congr rfl rfl).trans (h.frames c'), ?_, ?_⟩
  · intro d hd
    rcases Table.get_set_eq_some hd with ⟨rfl, rfl⟩ | ⟨_, hd⟩
    · obtain ⟨hunused, _, hr⟩ := h.unused hnew
      exact ⟨rfl, hknown, Nat.le_of_eq hlast.symm, hunmatched hunused.unmatched, hr⟩
    · obtain ⟨hphase, hsession, hid, hpre, hr⟩ := h.sending hd
      refine ⟨hphase, hsession, ?_, hunmatched hpre, hr⟩
      exact (hid.trans (Nat.le_of_lt hnew)).trans (Nat.le_of_eq hlast.symm)
  · intro hnew'
    dsimp only at hnew'
    rw [hlast] at hnew'
    obtain ⟨hunused, hsends, hr⟩ := h.unused (hnew.trans hnew')
    refine ⟨?_, (Table.get_set_of_ne _ _ (Nat.ne_of_gt hnew')).trans hsends, hr⟩
    exact @DmState.Unused.step ⟨b.dm, .create m', dm⟩ m hsound (fun _ => hunused) hcreate
      (by dsimp only; rw [hlast]; exact hnew')

theorem startWrite (h : Unsent m R b) (hstart : b.startWrite = some b') : Unsent m R b' := by
  have hframes : ∀ c, framesFor m c b' = [] := by
    intro c
    rcases framesFor_startWrite (m := m) c hstart with hs | ⟨_, hsub⟩
    · rw [hs, h.frames]
    · rw [h.frames] at hsub
      exact List.sublist_nil.mp hsub
  unfold BridgeState.startWrite at hstart
  split at hstart
  · cases hstart
  rename_i c frame rest _
  cases hstart
  obtain ⟨hdm, hacks, hsends, _, hlast⟩ := write_frame c frame { b with spawned := rest }
  exact h.congr hdm (Nat.le_of_eq hlast.symm) (by rw [hsends]) (by rw [hacks])
    (fun c => (hframes c).trans (h.frames c).symm)

theorem sentWritten (h : Unsent m R b) {m' : ℕ} (hwritten : b.sentWritten m' = some b') :
    Unsent m R b' := by
  unfold BridgeState.sentWritten at hwritten
  split at hwritten
  · rename_i c flood acked hsend
    have hm : m ≠ m' := by
      rintro rfl
      cases (h.sending hsend).1
    have herased : Unsent m R { b with sends := b.sends.erase m' } :=
      h.congr rfl (Nat.le_refl _) (Table.get_erase_of_ne _ hm) rfl
        (fun _ => framesFor_congr rfl rfl)
    split at hwritten
    · cases hwritten
      cases acked with
      | true => exact herased.onAcked hm
      | false => exact herased
    · cases hwritten
  · cases hwritten

/-- Another call of `_send_direct` goes on. -/
theorem sendEnded (h : Unsent m R b) {m' : ℕ} (hm : m ≠ m') (result : SendResult)
    (token : Token) : Unsent m R (b.sendEnded m' result token) := by
  unfold BridgeState.sendEnded
  split
  · rename_i c flood acked _
    have hregistered : Unsent m R { b with acks := b.acks.set m' ⟨c, token, b.monotonic⟩ } :=
      h.congr rfl (Nat.le_refl _) rfl (Table.get_set_of_ne _ _ hm)
        (fun _ => framesFor_congr rfl rfl)
    have hpruned : Unsent m R
        (BridgeState.pruneAcks { b with acks := b.acks.set m' ⟨c, token, b.monotonic⟩ }) :=
      hregistered.keep _ b.sessions
    have hframe : Frame.message (.sent m' flood token) ≠ some m := by
      intro heq
      exact hm (Option.some.inj heq).symm
    refine Unsent.write ?_ c hframe
    exact hpruned.congr rfl (Nat.le_refl _) (Table.get_set_of_ne _ _ hm) rfl
      (fun _ => framesFor_congr rfl rfl)
  · rename_i c flood _
    refine Unsent.write ?_ c (by simp [Frame.message])
    exact h.congr rfl (Nat.le_refl _) (Table.get_erase_of_ne _ hm) rfl
      (fun _ => framesFor_congr rfl rfl)
  · exact h

end Unsent

variable {c m : ℕ} {b : BridgeState}

/-- **Registration.** The send returned the message: the token is registered and
SENT is the only frame made for it. -/
theorem sent_sendReturned {R : Prop} {flood acked : Bool}
    (token : Token) (hframes : ∀ c, framesFor m c b = [])
    (hknown : c ≤ b.lastSession) (hid : m ≤ b.dm.lastId) (hacked : R → acked = true) :
    Sent m c token R False (b.sendReturned m acked token ⟨c, flood, .sending⟩) := by
  have hfresh : AckEntry.stale b.monotonic ⟨c, token, b.monotonic⟩ = false := by
    simp [AckEntry.stale]
  have hframes : ∀ c', framesFor m c' (b.sendReturned m acked token ⟨c, flood, .sending⟩) =
      if c = c' ∧ c' ∈ b.sessions then [.sent m flood token] else [] := by
    intro c'
    refine framesFor_write_of_nil rfl ?_
    exact (framesFor_congr rfl rfl).trans (hframes c')
  obtain ⟨hdm, hacks, hsends, hsessions, hlast⟩ := write_frame c (.sent m flood token)
    { pruneAcks { b with acks := b.acks.set m ⟨c, token, b.monotonic⟩ } with
      sends := b.sends.set m ⟨c, flood, .writing acked⟩ }
  have hentry : (b.sendReturned m acked token ⟨c, flood, .sending⟩).acks.get m =
      some ⟨c, token, b.monotonic⟩ := by
    refine (congrArg (fun T => Table.get T m) hacks).trans ?_
    exact Table.get_keep_of_pass (Table.get_set_self ..) (by rw [hfresh]; rfl)
  have hsend : (b.sendReturned m acked token ⟨c, flood, .sending⟩).sends.get m =
      some ⟨c, flood, .writing acked⟩ :=
    (congrArg (fun T => Table.get T m) hsends).trans (Table.get_set_self ..)
  have hmem : ∀ {c'}, c' ∈ (b.sendReturned m acked token ⟨c, flood, .sending⟩).sessions →
      c' ∈ b.sessions := by
    intro c' hc
    exact (congrArg (fun l => c' ∈ l) hsessions).mp hc
  refine ⟨?_, ?_, ?_, ?_, ?_, ?_, ?_, ?_⟩
  · exact (congrArg (fun s => m ≤ DmState.lastId s) hdm).mpr hid
  · exact (congrArg (fun n => c ≤ n) hlast).mpr hknown
  · intro d hd
    rw [hsend] at hd
    cases hd
    exact ⟨rfl, by simp⟩
  · intro c' hc
    rw [hframes, if_neg (fun hboth => hc hboth.1.symm)]
  · refine ⟨flood, 0, ?_⟩
    rw [hframes]
    split
    · exact List.Sublist.cons_cons _ (List.nil_sublist _)
    · exact List.nil_sublist _
  · intro e he
    rw [hentry] at he
    cases he
    refine ⟨rfl, rfl, fun hin => ⟨flood, ?_⟩⟩
    rw [hframes, if_pos ⟨rfl, hmem hin⟩]
  · intro hr _ e he
    exact ⟨_, hsend, by rw [hacked hr]⟩
  · intro _ _ hnone
    rw [hentry] at hnone
    cases hnone

/-- An ACK that is reported is counted for a credited message, or by a send that
ends. -/
theorem acked_cases {s s' : DmState} {op : DmOp} (hstep : DmStep s op s')
    (h : acked op = some m) : m ∈ s.acking ∨
      ((∃ t, s.tasks.get m = some t) ∧ sendResult s op = some (m, .returned true)) := by
  unfold acked at h
  split at h
  · cases h
    obtain ⟨t, ht, _⟩ := Option.bind_eq_some_iff.mp hstep
    exact Or.inr ⟨⟨t, ht⟩, rfl⟩
  · cases h
    simp only [DmStep, DmOp.apply, DmState.increment] at hstep
    split at hstep
    · rename_i hmem
      exact Or.inl hmem
    · cases hstep
  · cases h

section

variable {m : ℕ} {R : Prop} {b : BridgeState} {op : DmOp} {dm : DmState}

theorem Unsent.reportStep_frames (h : Unsent m R b) :
    (reportStep op dm b).acks.get m = none ∧ ∀ c, framesFor m c (reportStep op dm b) = [] := by
  have hentry : (reportStep op dm b).acks.get m = none := by
    rw [Option.eq_none_iff_forall_ne_some]
    intro e he
    have hpre := acks_reportStep he
    rw [h.entry] at hpre
    cases hpre
  refine ⟨hentry, fun c => ?_⟩
  have hmoved : framesFor m c { b with dm := dm } = [] :=
    (framesFor_congr rfl rfl).trans (h.frames c)
  unfold reportStep BridgeState.onEvent
  split
  · rename_i m' _
    split
    · exact hmoved
    by_cases hm : m = m'
    · subst hm
      rw [onAcked_of_none (by exact h.entry)]
      exact hmoved
    · rw [(onAcked_of_ne hm _).2]
      exact hmoved
  · exact hmoved

/-- Before its row is stored, a message stays unused by the steps of others. -/
theorem Unsent.unused_step (hsound : dm.Sound) (h : Unsent m R b) (hdm : DmStep b.dm op dm)
    (hnew : dm.lastId < m) :
    dm.Unused m ∧ b.sends.get m = none ∧ ¬ (R ∨ acked op = some m) := by
  have hold := lt_of_le_of_lt (@DmState.lastId_mono ⟨b.dm, op, dm⟩ hdm) hnew
  obtain ⟨hunused, hsends, hr⟩ := h.unused hold
  refine ⟨@DmState.Unused.step ⟨b.dm, op, dm⟩ m hsound (fun _ => hunused) hdm hnew, hsends, ?_⟩
  rintro (hr' | hacked)
  · exact hr hr'
  · rcases acked_cases hdm hacked with hmem | ⟨⟨t, ht⟩, _⟩
    · exact hunused.unmatched.acking hmem
    · rw [hunused.tasks] at ht
      cases ht

theorem Unsent.report (hsound : dm.Sound) (h : Unsent m R b) (hdm : DmStep b.dm op dm)
    (hopen : ∀ d, b.sends.get m = some d → ∀ result, sendResult b.dm op ≠ some (m, result)) :
    Unsent m (R ∨ acked op = some m) (reportStep op dm b) := by
  obtain ⟨hentry, hframes⟩ := @Unsent.reportStep_frames m R b op dm h
  obtain ⟨hdm', hsends, _, hlast, _⟩ := reportStep_frame op dm b
  refine ⟨hentry, hframes, ?_, ?_⟩
  · intro d hd
    rw [hsends] at hd
    obtain ⟨hphase, hsession, hid, hunmatched, hr⟩ := h.sending hd
    have hregisters : ¬ DmState.Registers m ⟨b.dm, op, dm⟩ := by
      rintro ⟨code, suggested, rfl, hb⟩
      refine hopen d hd (.returned false) ?_
      dsimp only at hb
      simp [sendResult, hb]
    rw [hlast, hdm']
    refine ⟨hphase, hsession, hid.trans (@DmState.lastId_mono ⟨b.dm, op, dm⟩ hdm),
      @DmState.Unmatched.step ⟨b.dm, op, dm⟩ m hunmatched hdm hregisters, ?_⟩
    rintro (hr' | hacked)
    · exact hr hr'
    · rcases acked_cases hdm hacked with hmem | ⟨_, hresult⟩
      · exact hunmatched.acking hmem
      · exact hopen d hd _ hresult
  · rw [hsends, hdm']
    exact h.unused_step hsound hdm

/-- A token is registered when the awaited send of its message returns. -/
theorem of_registration {token : Token} {b' : BridgeState} {r : ℕ × ℕ × Token}
    (h : registration ⟨b, .dm op token, b'⟩ = some r) :
    ∃ acked d, sendResult b.dm op = some (r.1, .returned acked) ∧ b.sends.get r.1 = some d := by
  unfold registration at h
  dsimp only at h
  split at h
  · rename_i hresult
    split at h
    · rename_i hsend
      cases h
      exact ⟨_, _, hresult, hsend⟩
    · cases h
  · cases h

/-- An operation on the direct messages registers the token of the message, or
leaves it without one. -/
theorem Unsent.dm_step (hsound : dm.Sound) (h : Unsent m R b) (hdm : DmStep b.dm op dm)
    (token : Token) :
    (Unsent m (R ∨ acked op = some m) (b.dmStep op token dm) ∧
        ∀ r, registration ⟨b, .dm op token, b.dmStep op token dm⟩ = some r → r.1 ≠ m) ∨
      ∃ c, registration ⟨b, .dm op token, b.dmStep op token dm⟩ = some (m, c, token) ∧
        Sent m c token (R ∨ acked op = some m) False (b.dmStep op token dm) := by
  have hclosed : (∀ d, b.sends.get m = some d → ∀ result, sendResult b.dm op ≠ some (m, result)) →
      Unsent m (R ∨ acked op = some m) (b.dmStep op token dm) ∧
        ∀ r, registration ⟨b, .dm op token, b.dmStep op token dm⟩ = some r → r.1 ≠ m := by
    intro hopen
    refine ⟨?_, ?_⟩
    swap
    · intro r hr heq
      obtain ⟨acked', d, hresult, hd⟩ := of_registration hr
      exact hopen d (heq ▸ hd) (.returned acked') (heq ▸ hresult)
    have hreport := h.report hsound hdm hopen
    rw [dmStep_eq]
    cases hresult : sendResult b.dm op with
    | none => exact hreport
    | some r =>
      obtain ⟨m', result⟩ := r
      dsimp only
      by_cases hm : m = m'
      · subst hm
        have hnone : b.sends.get m = none := by
          rw [Option.eq_none_iff_forall_ne_some]
          exact fun d hd => hopen d hd _ hresult
        unfold BridgeState.sendEnded
        rw [(reportStep_frame op dm b).2.1, hnone]
        exact hreport
      · exact hreport.sendEnded hm result token
  by_cases hopen : ∀ d, b.sends.get m = some d → ∀ result, sendResult b.dm op ≠ some (m, result)
  · exact Or.inl (hclosed hopen)
  -- the awaited send ends with this step
  push Not at hopen
  obtain ⟨⟨c, flood, phase⟩, hd, result, hresult⟩ := hopen
  obtain ⟨hphase, hsession, hid, _, hr⟩ := h.sending hd
  dsimp only at hphase hsession
  subst hphase
  obtain ⟨hentry, hframes⟩ := @Unsent.reportStep_frames m R b op dm h
  obtain ⟨hdm', hsends, _, hlast, _⟩ := reportStep_frame op dm b
  have hid' : m ≤ dm.lastId := hid.trans (@DmState.lastId_mono ⟨b.dm, op, dm⟩ hdm)
  have hended : b.dmStep op token dm = (reportStep op dm b).sendEnded m result token := by
    rw [dmStep_eq, hresult]
  have hd' : (reportStep op dm b).sends.get m = some ⟨c, flood, .sending⟩ := by rw [hsends, hd]
  cases result with
  | returned acked' =>
    right
    have hreturned : b.dmStep op token dm =
        (reportStep op dm b).sendReturned m acked' token ⟨c, flood, .sending⟩ := by
      rw [hended]
      simp only [BridgeState.sendEnded, hd']
    refine ⟨c, by simp [registration, hresult, hd], ?_⟩
    rw [hreturned]
    refine sent_sendReturned token hframes (hlast ▸ hsession)
      (by rw [hdm']; exact hid') ?_
    rintro (hr' | hacked)
    · exact absurd hr' hr
    · rcases acked_cases hdm hacked with hmem | ⟨_, hresult'⟩
      · obtain ⟨_, _, _, hunmatched, _⟩ := h.sending hd
        exact absurd hmem hunmatched.acking
      · rw [hresult] at hresult'
        cases hresult'
        rfl
  | raised =>
    left
    refine ⟨?_, ?_⟩
    swap
    · intro r hreg heq
      obtain ⟨acked', _, hresult', _⟩ := of_registration hreg
      rw [heq, hresult] at hresult'
      cases hresult'
    have hraised : b.dmStep op token dm =
        (reportStep op dm b).sendRaised m ⟨c, flood, .sending⟩ := by
      rw [hended]
      simp only [BridgeState.sendEnded, hd']
    rw [hraised]
    refine Unsent.write ?_ c (by simp [Frame.message])
    refine ⟨hentry, fun c' => (framesFor_congr rfl rfl).trans (hframes c'), ?_, ?_⟩
    · intro d hd
      exact absurd rfl (Table.get_erase_eq_some hd).1
    · intro hnew
      rw [hdm'] at hnew
      exact absurd hid' (Nat.not_le.mpr hnew)

end

variable {ev : BridgeEvent} {h : List BridgeEvent}

/-- **A message without a token.** Every step leaves it so, or registers one. -/
theorem Unsent.step {R : Prop} (hsound : ev.post.dm.Sound)
    (h : Unsent m R ev.pre) (hstep : BridgeStep ev.pre ev.label ev.post) :
    (Unsent m (R ∨ reports m ev = true) ev.post ∧ ∀ r, registration ev = some r → r.1 ≠ m) ∨
      ∃ c token, registration ev = some (m, c, token) ∧
        Sent m c token (R ∨ reports m ev = true) False ev.post := by
  obtain ⟨b, op, b'⟩ := ev
  dsimp only at hsound h hstep ⊢
  unfold BridgeStep at hstep
  have hquiet : (∀ op' token, op ≠ .dm op' token) → Unsent m R b' →
      (Unsent m (R ∨ reports m ⟨b, op, b'⟩ = true) b' ∧
        ∀ r, registration ⟨b, op, b'⟩ = some r → r.1 ≠ m) ∨
      ∃ c token, registration ⟨b, op, b'⟩ = some (m, c, token) ∧
        Sent m c token (R ∨ reports m ⟨b, op, b'⟩ = true) False b' := by
    intro hop h'
    cases op with
    | dm op' token => exact absurd rfl (hop op' token)
    | echo m' =>
      have hsilent : reports m ⟨b, .echo m', b'⟩ = false := by simp [reports, h.entry]
      rw [hsilent]
      exact Or.inl ⟨by simpa using h', by simp [registration]⟩
    | _ => exact Or.inl ⟨by simpa [reports] using h', by simp [registration]⟩
  cases op with
  | connect c =>
    refine hquiet (by simp) ?_
    simp only [BridgeOp.apply] at hstep
    split at hstep
    · rename_i hnew
      cases hstep
      exact h.congr rfl (Nat.le_of_lt hnew) rfl rfl (fun _ => framesFor_congr rfl rfl)
    · cases hstep
  | close c =>
    cases hstep
    exact hquiet (by simp) (h.keep _ _)
  | advance now =>
    refine hquiet (by simp) ?_
    simp only [BridgeOp.apply] at hstep
    split at hstep
    · cases hstep
      exact h.congr rfl (Nat.le_refl _) rfl rfl (fun _ => framesFor_congr rfl rfl)
    · cases hstep
  | answer c =>
    cases hstep
    exact hquiet (by simp) (h.write c (by simp [Frame.message]))
  | push c =>
    cases hstep
    refine hquiet (by simp) (h.congr rfl (Nat.le_refl _) rfl rfl ?_)
    intro c'
    rw [framesFor_spawn]
    simp [Frame.message]
  | sendDirect c m' flood =>
    refine hquiet (by simp) ?_
    simp only [BridgeOp.apply, BridgeState.sendDirect] at hstep
    split at hstep
    · rename_i hknown
      obtain ⟨dm, hcreate, heq⟩ := Option.map_eq_some_iff.mp hstep
      cases heq
      exact h.sendDirect hsound hknown hcreate
    · cases hstep
  | echo m' =>
    cases hstep
    exact hquiet (by simp) (h.onEvent m')
  | startWrite => exact hquiet (by simp) (h.startWrite hstep)
  | acquire c =>
    refine hquiet (by simp) ?_
    have hframes := fun c' => framesFor_acquire (m := m) c' hstep
    simp only [BridgeOp.apply, acquire] at hstep
    split at hstep
    · cases hstep
      exact h.congr rfl (Nat.le_refl _) rfl rfl hframes
    · cases hstep
  | drained c failed =>
    refine hquiet (by simp) ?_
    simp only [BridgeOp.apply, drained] at hstep
    split at hstep
    · cases hstep
    cases hstep
    have hreleased : Unsent m R (b.setWriter c { b.writers c with draining := none }) :=
      h.congr rfl (Nat.le_refl _) rfl rfl (fun c' => framesFor_release m c' c b)
    cases failed with
    | true => exact hreleased.keep _ _
    | false => exact hreleased
  | sentWritten m' => exact hquiet (by simp) (h.sentWritten hstep)
  | dm op token =>
    obtain ⟨dm, hdm, rfl⟩ := Option.map_eq_some_iff.mp hstep
    have hsound' : dm.Sound := by
      rw [← dmStep_dm op token dm b]
      exact hsound
    have hlabel : reports m ⟨b, .dm op token, b.dmStep op token dm⟩ = true ↔
        acked op = some m := decide_eq_true_iff
    rw [hlabel]
    rcases h.dm_step hsound' hdm token with h' | ⟨c, hreg, hsent⟩
    · exact Or.inl h'
    · exact Or.inr ⟨c, token, hreg, hsent⟩

/-! ### Runs -/

theorem sound_step (h : ev.pre.dm.Sound)
    (hstep : BridgeStep ev.pre ev.label ev.post) : ev.post.dm.Sound := by
  obtain ⟨b, op, b'⟩ := ev
  dsimp only at h hstep ⊢
  unfold BridgeStep at hstep
  cases op with
  | connect c | advance now =>
    simp only [BridgeOp.apply] at hstep
    split at hstep <;> cases hstep
    exact h
  | close c =>
    cases hstep
    exact h
  | push c =>
    cases hstep
    exact h
  | answer c =>
    cases hstep
    rw [(write_frame ..).1]
    exact h
  | sendDirect c m flood =>
    simp only [BridgeOp.apply, sendDirect] at hstep
    split at hstep
    · obtain ⟨dm, hcreate, heq⟩ := Option.map_eq_some_iff.mp hstep
      cases heq
      exact @DmState.Sound.step ⟨b.dm, .create m, dm⟩ h hcreate
    · cases hstep
  | echo m =>
    cases hstep
    unfold onEvent
    split
    · exact h
    · rw [(onAcked_frame ..).1]
      exact h
  | startWrite =>
    simp only [BridgeOp.apply, startWrite] at hstep
    split at hstep <;> cases hstep
    rw [(write_frame ..).1]
    exact h
  | acquire c =>
    simp only [BridgeOp.apply, acquire] at hstep
    split at hstep <;> cases hstep
    exact h
  | drained c failed =>
    simp only [BridgeOp.apply, drained] at hstep
    split at hstep <;> cases hstep
    cases failed <;> exact h
  | sentWritten m =>
    simp only [BridgeOp.apply, sentWritten] at hstep
    split at hstep
    · split at hstep
      · cases hstep
        split
        · rw [(onAcked_frame ..).1]
          exact h
        · exact h
      · cases hstep
    · cases hstep
  | dm op token =>
    obtain ⟨dm, hdm, rfl⟩ := Option.map_eq_some_iff.mp hstep
    rw [dmStep_dm]
    exact @DmState.Sound.step ⟨b.dm, op, dm⟩ h hdm

/-- What is known of a message after the events of a run. -/
structure Followed (m : ℕ) (h : List BridgeEvent) (b : BridgeState) : Prop where
  sound : b.dm.Sound
  stage : (Unsent m (∃ ev ∈ h, reports m ev = true) b ∧
      ∀ ev ∈ h, ∀ r, registration ev = some r → r.1 ≠ m) ∨
    ∃ c token, (∀ ev ∈ h, ∀ r, registration ev = some r → r.1 = m → r = (m, c, token)) ∧
      Sent m c token (∃ ev ∈ h, reports m ev = true) (∃ ev ∈ h, prunes m ev = true) b

theorem unsent_init (m : ℕ) (R : Prop) (hR : ¬ R) : Unsent m R {} where
  entry := rfl
  frames := fun _ => rfl
  sending := by simp
  unused := fun _ => ⟨⟨rfl, DmState.unmatched_init m⟩, rfl, hR⟩

theorem exists_mem_concat {α : Type*} {p : α → Prop} {l : List α} {a : α} :
    (∃ x ∈ l ++ [a], p x) ↔ (∃ x ∈ l, p x) ∨ p a := by
  simp [or_and_right, exists_or]

theorem forall_mem_concat {α : Type*} {p : α → Prop} {l : List α} {a : α} :
    (∀ x ∈ l ++ [a], p x) ↔ (∀ x ∈ l, p x) ∧ p a := by
  simp [or_imp, forall_and]

theorem Followed.step (hpre : Followed m h ev.pre) (hstep : BridgeStep ev.pre ev.label ev.post) :
    Followed m (h ++ [ev]) ev.post := by
  have hsound := sound_step hpre.sound hstep
  refine ⟨hsound, ?_⟩
  simp only [exists_mem_concat, forall_mem_concat]
  rcases hpre.stage with ⟨hunsent, hnone⟩ | ⟨c, token, hunique, hsent⟩
  · rcases hunsent.step hsound hstep with ⟨hpost, hreg⟩ | ⟨c, token, hreg, hpost⟩
    · exact Or.inl ⟨hpost, hnone, hreg⟩
    · refine Or.inr ⟨c, token, ⟨?_, ?_⟩, hpost.mono id False.elim⟩
      · exact fun ev' hev' r hr hm => absurd hm (hnone ev' hev' r hr)
      · intro r hr _
        rw [hreg] at hr
        exact (Option.some.inj hr).symm
  · obtain ⟨hpost, hreg⟩ := hsent.step hstep
    refine Or.inr ⟨c, token, ⟨hunique, ?_⟩, hpost⟩
    intro r hr hm
    rw [hr] at hreg
    exact absurd (congrArg some hm) hreg

theorem followed_of_run (r : Run BridgeStep {} h b) (m : ℕ) : Followed m h b := by
  refine r.history (P := Followed m) (C := fun _ => True) (fun _ _ => trivial) ?_
    (fun _ _ hstep _ hpre => hpre.step hstep)
  exact ⟨DmState.sound_init, Or.inl ⟨unsent_init m _ (by simp), by simp⟩⟩

/-! ### Until everything is written -/

/-- The call of `_send_direct` for the message has ended and no frame is on its
way to the session. -/
structure Settled (m c : ℕ) (b : BridgeState) : Prop where
  ended : b.sends.get m = none
  waiting : (b.writers c).waiting = []
  spawned : spawnedTo c b.spawned = []

/-- The steps that only finish what the bridge has begun for a session. -/
def Finishes (m c : ℕ) : BridgeOp → Prop
  | .startWrite => True
  | .acquire c' => c' = c
  | .drained c' failed => c' = c ∧ failed = false
  | .sentWritten m' => m' = m
  | _ => False

/-- How much is left of it. -/
def unfinished (m c : ℕ) (b : BridgeState) : ℕ :=
  3 * b.spawned.length + 2 * (b.writers c).waiting.length +
    (b.writers c).draining.toList.length + if (b.sends.get m).isSome then 4 else 0

theorem length_waiting_write (c c' : ℕ) (frame : Frame) (b : BridgeState) :
    ((b.write c' frame).writers c).waiting.length ≤ (b.writers c).waiting.length + 1 ∧
      ((b.write c' frame).writers c).draining = (b.writers c).draining ∧
        (b.write c' frame).spawned = b.spawned := by
  unfold BridgeState.write setWriter
  split
  · by_cases hc : c = c'
    · subst hc
      simp
    · simp [Function.update_of_ne hc]
  · simp

theorem length_spawned_onAcked (m : ℕ) (b : BridgeState) :
    (b.onAcked m).spawned.length ≤ b.spawned.length + 1 ∧ (b.onAcked m).writers = b.writers := by
  unfold BridgeState.onAcked spawn
  split
  · exact ⟨Nat.le_succ _, rfl⟩
  · dsimp only
    split
    · exact ⟨Nat.le_of_eq (List.length_append ..), rfl⟩
    · exact ⟨Nat.le_succ _, rfl⟩

theorem writer_setWriter (c : ℕ) (w : Writer) (b : BridgeState) :
    (b.setWriter c w).writers c = w := Function.update_self ..

/-- The call for the message does not wait for its send any more. -/
def Returned (m c : ℕ) (b : BridgeState) : Prop :=
  ∀ d, b.sends.get m = some d → d.session = c ∧ d.phase ≠ .sending

/-- **Progress.** While something is left, one of its steps is possible. -/
theorem exists_finishing_step (hreturned : Returned m c b)
    (hopen : ¬ Settled m c b) : ∃ op b', Finishes m c op ∧ BridgeStep b op b' ∧
      unfinished m c b' < unfinished m c b ∧ Returned m c b' ∧ b'.sessions = b.sessions := by
  cases hspawned : b.spawned with
  | cons x rest =>
    obtain ⟨c', frame⟩ := x
    obtain ⟨_, _, hsends, hsessions, _⟩ := write_frame c' frame { b with spawned := rest }
    obtain ⟨hwaiting, hdraining, hrest⟩ :=
      length_waiting_write c c' frame { b with spawned := rest }
    refine ⟨.startWrite, write c' frame { b with spawned := rest }, trivial, ?_, ?_, ?_, hsessions⟩
    · simp only [BridgeStep, BridgeOp.apply, startWrite, hspawned]
    · unfold unfinished
      rw [hsends, hdraining, hrest, hspawned]
      simp only [List.length_cons]
      dsimp only at hwaiting
      omega
    · unfold Returned
      rw [hsends]
      exact hreturned
  | nil =>
  cases hdraining : (b.writers c).draining with
  | some frame =>
    refine ⟨.drained c false, b.setWriter c { b.writers c with draining := none }, ⟨rfl, rfl⟩,
      ?_, ?_, hreturned, rfl⟩
    · simp only [BridgeStep, BridgeOp.apply, drained, hdraining]
      rfl
    · unfold unfinished
      rw [writer_setWriter, hdraining]
      change _ + (if (b.sends.get m).isSome then 4 else 0) < _
      simp only [Option.toList_none, Option.toList_some, List.length_nil, List.length_singleton]
      change 3 * b.spawned.length + _ + _ + _ < _
      omega
  | none =>
  cases hwaiting : (b.writers c).waiting with
  | cons frame rest =>
    refine ⟨.acquire c, b.setWriter c ⟨some frame, rest, (b.writers c).written ++ [frame]⟩,
      rfl, ?_, ?_, hreturned, rfl⟩
    · simp only [BridgeStep, BridgeOp.apply, acquire, hdraining, hwaiting]
    · unfold unfinished
      rw [writer_setWriter, hdraining, hwaiting]
      change _ + (if (b.sends.get m).isSome then 4 else 0) < _
      simp only [Option.toList_none, Option.toList_some, List.length_nil, List.length_cons]
      change 3 * b.spawned.length + _ + _ + _ < _
      omega
  | nil =>
  cases hsend : b.sends.get m with
  | none => exact absurd ⟨hsend, hwaiting, by rw [hspawned]; rfl⟩ hopen
  | some d =>
    obtain ⟨c', flood, phase⟩ := d
    obtain ⟨hsession, hphase⟩ := hreturned _ hsend
    dsimp only at hsession hphase
    subst hsession
    cases phase with
    | sending => exact absurd rfl hphase
    | writing acked =>
      have hwritten : sentWasWritten m (b.writers c') = true := by
        simp [sentWasWritten, hdraining, hwaiting]
      have hgone : ∀ {b' : BridgeState}, b'.sends = b.sends.erase m →
          b'.sends.get m = none ∧ Returned m c' b' := by
        intro b' hb'
        have hnone : b'.sends.get m = none := by
          rw [hb']
          exact Table.get_erase_self ..
        refine ⟨hnone, fun d hd => ?_⟩
        rw [hnone] at hd
        cases hd
      cases acked with
      | true =>
        obtain ⟨_, hsends, hsessions, _⟩ :=
          onAcked_frame m { b with sends := b.sends.erase m }
        obtain ⟨hlength, hwriters⟩ :=
          length_spawned_onAcked m { b with sends := b.sends.erase m }
        dsimp only at hlength
        refine ⟨.sentWritten m, BridgeState.onAcked m { b with sends := b.sends.erase m }, rfl,
          ?_, ?_, (hgone hsends).2, hsessions⟩
        · simp only [BridgeStep, BridgeOp.apply, sentWritten, hsend, hwritten, if_true]
        · unfold unfinished
          rw [hwriters, (hgone hsends).1, hsend]
          simp only [Option.isSome_none, Option.isSome_some, if_true, Bool.false_eq_true,
            if_false]
          omega
      | false =>
        refine ⟨.sentWritten m, { b with sends := b.sends.erase m }, rfl, ?_, ?_,
          (hgone rfl).2, rfl⟩
        · simp only [BridgeStep, BridgeOp.apply, sentWritten, hsend, hwritten, if_true,
            Bool.false_eq_true, if_false]
        · unfold unfinished
          rw [(hgone rfl).1, hsend]
          simp only [Option.isSome_none, Option.isSome_some, if_true, Bool.false_eq_true,
            if_false]
          omega

/-- The bridge can write all it has begun, with no step from outside. -/
theorem exists_settled (n : ℕ) {b : BridgeState} (hn : unfinished m c b ≤ n)
    (hreturned : Returned m c b) : ∃ h b', Run BridgeStep b h b' ∧
      (∀ ev ∈ h, Finishes m c ev.label) ∧ b'.sessions = b.sessions ∧ Settled m c b' := by
  induction n generalizing b with
  | zero =>
    refine ⟨[], b, Run.nil b, by simp, rfl, ?_⟩
    by_contra hopen
    obtain ⟨_, _, _, _, hless, _⟩ := exists_finishing_step hreturned hopen
    omega
  | succ n ih =>
    by_cases hsettled : Settled m c b
    · exact ⟨[], b, Run.nil b, by simp, rfl, hsettled⟩
    obtain ⟨op, b', hop, hstep, hless, hreturned', hsessions⟩ :=
      exists_finishing_step hreturned hsettled
    obtain ⟨h, b'', r, hfinish, hsessions', hsettled'⟩ := ih (by omega) hreturned'
    refine ⟨[⟨b, op, b'⟩] ++ h, b'', (Run.single hstep).append r, ?_,
      hsessions'.trans hsessions, hsettled'⟩
    intro ev hev
    rcases List.mem_append.mp hev with hev | hev
    · rw [List.mem_singleton.mp hev]
      exact hop
    · exact hfinish ev hev

/-- What was written for a message. -/
def writtenFor (m c : ℕ) (b : BridgeState) : List Frame :=
  (b.writers c).written.filter (fun frame => frame.message == some m)

/-- No session but its own gets a frame of the message, and that one gets SENT and
then at most one confirmation. Once an ACK is reported, it gets both: they are
written when nothing is left to write, which the bridge reaches by itself. -/
structure Confirmed (m c : ℕ) (token : Token) (h : List BridgeEvent) (b : BridgeState) : Prop where
  elsewhere : ∀ {c'}, c' ≠ c → writtenFor m c' b = []
  inOrder : ∃ flood rtt,
    (writtenFor m c b).Sublist [.sent m flood token, .sendConfirmed m token rtt]
  once : c ∈ b.sessions → (∀ ev ∈ h, prunes m ev = false) → (∃ ev ∈ h, reports m ev = true) →
    Settled m c b →
      ∃ flood rtt, writtenFor m c b = [.sent m flood token, .sendConfirmed m token rtt]
  settles : ∃ h' b', Run BridgeStep b h' b' ∧ (∀ ev ∈ h', Finishes m c ev.label) ∧
    b'.sessions = b.sessions ∧ Settled m c b'

theorem writtenFor_sublist (m c : ℕ) (b : BridgeState) :
    (writtenFor m c b).Sublist (framesFor m c b) := by
  unfold writtenFor framesFor
  rw [List.append_assoc]
  exact (List.sublist_append_left _ _).filter _

theorem framesFor_of_settled (h : Settled m c b) : framesFor m c b = writtenFor m c b := by
  unfold framesFor writtenFor
  rw [h.waiting, h.spawned, List.append_nil, List.append_nil]

/-- **Every acked message of a session is confirmed to it.** -/
theorem sends_confirmed {h : List BridgeEvent} {b : BridgeState} (r : Run BridgeStep {} h b)
    {ev : BridgeEvent} (hev : ev ∈ h) {m c : ℕ} {token : Token}
    (hreg : registration ev = some (m, c, token)) : Confirmed m c token h b := by
  have hfollowed := followed_of_run r m
  rcases hfollowed.stage with ⟨_, hnone⟩ | ⟨c', token', hunique, hsent⟩
  · exact absurd rfl (hnone ev hev _ hreg)
  cases hunique ev hev _ hreg rfl
  refine ⟨?_, ?_, ?_, ?_⟩
  · intro c' hc
    have hnil := hsent.others hc
    exact List.sublist_nil.mp (hnil ▸ writtenFor_sublist m c' b)
  · obtain ⟨flood, rtt, hshape⟩ := hsent.shape
    exact ⟨flood, rtt, (writtenFor_sublist m c b).trans hshape⟩
  · intro hconnected hpruned hreports hsettled
    rw [← framesFor_of_settled hsettled]
    refine hsent.answered ?_ hconnected ?_
    · rintro ⟨ev', hev', hprunes⟩
      rw [hpruned ev' hev'] at hprunes
      cases hprunes
    · -- an entry that is left would wait for the call, which has ended
      rw [Option.eq_none_iff_forall_ne_some]
      intro e he
      obtain ⟨d, hd, _⟩ := hsent.pending hreports hconnected he
      rw [hsettled.ended] at hd
      cases hd
  · exact exists_settled _ (Nat.le_refl _) (fun d hd => hsent.session hd)

/-- The ACK arrives while the radio still sends. -/
def ackDuringSend : List BridgeOp :=
  [.connect 1, .sendDirect 1 1 true, .dm (.ack "A1") 0, .dm (.firstSent 1 (some "A1") none) 0,
    .dm (.count 1) 7, .acquire 1, .drained 1 false, .sentWritten 1, .startWrite, .acquire 1]

/-- What the theorem asks of a run, for the message 1 of session 1. -/
def asked (x : List BridgeEvent × BridgeState) : Bool :=
  x.1.any (fun ev => decide (registration ev = some (1, 1, 7))) &&
    x.1.all (fun ev => !prunes 1 ev) && decide (1 ∈ x.2.sessions) &&
      decide (x.2.sends.get 1 = none) && decide ((x.2.writers 1).waiting = []) &&
        decide (spawnedTo 1 x.2.spawned = [])

theorem asked_iff : asked (h, b) = true ↔
    (∃ ev ∈ h, registration ev = some (1, 1, 7)) ∧ (∀ ev ∈ h, prunes 1 ev = false) ∧
      1 ∈ b.sessions ∧ Settled 1 1 b := by
  simp only [asked, Bool.and_eq_true, List.any_eq_true, List.all_eq_true, decide_eq_true_eq,
    Bool.not_eq_true', and_assoc]
  exact and_congr_right fun _ => and_congr_right fun _ => and_congr_right fun _ =>
    ⟨fun ⟨hended, hwaiting, hspawned⟩ => ⟨hended, hwaiting, hspawned⟩,
      fun h => ⟨h.ended, h.waiting, h.spawned⟩⟩

theorem sends_confirmed_ackDuringSend :
    ∃ (h : List BridgeEvent) (b : BridgeState), Run BridgeStep {} h b ∧
      h.map Event.label = ackDuringSend ∧ Confirmed 1 1 7 h b ∧
        ∃ flood rtt, writtenFor 1 1 b = [.sent 1 flood 7, .sendConfirmed 1 7 rtt] := by
  obtain ⟨h, b, r, hlabels, hasked⟩ :=
    Run.exists_of_trace BridgeOp.apply {} ackDuringSend
      (fun x => asked x && x.1.any (reports 1)) (by decide +kernel)
  rw [Bool.and_eq_true, asked_iff, List.any_eq_true] at hasked
  obtain ⟨⟨⟨ev, hev, hreg⟩, hpruned, hconnected, hsettled⟩, hreports⟩ := hasked
  have hconfirmed : Confirmed 1 1 7 h b := sends_confirmed r hev hreg
  exact ⟨h, b, r, hlabels, hconfirmed,
    hconfirmed.once hconnected hpruned hreports hsettled⟩

/-- Any `message_acked` of the message after its row was stored. -/
def announces (m : ℕ) (ev : BridgeEvent) : Bool :=
  decide (m ≤ ev.pre.dm.lastId) &&
    match ev.label with
    | .dm op _ => decide (acked op = some m)
    | .echo m' => decide (m' = m)
    | _ => false

/-- A copy of the message is heard while the radio still sends: it is announced
before there is a token, and the message is not returned as acked. -/
def echoDuringSend : List BridgeOp :=
  [.connect 1, .sendDirect 1 1 true, .echo 1, .dm (.firstSent 1 (some "A1") none) 7, .acquire 1,
    .drained 1 false, .sentWritten 1]

theorem not_forall_announced_confirmed :
    ¬ ∀ (h : List BridgeEvent) (b : BridgeState), Run BridgeStep {} h b →
      ∀ ev ∈ h, ∀ (m c : ℕ) (token : Token), registration ev = some (m, c, token) →
        c ∈ b.sessions → (∀ ev ∈ h, prunes m ev = false) → (∃ ev ∈ h, announces m ev = true) →
          Settled m c b →
            ∃ flood rtt, writtenFor m c b = [.sent m flood token, .sendConfirmed m token rtt] := by
  intro hall
  obtain ⟨h, b, r, _, hasked⟩ :=
    Run.exists_of_trace BridgeOp.apply {} echoDuringSend
      (fun x => asked x && (x.1.any (announces 1) && decide (writtenFor 1 1 x.2 = [.sent 1 true 7])))
      (by decide +kernel)
  rw [Bool.and_eq_true, asked_iff, Bool.and_eq_true, List.any_eq_true, decide_eq_true_eq] at hasked
  obtain ⟨⟨⟨ev, hev, hreg⟩, hpruned, hconnected, hsettled⟩, hannounced, hwritten⟩ := hasked
  obtain ⟨flood, rtt, hboth⟩ :=
    hall h b r ev hev 1 1 7 hreg hconnected hpruned hannounced hsettled
  rw [hwritten] at hboth
  cases hboth

end RtfmEv.CompanionBridge
