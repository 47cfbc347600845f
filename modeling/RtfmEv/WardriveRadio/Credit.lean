import RtfmEv.WardriveRadio.Companion

/-!
# To which command a reply is credited

A reply is credited to the command that waits. That is right as long as a flag that is down
means what it says: nothing of an earlier command is on its way that a later call could take
for its own. The flag is put down by a reply with a code of its own, which may itself be late,
and it is left down by a stats, clock or contact wait that timed out.
-/

namespace RtfmEv.WardriveRadio

open RtfmEv.Lib

/-- A reply that could be taken for the answer to a later command. -/
def Mistakable (reply : Frame) : Prop :=
  reply.code = some respOk ∨ reply.code = some respErr ∨ reply.code = some respSignature

/-- The listener of the wait takes the reply, under the flag `late`. -/
def Wait.Takes (late : Bool) (reply : Frame) : Wait → Prop
  | .transmit .sent kept =>
    reply.code = some respSent ∧ 10 ≤ reply.length ∨ reply.code = some respErr ∧ kept = false
  | .transmit .ok _ => reply.code = some respOk ∨ reply.code = some respErr
  | .request accept => accept reply late ≠ none
  | .stats type => reply.code = some respStats ∧ reply[1]? = some type
  | .deviceTime => reply.code = some respCurrTime ∧ 5 ≤ reply.length
  | .contacts => reply.code = some respEndOfContacts
  | .signStart _ ignoreErrors =>
    reply.code = some respErr ∧ ignoreErrors = false ∨ reply.code = some respSignStart
  | .signData _ _ => reply.code = some respErr ∨ reply.code = some respOk
  | .signFinish _ => reply.code = some respErr ∨ reply.code = some respSignature

/-- The reply is one with a code of its own, and puts the flag down. -/
def Wait.Lowers (reply : Frame) : Wait → Prop
  | .transmit _ _ => reply.code = some respSent
  | .request _ => reply.code ≠ some respOk ∧ reply.code ≠ some respErr
  | .signStart _ _ => reply.code = some respSignStart
  | _ => False

/-- A timeout of the wait does not put the flag up. -/
def Wait.Silent : Wait → Prop
  | .stats _ | .deviceTime | .contacts => True
  | _ => False

/-- Nothing is on its way that could be taken for the answer to a later command. -/
def Behind (coming : List (ℕ × Frame)) : Prop := ∀ q ∈ coming, ¬ Mistakable q.2

/-- **When a wait may end with the flag down.** A wait that ends with the flag down leaves no
reply on its way that could be taken for the answer to a later command, and a sign goes on
past its start only where the radio took that start. -/
structure Unmixed (s : State) (l : Label) : Prop where
  reply : ∀ a p coming w, l = .reply a → s.coming = p :: coming → s.waiting = some w →
    w.Takes s.lateReplies p.2 → s.lateReplies = false ∨ w.Lowers p.2 → Behind coming
  start : ∀ a p coming bytes ignoreErrors, l = .reply a → s.coming = p :: coming →
    s.waiting = some (.signStart bytes ignoreErrors) → p.2.code = some respSignStart →
    s.last.code = some respSignStart
  timeout : ∀ now a w, l = .timeout now a → s.waiting = some w → w.Silent →
    s.lateReplies = false → Behind s.coming
  linkError : ∀ a, l = .linkError a → s.lateReplies = false → Behind s.coming

variable (signature : Frame → Frame)

/-- **Every reply is credited to its own command**, in one step: an acknowledged write was
answered OK, a transmit that a reply failed was refused, and a signature is over the bytes of
the call. -/
structure Credited (e : Event State Label) : Prop where
  write : ∀ frame, e.pre.turn = some (.request frame acceptWrite) →
    e.post.settled = some (.request (some (.acked true))) → e.pre.last.code = some respOk
  transmit : ∀ frame a, e.pre.turn = some (.transmit frame .ok) → e.label = .reply a →
    e.post.settled = some (.transmit false none) → e.pre.last.code = some respErr
  sign : ∀ bytes r, e.pre.turn = some (.sign bytes) → e.post.settled = some (.sign (some r)) →
    r = (signature bytes).take 64

/-! ### What holds along a run -/

/-- What is known of the radio while the companion waits. -/
def State.WaitOk (s : State) : Wait → Prop
  | .transmit accept late =>
    (∃ frame, s.turn = some (.transmit frame accept)) ∧ late = s.lateReplies
  | .request accept => ∃ frame, s.turn = some (.request frame accept)
  | .stats type => s.turn = some (.stats type)
  | .deviceTime | .contacts => s.turn = some .contacts
  | .signStart bytes _ =>
    s.turn = some (.sign bytes) ∧ (s.last.code = some respSignStart → s.buffer = [])
  | .signData bytes i =>
    s.turn = some (.sign bytes) ∧ s.lateReplies = false ∧
      (s.last.code = some respOk → s.buffer = bytes.take (i + signChunk))
  | .signFinish bytes =>
    s.turn = some (.sign bytes) ∧ s.lateReplies = false ∧
      (s.last.code = some respSignature → s.last = respSignature :: signature bytes)

structure Ok (s : State) : Prop where
  inOrder : s.coming.Pairwise (fun p q => p.1 < q.1)
  bound : ∀ q ∈ s.coming, q.1 ≤ s.sent
  own : ∀ q ∈ s.coming, q.1 = s.sent → q.2 = s.last
  behind : s.lateReplies = false → ∀ q ∈ s.coming, Mistakable q.2 →
    s.waiting ≠ none ∧ q.1 = s.sent
  idle : s.waiting = none → s.turn = none
  wait : ∀ w, s.waiting = some w → s.WaitOk signature w

theorem ok_init : Ok signature State.init where
  inOrder := List.Pairwise.nil
  bound := fun _ hq => (nomatch hq)
  own := fun _ hq => (nomatch hq)
  behind := fun _ _ hq => (nomatch hq)
  idle := fun _ => rfl
  wait := fun _ hw => (nomatch hw)

variable {signature} {s t : State} {coming : List (ℕ × Frame)} {a bytes frame : Frame} {w : Wait}
  {l : Label}

theorem Ok.sublist (h : Ok signature s)
    (hsub : coming.Sublist s.coming) : Ok signature { s with coming := coming } where
  inOrder := h.inOrder.sublist hsub
  bound := fun q hq => h.bound q (hsub.subset hq)
  own := fun q hq => h.own q (hsub.subset hq)
  behind := fun hflag q hq => h.behind hflag q (hsub.subset hq)
  idle := h.idle
  wait := fun w hw => by
    have hok := h.wait w hw
    cases w <;> exact hok

/-- **With the flag down, a reply that could be mistaken is the answer to the last command.** -/
theorem Ok.credited (h : Ok signature s) (hflag : s.lateReplies = false)
    {q : ℕ × Frame} (hq : q ∈ s.coming) (hmis : Mistakable q.2) : q.2 = s.last :=
  h.own q hq (h.behind hflag q hq hmis).2

/-- A wait that ends with the flag up, or with nothing to be mistaken on its way. -/
theorem ok_finish (r : Result) (hord : s.coming.Pairwise (fun p q => p.1 < q.1))
    (hbound : ∀ q ∈ s.coming, q.1 ≤ s.sent) (hown : ∀ q ∈ s.coming, q.1 = s.sent → q.2 = s.last)
    (hbehind : s.lateReplies = false → Behind s.coming) : Ok signature (s.finish r) where
  inOrder := hord
  bound := hbound
  own := hown
  behind := fun hflag q hq hmis => absurd hmis (hbehind hflag q hq)
  idle := fun _ => rfl
  wait := fun _ hw => (nomatch hw)

theorem Ok.finish (h : Ok signature s) (flag : Bool) (r : Result)
    (hbehind : flag = false → Behind s.coming) :
    Ok signature ({ s with lateReplies := flag }.finish r) :=
  ok_finish r h.inOrder h.bound h.own hbehind

/-- A frame goes out with the flag up, or with nothing to be mistaken on its way. -/
theorem ok_send
    (hord : s.coming.Pairwise (fun p q => p.1 < q.1)) (hbound : ∀ q ∈ s.coming, q.1 ≤ s.sent)
    (hbehind : s.lateReplies = false → Behind s.coming)
    (hwait : (s.send signature w a).WaitOk signature w) : Ok signature (s.send signature w a) where
  inOrder := by
    refine List.pairwise_append.mpr ⟨hord, List.pairwise_singleton _ _, ?_⟩
    intro p hp q hq
    have hle := hbound p hp
    rw [List.mem_singleton.mp hq]
    show p.1 < s.sent + 1
    omega
  bound := fun q hq => by
    rcases List.mem_append.mp hq with hold | hnew
    · exact Nat.le_succ_of_le (hbound q hold)
    · rw [List.mem_singleton.mp hnew]
      exact Nat.le_refl _
  own := fun q hq hnum => by
    rcases List.mem_append.mp hq with hold | hnew
    · have hle := hbound q hold
      have hsent : q.1 = s.sent + 1 := hnum
      omega
    · rw [List.mem_singleton.mp hnew]
      rfl
  behind := fun hflag q hq hmis => by
    refine ⟨fun hnone => (nomatch hnone), ?_⟩
    rcases List.mem_append.mp hq with hold | hnew
    · exact absurd hmis (hbehind hflag q hold)
    · rw [List.mem_singleton.mp hnew]
      rfl
  idle := fun hnone => (nomatch hnone)
  wait := fun w' hw' => by
    cases hw'
    exact hwait

/-- The next chunk of a sign goes out when the radio has all that is before it. -/
theorem Ok.signNext (h : Ok signature s) (hturn : s.turn = some (.sign bytes))
    (hbehind : Behind s.coming) {i : ℕ} (hbuffer : s.buffer = bytes.take i) (a : Frame) :
    Ok signature ({ s with lateReplies := false }.signNext signature bytes i a) := by
  unfold State.signNext
  split_ifs with hmore
  · refine ok_send h.inOrder h.bound (fun _ => hbehind) ⟨hturn, rfl, fun hcode => ?_⟩
    have hok : a.code = some respOk := hcode
    show (if a.code = some respOk then s.buffer ++ (bytes.drop i).take signChunk else s.buffer) = _
    rw [if_pos hok, hbuffer, List.take_add]
  · refine ok_send h.inOrder h.bound (fun _ => hbehind) ⟨hturn, rfl, fun hcode => ?_⟩
    rw [List.take_of_length_le (Nat.le_of_not_lt hmore)] at hbuffer
    have hlast : ({ s with lateReplies := false }.send signature (.signFinish bytes) a).last =
        if a.code = some respSignature then respSignature :: signature s.buffer else a := rfl
    rw [hlast] at hcode ⊢
    split_ifs at hcode ⊢ with hsig
    · rw [hbuffer]
    · exact absurd hcode hsig

/-! ### The steps -/

/-- Between two calls nothing to be mistaken is on its way while the flag is down. -/
theorem Ok.behind_idle (h : Ok signature s) (hidle : s.waiting = none)
    (hflag : s.lateReplies = false) : Behind s.coming :=
  fun q hq hmis => (h.behind hflag q hq hmis).1 hidle

theorem Ok.begin (h : Ok signature s) (hidle : s.waiting = none) (allowed : Bool)
    (a : Frame) (c : Call) (chain : List Call) :
    Ok signature ({ s with chain := chain, turn := some c }.begin signature allowed a c) := by
  have hbehind := h.behind_idle hidle
  cases c with
  | transmit frame accept =>
    unfold State.begin
    split_ifs
    · exact ok_send h.inOrder h.bound hbehind ⟨⟨frame, rfl⟩, rfl⟩
    · exact ok_finish _ h.inOrder h.bound h.own hbehind
  | request frame accept => exact ok_send h.inOrder h.bound hbehind ⟨frame, rfl⟩
  | stats type | contacts => exact ok_send h.inOrder h.bound hbehind rfl
  | sign bytes =>
    refine ok_send h.inOrder h.bound hbehind ⟨rfl, fun hcode => ?_⟩
    have hstart : a.code = some respSignStart := hcode
    show (if a.code = some respSignStart then [] else s.buffer) = _
    rw [if_pos hstart]

theorem Ok.timeout (h : Ok signature s) (hw : s.waiting = some w) (now : ℤ)
    (a : Frame) (hsilent : w.Silent → s.lateReplies = false → Behind s.coming) :
    Ok signature (s.timeout signature now a w) := by
  have hok := h.wait w hw
  cases w with
  | transmit | request | signStart | signData | signFinish =>
    exact ok_finish _ h.inOrder h.bound h.own (fun hflag => (nomatch hflag))
  | stats | contacts => exact ok_finish _ h.inOrder h.bound h.own (hsilent trivial)
  | deviceTime => exact ok_send h.inOrder h.bound (hsilent trivial) hok

theorem Ok.linkError (h : Ok signature s) (hw : s.waiting = some w)
    (a : Frame) (hbehind : s.lateReplies = false → Behind s.coming) :
    Ok signature (s.linkError signature a w) := by
  have hok := h.wait w hw
  cases w with
  | deviceTime => exact ok_send h.inOrder h.bound hbehind hok
  | transmit | request | signStart | signData | signFinish | stats | contacts =>
    exact ok_finish _ h.inOrder h.bound h.own hbehind

/-- A reply is taken: what is behind it is no danger where the flag is down afterwards. -/
theorem Ok.receive (h : Ok signature s) {p : ℕ × Frame}
    (hcoming : s.coming = p :: coming) (hw : s.waiting = some w)
    (hun : Unmixed s (.reply a)) :
    Ok signature ({ s with coming := coming }.receive signature p.2 a w) := by
  have hrest : Ok signature { s with coming := coming } :=
    h.sublist (by rw [hcoming]; exact List.sublist_cons_self p coming)
  have hmem : p ∈ s.coming := by rw [hcoming]; exact List.mem_cons_self
  have htaken := hun.reply a p coming w rfl hcoming hw
  have hok := h.wait w hw
  cases w with
  | transmit accept late =>
    rw [State.receive]
    split_ifs with hsent hlate hacked hrefused
    · refine hrest.finish false _ (fun _ => htaken ?_ (Or.inr hsent.2.1))
      rw [hsent.1]
      exact Or.inl hsent.2
    · refine hrest.finish s.lateReplies _ (fun hflag => htaken ?_ (Or.inl hflag))
      rw [hlate.1]
      exact hlate.2.1
    · refine hrest.finish s.lateReplies _ (fun hflag => htaken ?_ (Or.inl hflag))
      rw [hacked.1]
      exact Or.inl hacked.2
    · refine hrest.finish s.lateReplies _ (fun hflag => htaken ?_ (Or.inl hflag))
      cases accept with
      | ok => exact Or.inr hrefused.1
      | sent => exact Or.inr ⟨hrefused.1, Bool.eq_false_iff.mpr hrefused.2⟩
    · exact hrest
  | request accept =>
    rw [State.receive]
    split
    · exact hrest
    rename_i v hv
    have htakes : (Wait.request accept).Takes s.lateReplies p.2 := by
      show accept p.2 s.lateReplies ≠ none
      rw [show accept p.2 s.lateReplies = some v from hv]
      exact Option.some_ne_none v
    split_ifs with hcode
    · exact hrest.finish false _ (fun _ => htaken htakes (Or.inr hcode))
    · exact hrest.finish s.lateReplies _ (fun hflag => htaken htakes (Or.inl hflag))
  | stats type =>
    rw [State.receive]
    split_ifs with hstats
    · exact hrest.finish s.lateReplies _ (fun hflag => htaken hstats (Or.inl hflag))
    · exact hrest
  | deviceTime =>
    rw [State.receive]
    split_ifs with htime
    · exact ok_send hrest.inOrder hrest.bound (fun hflag => htaken htime (Or.inl hflag)) hok
    · exact hrest
  | contacts =>
    rw [State.receive]
    split_ifs with hend
    · exact hrest.finish s.lateReplies _ (fun hflag => htaken hend (Or.inl hflag))
    · exact hrest
  | signStart bytes ignoreErrors =>
    rw [State.receive]
    split_ifs with herr hother
    · refine hrest.finish s.lateReplies _ (fun hflag => htaken (Or.inl ⟨herr.1, ?_⟩) (Or.inl hflag))
      exact Bool.eq_false_iff.mpr herr.2
    · exact hrest
    have hstart : p.2.code = some respSignStart := not_not.mp hother
    have hbehind : Behind coming := htaken (Or.inr hstart) (Or.inr hstart)
    have hbuffer := hok.2 (hun.start a p coming bytes ignoreErrors rfl hcoming hw hstart)
    dsimp only
    split
    · exact hrest.finish false _ (fun _ => hbehind)
    split_ifs
    · exact hrest.finish false _ (fun _ => hbehind)
    · exact hrest.signNext (i := 0) hok.1 hbehind hbuffer a
  | signData bytes i =>
    obtain ⟨hturn, hflag, hbuffer⟩ := hok
    rw [State.receive]
    split_ifs with herr hother
    · exact hrest.finish s.lateReplies _ (fun hflag => htaken (Or.inl herr) (Or.inl hflag))
    · exact hrest
    have hack : p.2.code = some respOk := not_not.mp hother
    rw [h.credited hflag hmem (Or.inl hack)] at hack
    have hnext := hrest.signNext hturn (htaken (Or.inr (not_not.mp hother)) (Or.inl hflag))
      (hbuffer hack) a
    rw [← hflag] at hnext
    exact hnext
  | signFinish bytes =>
    rw [State.receive]
    split_ifs with herr hother hshort
    · exact hrest.finish s.lateReplies _ (fun hflag => htaken (Or.inl herr) (Or.inl hflag))
    · exact hrest
    · exact hrest.finish s.lateReplies _
        (fun hflag => htaken (Or.inr (not_not.mp hother)) (Or.inl hflag))
    · exact hrest.finish s.lateReplies _
        (fun hflag => htaken (Or.inr (not_not.mp hother)) (Or.inl hflag))

theorem Ok.settled (h : Ok signature s) : Ok signature { s with settled := none } where
  inOrder := h.inOrder
  bound := h.bound
  own := h.own
  behind := h.behind
  idle := h.idle
  wait := fun w hw => by
    have hok := h.wait w hw
    cases w <;> exact hok

theorem Ok.call (h : Ok signature s) (now : ℤ) (c : Call) : Ok signature (s.call now c) := by
  have hstate : ∀ (chain : List Call) (r : Option Result),
      Ok signature { s with chain := chain, settled := r } := by
    intro chain r
    refine ⟨h.inOrder, h.bound, h.own, h.behind, h.idle, fun w hw => ?_⟩
    have hok := h.wait w hw
    cases w <;> exact hok
  cases c with
  | stats type =>
    rw [State.call]
    split_ifs
    · exact hstate s.chain _
    · exact hstate _ s.settled
  | transmit | request | contacts | sign => exact hstate _ s.settled

/-- **Every step keeps the flag true**, where it meets the condition. -/
theorem Ok.step (h : Ok signature s) (hun : Unmixed s l)
    (hstep : Step signature s l t) : Ok signature t := by
  have hset := h.settled
  have hun' : Unmixed { s with settled := none } l :=
    ⟨hun.reply, hun.start, hun.timeout, hun.linkError⟩
  unfold Step WardriveRadio.step at hstep
  cases l with
  | call c now =>
    rw [← Option.some.inj hstep]
    exact hset.call now c
  | begin allowed a =>
    dsimp only at hstep
    split at hstep
    · rename_i c chain hidle hchain
      rw [← Option.some.inj hstep]
      exact hset.begin hidle allowed a c chain
    · cases hstep
  | reply a =>
    dsimp only at hstep
    split at hstep
    · rename_i p coming w hcoming hw
      rw [← Option.some.inj hstep]
      exact hset.receive hcoming hw hun'
    · rename_i p coming hcoming hw
      rw [← Option.some.inj hstep]
      refine hset.sublist ?_
      show coming.Sublist s.coming
      rw [show s.coming = p :: coming from hcoming]
      exact List.sublist_cons_self p coming
    · cases hstep
  | timeout now a =>
    obtain ⟨w, hw, rfl⟩ := Option.map_eq_some_iff.mp hstep
    exact hset.timeout hw now a (hun.timeout now a w rfl hw)
  | linkError a =>
    obtain ⟨w, hw, rfl⟩ := Option.map_eq_some_iff.mp hstep
    exact hset.linkError hw a (hun.linkError a rfl)
  | lose k =>
    rw [← Option.some.inj hstep]
    exact hset.sublist (List.eraseIdx_sublist _ k)

/-! ### What a reply settles -/

theorem State.WaitOk.of_request (h : s.WaitOk signature w)
    {accept : Frame → Bool → Option Reading} (hturn : s.turn = some (.request frame accept)) :
    w = .request accept := by
  cases w with
  | request accept' =>
    obtain ⟨frame', hturn'⟩ := h
    rw [hturn] at hturn'
    cases hturn'
    rfl
  | transmit =>
    obtain ⟨⟨_, hturn'⟩, -⟩ := h
    rw [hturn] at hturn'
    cases hturn'
  | signStart | signData | signFinish =>
    have hturn' := h.1
    rw [hturn] at hturn'
    cases hturn'
  | stats | deviceTime | contacts =>
    rw [State.WaitOk, hturn] at h
    cases h

theorem State.WaitOk.of_transmit (h : s.WaitOk signature w)
    {accept : Accept} (hturn : s.turn = some (.transmit frame accept)) :
    w = .transmit accept s.lateReplies := by
  cases w with
  | transmit accept' late =>
    obtain ⟨⟨frame', hturn'⟩, hlate⟩ := h
    rw [hturn] at hturn'
    cases hturn'
    rw [hlate]
  | request =>
    obtain ⟨_, hturn'⟩ := h
    rw [hturn] at hturn'
    cases hturn'
  | signStart | signData | signFinish =>
    have hturn' := h.1
    rw [hturn] at hturn'
    cases hturn'
  | stats | deviceTime | contacts =>
    rw [State.WaitOk, hturn] at h
    cases h

theorem acceptWrite_acked {late : Bool} (h : acceptWrite bytes late = some (.acked true)) :
    late = false ∧ bytes.code = some respOk := by
  unfold acceptWrite at h
  split_ifs at h with hother hlate
  · cases h
  · refine ⟨Bool.eq_false_iff.mpr hlate, ?_⟩
    have hok := (Reading.acked.inj (Option.some.inj h))
    exact of_decide_eq_true hok

@[simp]
theorem settled_signNext (s : State) (bytes : Frame) (i : ℕ) (a : Frame) :
    (s.signNext signature bytes i a).settled = s.settled := by
  unfold State.signNext
  split_ifs <;> rfl

section
variable {s : State} {p : ℕ × Frame} {coming : List (ℕ × Frame)} {w : Wait} {a : Frame}

theorem Ok.write (h : Ok signature s) (hcoming : s.coming = p :: coming)
    (hw : s.waiting = some w) (hnone : s.settled = none) {frame : Frame}
    (hturn : s.turn = some (.request frame acceptWrite))
    (hsettled : ({ s with coming := coming }.receive signature p.2 a w).settled =
      some (.request (some (.acked true)))) : s.last.code = some respOk := by
  have hmem : p ∈ s.coming := by rw [hcoming]; exact List.mem_cons_self
  rw [(h.wait w hw).of_request hturn, State.receive] at hsettled
  split at hsettled
  · rw [hnone] at hsettled
    cases hsettled
  rename_i v hv
  have hacked : v = .acked true := by
    split_ifs at hsettled <;> exact Option.some.inj (Result.request.inj (Option.some.inj hsettled))
  rw [hacked] at hv
  obtain ⟨hflag, hcode⟩ := acceptWrite_acked hv
  rw [← h.credited hflag hmem (Or.inl hcode)]
  exact hcode

theorem Ok.refused (h : Ok signature s) (hcoming : s.coming = p :: coming)
    (hw : s.waiting = some w) (hnone : s.settled = none) {frame : Frame}
    (hturn : s.turn = some (.transmit frame .ok))
    (hsettled : ({ s with coming := coming }.receive signature p.2 a w).settled =
      some (.transmit false none)) : s.last.code = some respErr := by
  have hmem : p ∈ s.coming := by rw [hcoming]; exact List.mem_cons_self
  rw [(h.wait w hw).of_transmit hturn, State.receive] at hsettled
  split at hsettled
  · cases hsettled
  split at hsettled
  · cases hsettled
  split at hsettled
  · cases hsettled
  split at hsettled
  · rename_i herr
    rw [← h.credited (Bool.eq_false_iff.mpr herr.2) hmem (Or.inr (Or.inl herr.1))]
    exact herr.1
  · rw [hnone] at hsettled
    cases hsettled

theorem Ok.signed (h : Ok signature s) (hcoming : s.coming = p :: coming)
    (hw : s.waiting = some w) (hnone : s.settled = none) {bytes r : Frame}
    (hturn : s.turn = some (.sign bytes))
    (hsettled : ({ s with coming := coming }.receive signature p.2 a w).settled =
      some (.sign (some r))) : r = (signature bytes).take 64 := by
  have hmem : p ∈ s.coming := by rw [hcoming]; exact List.mem_cons_self
  have hok := h.wait w hw
  cases w with
  | transmit =>
    obtain ⟨⟨_, hturn'⟩, -⟩ := hok
    rw [hturn] at hturn'
    cases hturn'
  | request =>
    obtain ⟨_, hturn'⟩ := hok
    rw [hturn] at hturn'
    cases hturn'
  | stats | deviceTime | contacts =>
    rw [State.WaitOk, hturn] at hok
    cases hok
  | signStart bytes' ignoreErrors =>
    rw [State.receive] at hsettled
    split_ifs at hsettled
    · cases hsettled
    · rw [hnone] at hsettled
      cases hsettled
    dsimp only at hsettled
    split at hsettled
    · cases hsettled
    split_ifs at hsettled
    · cases hsettled
    · rw [settled_signNext, hnone] at hsettled
      cases hsettled
  | signData bytes' i =>
    rw [State.receive] at hsettled
    split_ifs at hsettled
    · cases hsettled
    · rw [hnone] at hsettled
      cases hsettled
    · rw [settled_signNext, hnone] at hsettled
      cases hsettled
  | signFinish bytes' =>
    obtain ⟨hturn', hflag, hlast⟩ := hok
    rw [hturn] at hturn'
    cases hturn'
    rw [State.receive] at hsettled
    split_ifs at hsettled with herr hother hshort
    · cases hsettled
    · rw [hnone] at hsettled
      cases hsettled
    · cases hsettled
    have hsig : p.2.code = some respSignature := not_not.mp hother
    have hown := h.credited hflag hmem (Or.inr (Or.inr hsig))
    rw [hown] at hsig
    rw [← Option.some.inj (Result.sign.inj (Option.some.inj hsettled)), hown, hlast hsig]
    rfl

end

/-- What settles nothing, or only what the three parts do not speak of. -/
theorem credited_of_settled (r : Option Result) (hr : t.settled = r)
    (hrequest : ∀ v, r ≠ some (.request (some v)))
    (htransmit : ∀ a, l = .reply a → r ≠ some (.transmit false none))
    (hsign : ∀ v, r ≠ some (.sign (some v))) : Credited signature ⟨s, l, t⟩ where
  write := fun _ _ hres => absurd (hr.symm.trans hres) (hrequest _)
  transmit := fun _ a _ hl hres => absurd (hr.symm.trans hres) (htransmit a hl)
  sign := fun _ _ _ hres => absurd (hr.symm.trans hres) (hsign _)

/-- Every step credits a reply to its own command, where the flag was true before it. -/
theorem Ok.credited_step (h : Ok signature s)
    (hstep : Step signature s l t) : Credited signature ⟨s, l, t⟩ := by
  have hset := h.settled
  unfold Step WardriveRadio.step at hstep
  cases l with
  | reply a =>
    dsimp only at hstep
    split at hstep
    · rename_i p coming w hcoming hw
      rw [← Option.some.inj hstep]
      exact ⟨fun frame hturn hres => hset.write hcoming hw rfl hturn hres,
        fun frame _ hturn _ hres => hset.refused hcoming hw rfl hturn hres,
        fun bytes r hturn hres => hset.signed hcoming hw rfl hturn hres⟩
    · rw [← Option.some.inj hstep]
      exact credited_of_settled none rfl nofun nofun nofun
    · cases hstep
  | call c now =>
    rw [← Option.some.inj hstep]
    cases c with
    | stats type =>
      rw [State.call]
      split_ifs
      · exact credited_of_settled _ rfl nofun nofun nofun
      · exact credited_of_settled none rfl nofun nofun nofun
    | transmit | request | contacts | sign => exact credited_of_settled none rfl nofun nofun nofun
  | begin allowed a =>
    dsimp only at hstep
    split at hstep
    · rename_i c chain hidle hchain
      rw [← Option.some.inj hstep]
      cases c with
      | transmit frame accept =>
        rw [State.begin]
        split_ifs
        · exact credited_of_settled none rfl nofun nofun nofun
        · exact credited_of_settled _ rfl nofun nofun nofun
      | request | stats | contacts | sign => exact credited_of_settled none rfl nofun nofun nofun
    · cases hstep
  | timeout now a | linkError a =>
    obtain ⟨w, hw, rfl⟩ := Option.map_eq_some_iff.mp hstep
    cases w <;> exact credited_of_settled _ rfl nofun nofun nofun
  | lose k =>
    rw [← Option.some.inj hstep]
    exact credited_of_settled none rfl nofun nofun nofun

/-- **In a run whose waits end with the flag down only when nothing of theirs is left on its
way, every reply is credited to its own command.** -/
theorem replies_credited {t : State} {h : List (Event State Label)}
    (hrun : Run (Step signature) State.init h t) (hun : ∀ e ∈ h, Unmixed e.pre e.label) :
    ∀ e ∈ h, Credited signature e := by
  intro e he
  obtain ⟨h₁, h₂, rfl⟩ := List.append_of_mem he
  obtain ⟨hbefore, hstep, -⟩ := hrun.at_event
  have hok : Ok signature e.pre := by
    refine hbefore.invariant (P := Ok signature) (C := fun e => Unmixed e.pre e.label)
      (fun e' he' => hun e' (List.mem_append_left _ he')) ?_ (ok_init signature)
    intro e' hstep' hun' hok'
    exact hok'.step hun' hstep'
  exact hok.credited_step hstep

/-- The answers of the run below: a directed packet queued for the air, and a start that is
taken. -/
def sentReply : Frame := [respSent, 0, 0, 0, 0, 0, 0, 0, 0, 0]
def startReply : Frame := [respSignStart, 0, 255, 0, 0, 0]

/-- A signature that has the bytes in it. -/
def markedSignature (bytes : Frame) : Frame := bytes ++ List.replicate 64 0

/-- One byte is signed, and every frame is answered in time. -/
def signLabels : List Label :=
  [.call (.sign [7]) 0, .begin true startReply, .reply [respOk], .reply [respSignature], .reply []]

theorem replies_credited_sign :
    ∃ h t, Run (Step markedSignature) State.init h t ∧
      (∀ e ∈ h, Credited markedSignature e) ∧
      t.settled = some (.sign (some ((markedSignature [7]).take 64))) := by
  have htrace : ∃ h t, Run.trace (step markedSignature) State.init signLabels = some (h, t) ∧
      (∀ e ∈ h, Unmixed e.pre e.label) ∧
      t.settled = some (.sign (some ((markedSignature [7]).take 64))) := by
    refine ⟨_, _, rfl, ?_, rfl⟩
    -- no more than one reply is ever on its way
    have hone : ∀ (s : State) (l : Label), s.coming.length ≤ 1 → (∀ now a, l ≠ .timeout now a) →
        (∀ a, l ≠ .linkError a) → (∀ bytes ignoreErrors, s.waiting =
          some (.signStart bytes ignoreErrors) → s.last.code = some respSignStart) →
        Unmixed s l := by
      intro s l hlen htime hlink hstart
      refine ⟨fun a p coming w _ hcoming _ _ _ q hq => ?_, fun _ _ _ bytes ignore _ _ hw _ =>
        hstart bytes ignore hw, fun now a _ hl => absurd hl (htime now a),
        fun a hl => absurd hl (hlink a)⟩
      rw [hcoming] at hlen
      have hnil : coming = [] := List.length_eq_zero_iff.mp (by simpa using hlen)
      rw [hnil] at hq
      cases hq
    have hnone : ∀ s : State, s.waiting = none → ∀ bytes ignoreErrors, s.waiting =
        some (.signStart bytes ignoreErrors) → s.last.code = some respSignStart := by
      intro s hs bytes ignoreErrors hw
      rw [hs] at hw
      cases hw
    refine List.forall_mem_cons.mpr ⟨hone _ _ (by decide) nofun nofun (hnone _ rfl), ?_⟩
    refine List.forall_mem_cons.mpr ⟨hone _ _ (by decide) nofun nofun (hnone _ rfl), ?_⟩
    refine List.forall_mem_cons.mpr ⟨hone _ _ (by decide) nofun nofun (fun _ _ _ => rfl), ?_⟩
    refine List.forall_mem_cons.mpr ⟨hone _ _ (by decide) nofun nofun (fun _ _ hw => ?_), ?_⟩
    · cases hw
    refine List.forall_mem_cons.mpr ⟨hone _ _ (by decide) nofun nofun (fun _ _ hw => ?_), ?_⟩
    · cases hw
    exact fun _ he => (nomatch he)
  obtain ⟨h, t, htr, hun, hset⟩ := htrace
  exact ⟨h, t, Run.of_trace htr, replies_credited (Run.of_trace htr) hun, hset⟩

/-- A directed packet and a write time out, and the answers to both are on their way when the
next directed packet goes out. The answer to the first one puts the flag down. -/
def staleLabels : List Label :=
  [.call (.transmit [1] .sent) 0, .begin true sentReply, .timeout 0 [],
    .call (.request [9] acceptWrite) 0, .begin true [respOk], .timeout 0 [],
    .call (.transmit [2] .sent) 0, .begin true sentReply, .reply [],
    .call (.request [10] acceptWrite) 0, .begin true [respErr, 3]]

/-- The answer to the first write is taken for the answer to the second one, which the radio
refuses. -/
theorem not_forall_credited :
    ¬ ∀ (signature : Frame → Frame) (h : List (Event State Label)) (t : State),
      Run (Step signature) State.init h t → ∀ e ∈ h, Credited signature e := by
  intro hall
  have htrace : ∃ h s, Run.trace (step markedSignature) State.init staleLabels = some (h, s) ∧
      s.turn = some (.request [10] acceptWrite) ∧ s.last.code = some respErr ∧
      ∃ t, step markedSignature s (.reply []) = some t ∧
        t.settled = some (.request (some (.acked true))) :=
    ⟨_, _, rfl, rfl, rfl, _, rfl, rfl⟩
  obtain ⟨h, s, htr, hturn, hlast, t, hstep, hset⟩ := htrace
  have hcredited := hall markedSignature _ _ (Run.snoc (Run.of_trace htr) hstep)
    ⟨s, .reply [], t⟩ List.mem_concat_self
  have hok := hcredited.write [10] hturn hset
  rw [hlast] at hok
  exact absurd hok (by decide)

end RtfmEv.WardriveRadio
