import RtfmEv.HostRepeater.Forwarding
import RtfmEv.Lib.Run

/-!
# Runs of the forwarding engine

The runtime shares one engine between received frames, settings changes,
snapshots and the radio's own transmissions. A run is any sequence of these
operations. Two results hold over whole runs: a frame is relayed at most once
while the seen table remembers it, whatever its route, and the airtime of the
forwards in any minute stays under the cap while the cap is enforced.
-/

namespace RtfmEv.HostRepeater

open RtfmEv.Lib RtfmEv.PathUtils

/-- The operations on an engine. -/
inductive EngineOp
  | decide (c : RxCall)
  | configure (settings : Option HostRepeaterSettings) (publicKey : Option Bytes)
      (radio : Option RadioParams)
  | setManagedRules (before after : List PolicyRule)
  | addOwnTx (now airtimeMs : ℚ)
  | airtimeUsedMs (now : ℚ)
  | gateSnapshot (now : ℚ)
  | resetFilterCounters
  | resetState

namespace EngineOp

/-- The clock reading an operation is given. -/
def now? : EngineOp → Option ℚ
  | .decide c => some c.now
  | .addOwnTx now _ => some now
  | .airtimeUsedMs now => some now
  | .gateSnapshot now => some now
  | .configure _ _ _ => none
  | .setManagedRules _ _ => none
  | .resetFilterCounters => none
  | .resetState => none

/-- The engine after an operation. -/
def apply (P : Primitives) (e : ForwardingEngine) : EngineOp → ForwardingEngine
  | .decide c => (HostRepeater.decide P e c).1
  | .configure settings publicKey radio => e.configure P settings publicKey radio
  | .setManagedRules before after => e.setManagedRules before after
  | .addOwnTx now airtimeMs => e.addOwnTx now airtimeMs
  | .airtimeUsedMs now => { e with duty := (e.duty.used now).1 }
  | .gateSnapshot now =>
    let e := e.gateCatchUp now
    { e with budget := (e.budget.usedPercent now).1 }
  | .resetFilterCounters => e.resetFilterCounters
  | .resetState => e.resetState

end EngineOp

abbrev EngineEvent := Event ForwardingEngine EngineOp

/-- One operation. -/
def EngineStep (P : Primitives) (e : ForwardingEngine) (op : EngineOp) (e' : ForwardingEngine) :
    Prop := e' = op.apply P e

/-- The clock never goes back over the history. -/
def Clocked (h : List EngineEvent) : Prop :=
  (h.filterMap (fun ev => ev.label.now?)).Pairwise (· ≤ ·)

/-! ### What one operation does -/

theorem addOwnTx_sameCore (e : ForwardingEngine) (now airtimeMs : ℚ) :
    SameCore e (e.addOwnTx now airtimeMs) := by
  rw [ForwardingEngine.addOwnTx]
  have hgate := gateCatchUp_sameCore e now
  split
  · exact hgate.trans ⟨rfl, rfl, rfl, rfl, rfl⟩
  · exact hgate

variable (P : Primitives) (e : ForwardingEngine)

theorem gateSnapshot_sameCore (now : ℚ) : SameCore e ((EngineOp.gateSnapshot now).apply P e) :=
  (gateCatchUp_sameCore e now).trans ⟨rfl, rfl, rfl, rfl, rfl⟩

theorem configure_duty (settings : Option HostRepeaterSettings) (publicKey : Option Bytes)
    (radio : Option RadioParams) : (e.configure P settings publicKey radio).duty = e.duty := by
  have hkey : ∀ (e : ForwardingEngine) (key : Bytes), (e.configurePublicKey key).duty = e.duty := by
    intro e key
    rw [ForwardingEngine.configurePublicKey]
    split <;> rfl
  unfold ForwardingEngine.configure
  cases settings <;> cases publicKey <;> cases radio <;> first | rfl | exact hkey _ _

/-- A configuration that keeps the identity keeps the seen table. -/
theorem configure_seen (settings : Option HostRepeaterSettings) (publicKey : Option Bytes)
    (radio : Option RadioParams)
    (h : (e.configure P settings publicKey radio).publicKey = e.publicKey) :
    (e.configure P settings publicKey radio).seen = e.seen := by
  have hkey : ∀ (e : ForwardingEngine) (key : Bytes),
      (e.configurePublicKey key).publicKey = e.publicKey →
        (e.configurePublicKey key).seen = e.seen := by
    intro e key h
    rw [ForwardingEngine.configurePublicKey] at h ⊢
    split at h
    · rename_i hsame
      rw [if_pos hsame]
    · rename_i hnew
      exact absurd h.symm hnew
  unfold ForwardingEngine.configure at h ⊢
  cases settings <;> cases publicKey <;> cases radio <;> first | rfl | exact hkey _ _ h

variable {e : ForwardingEngine} {P : Primitives} {h : List EngineEvent} {t : ℚ} {ev : EngineEvent}

/-- Only a decision marks keys. -/
theorem apply_seen {op : EngineOp}
    (hreset : op ≠ .resetState) (hkey : (op.apply P e).publicKey = e.publicKey) :
    (op.apply P e).seen = e.seen ∨
      ∃ c key, op = .decide c ∧ (op.apply P e).seen = markSeen e.seen key c.now := by
  cases op with
  | decide c =>
    rcases (decide_step P e c).seen.eq_or_mark with hs | ⟨key, hs⟩
    · exact Or.inl hs
    · exact Or.inr ⟨c, key, rfl, hs⟩
  | configure settings publicKey radio =>
    exact Or.inl (configure_seen P e settings publicKey radio hkey)
  | setManagedRules before after => exact Or.inl rfl
  | addOwnTx now airtimeMs => exact Or.inl (addOwnTx_sameCore e now airtimeMs).seen
  | airtimeUsedMs now => exact Or.inl rfl
  | gateSnapshot now => exact Or.inl (gateSnapshot_sameCore P e now).seen
  | resetFilterCounters => exact Or.inl rfl
  | resetState => exact absurd rfl hreset

/-! ### At most one relay -/

/-- The event marked a key: it wrote the key as the youngest of the table. -/
def Marks (ev : EngineEvent) (key : String) : Prop :=
  ∃ c, ev.label = .decide c ∧ ev.post.seen = markSeen ev.pre.seen key c.now ∧
    ev.post.seen ≠ ev.pre.seen

/-- A full table of other keys was marked over the history. -/
def Crowded (h : List EngineEvent) (key : String) : Prop :=
  ∃ keys : List String, keys.Nodup ∧ seenTableMax ≤ keys.length ∧
    ∀ k ∈ keys, k ≠ key ∧ ∃ ev ∈ h, Marks ev k

/-- A key stands in the table since `t`, with only keys behind it that were
marked over the history. -/
def Remembered (h : List EngineEvent) (key : String) (t : ℚ) (seen : OrderedDict String ℚ) :
    Prop :=
  ∃ old ts young, seen.entries = old ++ (key, ts) :: young ∧ t ≤ ts ∧
    ∀ x ∈ young, ∃ ev ∈ h, Marks ev x.1

theorem Crowded.mono {key : String} (hc : Crowded h key)
    (ev : EngineEvent) : Crowded (h ++ [ev]) key := by
  obtain ⟨keys, hnodup, hlen, hmarked⟩ := hc
  refine ⟨keys, hnodup, hlen, ?_⟩
  intro k hk
  obtain ⟨hne, ev', hev', hm⟩ := hmarked k hk
  exact ⟨hne, ev', List.mem_append_left _ hev', hm⟩

theorem remembered_markSeen (h : List EngineEvent) (seen : OrderedDict String ℚ) (key : String)
    {now : ℚ} (ht : t ≤ now) : Remembered h key t (markSeen seen key now) := by
  obtain ⟨old, hold⟩ := OrderedDict.touch_split_self seen key now seenTableMax (by decide)
  exact ⟨old, now, [], hold, ht, by simp⟩

/-- **One more event.** A remembered key is still remembered, or the table has
filled up with other keys. -/
theorem Remembered.step {key : String} (hr : Remembered h key t ev.pre.seen)
    (hstep : EngineStep P ev.pre ev.label ev.post)
    (hreset : ev.label ≠ .resetState) (hkey : ev.post.publicKey = ev.pre.publicKey)
    (hclock : ∀ c, ev.label = .decide c → t ≤ c.now) :
    Remembered (h ++ [ev]) key t ev.post.seen ∨ Crowded (h ++ [ev]) key := by
  obtain ⟨old, ts, young, hent, hts, hyoung⟩ := hr
  have hkept : Remembered (h ++ [ev]) key t ev.pre.seen := by
    refine ⟨old, ts, young, hent, hts, ?_⟩
    intro x hx
    obtain ⟨ev', hev', hm⟩ := hyoung x hx
    exact ⟨ev', List.mem_append_left _ hev', hm⟩
  rw [EngineStep] at hstep
  rw [hstep] at hkey
  by_cases hsame : ev.post.seen = ev.pre.seen
  · rw [hsame]
    exact Or.inl hkept
  rcases apply_seen hreset hkey with hs | ⟨c, k, hc, hs⟩
  · rw [← hstep] at hs
    exact absurd hs hsame
  rw [← hstep] at hs
  have hmark : Marks ev k := ⟨c, hc, hs, hsame⟩
  have hlast : ev ∈ h ++ [ev] := List.mem_append_right _ (List.mem_singleton_self ev)
  by_cases hk : k = key
  · rw [hs, hk]
    exact Or.inl (remembered_markSeen _ _ _ (hclock c hc))
  have hbehind : ∀ x : String × ℚ, x.1 = k ∨ x ∈ young → ∃ ev' ∈ h ++ [ev], Marks ev' x.1 := by
    rintro x (rfl | hx)
    · exact ⟨ev, hlast, hmark⟩
    · obtain ⟨ev', hev', hm⟩ := hyoung x hx
      exact ⟨ev', List.mem_append_left _ hev', hm⟩
  rcases OrderedDict.touch_after c.now seenTableMax hk hent with
    ⟨old', young', hent', hyoung'⟩ | ⟨_, young', hlen, hnodup, hyoung'⟩
  · left
    refine ⟨old', ts, young', ?_, hts, fun x hx => hbehind x (hyoung' x hx)⟩
    rw [hs]
    exact hent'
  · right
    refine ⟨young'.map Prod.fst, hnodup, by rw [List.length_map]; exact hlen, ?_⟩
    intro k' hk'
    obtain ⟨x, hx, rfl⟩ := List.mem_map.mp hk'
    exact ⟨(hyoung' x hx).1, hbehind x (hyoung' x hx).2⟩

/-- A relayed flood was not in the table and is marked by its call. -/
theorem decide_flood_marks {c : RxCall}
    {env : ParsedPacketEnvelope} (henv : parsePacketEnvelope c.raw = some env)
    (h : (decide P e c).2.forward = true) (hk : (decide P e c).2.reason = .kind .flood) :
    (wasSeen e.seen e.settings.seenTtlSeconds (packetHash P env.payloadType env.payload) c.now).2
        = false ∧
      (decide P e c).1.seen =
        markSeen e.seen (packetHash P env.payloadType env.payload) c.now := by
  obtain ⟨env', radio, e₁, e₂, x, f, henv', _, _, hcore, _, hroute, hsent⟩ := decide_forward h
  obtain rfl := Option.some.inj (henv.symm.trans henv')
  have hkind : f.kind = .flood := by
    have hr := hsent.reason
    rw [hk] at hr
    exact (Reason.kind.inj hr).symm
  obtain ⟨hpre, hfresh, _, hmark, _⟩ := decideFlood_ok (routeStage_flood hroute hkind)
  rw [envelopeHash_of_floodPrecheck hpre, hcore.seen] at hmark hfresh
  rw [hcore.settings] at hfresh
  exact ⟨hfresh, hsent.core.seen.trans hmark⟩

/-- The event relayed a flood frame. -/
structure RelaysFlood (P : Primitives) (ev : EngineEvent) (c : RxCall)
    (env : ParsedPacketEnvelope) : Prop where
  label : ev.label = .decide c
  parsed : parsePacketEnvelope c.raw = some env
  forward : (decide P ev.pre c).2.forward = true
  reason : (decide P ev.pre c).2.reason = .kind .flood

/-- Along the history, the clock of an event is a bound for those behind it. -/
theorem Clocked.le {h₁ h₂ : List EngineEvent} {a : EngineEvent} {t' : ℚ}
    (hc : Clocked (h₁ ++ a :: h₂)) (ha : a.label.now? = some t) (hev : ev ∈ h₂)
    (ht : ev.label.now? = some t') : t ≤ t' := by
  have hcons : (a :: h₂).filterMap (fun ev => ev.label.now?) =
      t :: h₂.filterMap (fun ev => ev.label.now?) := List.filterMap_cons_some ha
  rw [Clocked, List.filterMap_append, hcons, List.pairwise_append, List.pairwise_cons] at hc
  exact hc.2.1.1 t' (List.mem_filterMap.mpr ⟨ev, hev, ht⟩)

/-- **At most one relay.** Two relays of the same payload type and payload lie
further apart than the lifetime of a table entry, or a full table of other keys
was marked in between. -/
theorem flood_relayed_at_most_once (P : Primitives) {e₀ e : ForwardingEngine}
    {h₁ h₂ h₃ : List EngineEvent} {a b : EngineEvent} {ca cb : RxCall}
    {enva envb : ParsedPacketEnvelope}
    (r : Run (EngineStep P) e₀ (h₁ ++ a :: (h₂ ++ b :: h₃)) e)
    (hclock : Clocked (h₁ ++ a :: (h₂ ++ b :: h₃)))
    (hkeep : ∀ ev ∈ h₁ ++ a :: (h₂ ++ b :: h₃),
      ev.label ≠ .resetState ∧ ev.post.publicKey = ev.pre.publicKey)
    (ha : RelaysFlood P a ca enva) (hb : RelaysFlood P b cb envb)
    (htype : enva.payloadType = envb.payloadType) (hpayload : enva.payload = envb.payload) :
    (b.pre.settings.seenTtlSeconds : ℚ) < cb.now - ca.now ∨
      Crowded h₂ (packetHash P enva.payloadType enva.payload) := by
  have hnowa : a.label.now? = some ca.now := by rw [ha.label]; rfl
  have hnowb : b.label.now? = some cb.now := by rw [hb.label]; rfl
  obtain ⟨_, hstepa, r'⟩ := r.at_event
  obtain ⟨r₂, _, _⟩ := r'.at_event
  set key := packetHash P enva.payloadType enva.payload with hkey
  have hstart : Remembered [] key ca.now a.post.seen := by
    have hmark := (decide_flood_marks ha.parsed ha.forward ha.reason).2
    have hpost : a.post = (decide P a.pre ca).1 := by
      rw [EngineStep, ha.label] at hstepa
      exact hstepa
    rw [hpost, hmark]
    exact remembered_markSeen _ _ _ le_rfl
  -- between the two relays the key stays, or the table fills up behind it
  have hbetween : Remembered h₂ key ca.now b.pre.seen ∨ Crowded h₂ key := by
    refine r₂.history (P := fun h s => Remembered h key ca.now s.seen ∨ Crowded h key)
      (C := fun ev => ev ∈ h₂) (fun ev hev => hev) (Or.inl hstart) ?_
    intro h ev hstep hev hinv
    rcases hinv with hr | hcrowd
    · have hmem : ev ∈ h₁ ++ a :: (h₂ ++ b :: h₃) := by simp [hev]
      refine hr.step hstep (hkeep ev hmem).1 (hkeep ev hmem).2 ?_
      intro c hc
      exact hclock.le hnowa (List.mem_append_left _ hev) (by rw [hc]; rfl)
    · exact Or.inr (hcrowd.mono ev)
  rcases hbetween with ⟨old, ts, young, hent, hts, _⟩ | hcrowd
  · left
    have hfresh := (decide_flood_marks hb.parsed hb.forward hb.reason).1
    rw [← htype, ← hpayload] at hfresh
    have hget : b.pre.seen.get? key = some ts := by
      rw [OrderedDict.get?_eq_some_iff, hent]
      simp
    have hold := ttl_lt_of_not_wasSeen hfresh hget
    exact hold.trans_le (sub_le_sub_left hts cb.now)
  · exact Or.inr hcrowd

/-- The channel text as the parser reads it. -/
def channelTextEnvelope : ParsedPacketEnvelope where
  header := 0x15
  routeType := 1
  payloadType := 5
  payloadVersion := 0
  pathByte := 1
  hopCount := 1
  hashSize := 1
  pathByteLen := 1
  path := [0x11]
  payload := [0x81, 1, 2, 3, 4, 5]
  payloadOffset := 3
  transportCodes := none

/-- The channel text heard at a given time. -/
def channelTextEvent (e : ForwardingEngine) (now : ℚ) : EngineEvent where
  pre := e
  label := .decide { channelTextCall with now := now }
  post := (decide (fixedPrimitives channelTextDigest) e { channelTextCall with now := now }).1

def firstRelay : EngineEvent := channelTextEvent (stockEngine (fixedPrimitives channelTextDigest)) 0

/-- The text once more, a second after the table entry has run out. -/
def secondRelay : EngineEvent := channelTextEvent firstRelay.post 3601

theorem channelTextEvent_keep (e : ForwardingEngine) (now : ℚ) :
    (channelTextEvent e now).label ≠ .resetState ∧
      (channelTextEvent e now).post.publicKey = (channelTextEvent e now).pre.publicKey :=
  ⟨fun h => EngineOp.noConfusion h, (decide_step _ e _).publicKey⟩

theorem flood_relayed_at_most_once_channelText :
    (secondRelay.pre.settings.seenTtlSeconds : ℚ) < 3601 - 0 ∨
      Crowded [] (packetHash (fixedPrimitives channelTextDigest) channelTextEnvelope.payloadType
        channelTextEnvelope.payload) := by
  have hclock : Clocked [firstRelay, secondRelay] := by
    change List.Pairwise (· ≤ ·) [(0 : ℚ), 3601]
    decide +kernel
  have hkeep : ∀ ev ∈ [firstRelay, secondRelay],
      ev.label ≠ .resetState ∧ ev.post.publicKey = ev.pre.publicKey := by
    intro ev hev
    rcases List.mem_pair.mp hev with rfl | rfl
    · exact channelTextEvent_keep _ _
    · exact channelTextEvent_keep _ _
  have hrun : Run (EngineStep (fixedPrimitives channelTextDigest)) firstRelay.pre
      ([] ++ firstRelay :: ([] ++ secondRelay :: [])) secondRelay.post :=
    Run.snoc (Run.single rfl) rfl
  exact flood_relayed_at_most_once (fixedPrimitives channelTextDigest) hrun hclock hkeep
    ⟨rfl, by decide +kernel, by decide +kernel, by decide +kernel⟩
    ⟨rfl, by decide +kernel, by decide +kernel, by decide +kernel⟩ rfl rfl

/-! ### At most one relay, whatever the route -/

variable {e' : ForwardingEngine} {env : ParsedPacketEnvelope} {c : RxCall} {f : Forwarding}
  {raw : Bytes} {facts : RxFacts} {key : String} {now : ℚ}

/-- The key under which a forward marks its frame: a MULTIPART goes by the ACK in it. -/
def relayKey (P : Primitives) (env : ParsedPacketEnvelope) : String :=
  if env.payloadType = ptMultipart then packetHash P ptMultipart (env.payload.drop 1)
  else envelopeHash P env

/-- The key was not in the table and has been marked. -/
def MarksFresh (e e' : ForwardingEngine) (key : String) (now : ℚ) : Prop :=
  (wasSeen e.seen e.settings.seenTtlSeconds key now).2 = false ∧
    e'.seen = markSeen e.seen key now

theorem decideTrace_marks
    (h : decideTrace e raw env facts key now = (e', .ok f)) : MarksFresh e e' key now := by
  rw [decideTrace] at h
  dsimp only at h
  rcases wasSeen_cases e.seen e.settings.seenTtlSeconds key now with hw | ⟨seen, hw, hmark⟩
  · simp only [hw, if_true] at h
    repeat' split at h
    all_goals cases h
  · simp only [hw, hmark, Bool.false_eq_true, if_false] at h
    repeat' split at h
    all_goals cases h
    exact ⟨by rw [hw], rfl⟩

theorem decideDirect_marks
    (h : decideDirect P e raw env facts (envelopeHash P env) now = (e', .ok f)) :
    MarksFresh e e' (relayKey P env) now := by
  rw [decideDirect] at h
  dsimp only at h
  rw [relayKey]
  split at h
  · rename_i htrace
    rw [if_neg (by rw [htrace]; decide)]
    exact decideTrace_marks h
  split at h
  · cases h
  split at h
  · cases h
  split at h
  · cases h
  split at h
  · rename_i hmulti
    rw [if_pos hmulti]
    split at h
    · cases h
    rcases wasSeen_cases e.seen e.settings.seenTtlSeconds
      (packetHash P ptMultipart (env.payload.drop 1)) now with hw | ⟨seen, hw, hmark⟩
    · simp only [hw, if_true] at h
      cases h
    · simp only [hw, hmark, Bool.false_eq_true, if_false] at h
      cases h
      exact ⟨by rw [hw], rfl⟩
  · rename_i hmulti
    rw [if_neg hmulti]
    rcases wasSeen_cases e.seen e.settings.seenTtlSeconds (envelopeHash P env) now with
      hw | ⟨seen, hw, hmark⟩
    · simp only [hw, if_true] at h
      cases h
    · simp only [hw, hmark, Bool.false_eq_true, if_false] at h
      split at h <;> cases h <;> exact ⟨by rw [hw], rfl⟩

/-- The event relayed a frame with the key. -/
structure Relays (P : Primitives) (ev : EngineEvent) (c : RxCall) (key : String) : Prop where
  label : ev.label = .decide c
  forward : (decide P ev.pre c).2.forward = true
  key : (parsePacketEnvelope c.raw).map (relayKey P) = some key

/-- **Every forward marks its frame**, be it a flood, a direct frame, an ACK or a TRACE. -/
theorem Relays.marks (hr : Relays P ev c key) (hstep : EngineStep P ev.pre ev.label ev.post) :
    MarksFresh ev.pre ev.post key c.now := by
  obtain ⟨env, henv, rfl⟩ := Option.map_eq_some_iff.mp hr.key
  obtain ⟨env', radio, e₁, e₂, x, f, henv', _, _, hcore, _, hroute, hsent⟩ :=
    decide_forward hr.forward
  obtain rfl := Option.some.inj (henv.symm.trans henv')
  have hmarks : MarksFresh e₁ e₂ (relayKey P env) c.now := by
    by_cases hkind : f.kind = .flood
    · obtain ⟨hpre, hfresh, _, hmark, _⟩ := decideFlood_ok (routeStage_flood hroute hkind)
      have htype : env.payloadType ≠ ptMultipart := by
        intro ht
        rw [ht] at hpre
        simp [floodPrecheck, floodForwardedTypes] at hpre
      rw [relayKey, if_neg htype]
      exact ⟨hfresh, hmark⟩
    · exact decideDirect_marks (routeStage_direct hroute hkind).2
  rw [MarksFresh, hcore.seen, hcore.settings] at hmarks
  rw [EngineStep, hr.label] at hstep
  rw [hstep]
  exact ⟨hmarks.1, hsent.core.seen.trans hmarks.2⟩

/-- **No frame is relayed twice, whatever the route.** Two relays under one key lie
further apart than the lifetime of a table entry, or a full table of other keys
was marked in between. -/
theorem relays_apart {e₀ : ForwardingEngine} {h₁ h₂ h₃ : List EngineEvent} {a b : EngineEvent}
    {ca cb : RxCall}
    (r : Run (EngineStep P) e₀ (h₁ ++ a :: (h₂ ++ b :: h₃)) e)
    (hclock : Clocked (h₁ ++ a :: (h₂ ++ b :: h₃)))
    (hkeep : ∀ ev ∈ h₁ ++ a :: (h₂ ++ b :: h₃),
      ev.label ≠ .resetState ∧ ev.post.publicKey = ev.pre.publicKey)
    (ha : Relays P a ca key) (hb : Relays P b cb key) :
    (b.pre.settings.seenTtlSeconds : ℚ) < cb.now - ca.now ∨ Crowded h₂ key := by
  obtain ⟨_, hstepa, r'⟩ := r.at_event
  obtain ⟨r₂, hstepb, _⟩ := r'.at_event
  have hbetween : Remembered h₂ key ca.now b.pre.seen ∨ Crowded h₂ key := by
    refine r₂.history (P := fun h s => Remembered h key ca.now s.seen ∨ Crowded h key)
      (C := fun ev => ev ∈ h₂) (fun ev hev => hev) (Or.inl ?_) ?_
    · rw [(ha.marks hstepa).2]
      exact remembered_markSeen _ _ _ le_rfl
    · intro h ev hstep hev hinv
      rcases hinv with hr | hcrowd
      · have hmem : ev ∈ h₁ ++ a :: (h₂ ++ b :: h₃) := by simp [hev]
        refine hr.step hstep (hkeep ev hmem).1 (hkeep ev hmem).2 ?_
        intro c hc
        exact hclock.le (by rw [ha.label]; rfl) (List.mem_append_left _ hev) (by rw [hc]; rfl)
      · exact Or.inr (hcrowd.mono ev)
  rcases hbetween with ⟨old, ts, young, hent, hts, _⟩ | hcrowd
  · left
    have hget : b.pre.seen.get? key = some ts := by
      rw [OrderedDict.get?_eq_some_iff, hent]
      simp
    have hold := ttl_lt_of_not_wasSeen (hb.marks hstepb).1 hget
    exact hold.trans_le (sub_le_sub_left hts cb.now)
  · exact Or.inr hcrowd

theorem relays_apart_channelText : (secondRelay.pre.settings.seenTtlSeconds : ℚ) < 3601 - 0 ∨
    Crowded [] (relayKey (fixedPrimitives channelTextDigest) channelTextEnvelope) := by
  have hclock : Clocked [firstRelay, secondRelay] :=
    show List.Pairwise (· ≤ ·) [(0 : ℚ), 3601] by decide +kernel
  have hrun : Run (EngineStep (fixedPrimitives channelTextDigest)) firstRelay.pre
      ([] ++ firstRelay :: ([] ++ secondRelay :: [])) secondRelay.post :=
    Run.snoc (Run.single rfl) rfl
  refine relays_apart hrun hclock ?_ ⟨rfl, by decide +kernel, by decide +kernel⟩
    ⟨rfl, by decide +kernel, by decide +kernel⟩
  intro ev hev
  rcases List.mem_pair.mp hev with rfl | rfl <;> exact channelTextEvent_keep _ _

/-! ### The airtime cap -/

/-- Time and airtime of a forward. -/
def forwardEntry (P : Primitives) (ev : EngineEvent) : Option (ℚ × ℚ) :=
  match ev.label with
  | .decide c =>
    let d := (decide P ev.pre c).2
    if d.forward then some (c.now, d.airtimeMs.getD 0) else none
  | _ => none

/-- All forwards of a history. -/
def forwardLog (P : Primitives) (h : List EngineEvent) : List (ℚ × ℚ) :=
  h.filterMap (forwardEntry P)

theorem forwardLog_append_singleton (P : Primitives) (h : List EngineEvent) (ev : EngineEvent) :
    forwardLog P (h ++ [ev]) = forwardLog P h ++ (forwardEntry P ev).toList := by
  rw [forwardLog, List.filterMap_append, ← forwardLog]
  cases hx : forwardEntry P ev <;> simp [hx]

/-- What leaves the front of the duty window in one event is too old, and only
the forward of the event joins at the end. -/
theorem duty_split
    (hstep : EngineStep P ev.pre ev.label ev.post) (hreset : ev.label ≠ .resetState) :
    ∃ gone, ev.pre.duty.entries ++ (forwardEntry P ev).toList = gone ++ ev.post.duty.entries ∧
      ∀ x ∈ gone, ∃ now, ev.label.now? = some now ∧ x.1 ≤ now - dutyWindowSeconds := by
  obtain ⟨e, op, e'⟩ := ev
  dsimp only at hstep hreset ⊢
  rw [EngineStep] at hstep
  subst hstep
  have hkeep : ∀ e' : ForwardingEngine, e'.duty = e.duty →
      ∃ gone, e.duty.entries ++ [] = gone ++ e'.duty.entries ∧
        ∀ x ∈ gone, ∃ now, op.now? = some now ∧ x.1 ≤ now - dutyWindowSeconds := by
    intro e' hd
    exact ⟨[], by rw [hd, List.append_nil, List.nil_append], by simp⟩
  cases op with
  | decide c =>
    obtain ⟨gone, hsplit, hgone⟩ := prune_split dutyWindowSeconds c.now e.duty.entries
    have hold : ∀ x ∈ gone, ∃ now, (EngineOp.decide c).now? = some now ∧
        x.1 ≤ now - dutyWindowSeconds := fun x hx => ⟨c.now, rfl, hgone x hx⟩
    have hduty := (decide_step P e c).duty
    have hentry : forwardEntry P ⟨e, .decide c, (EngineOp.decide c).apply P e⟩ =
        if (decide P e c).2.forward then some (c.now, (decide P e c).2.airtimeMs.getD 0)
        else none := rfl
    have hpost : ((EngineOp.decide c).apply P e).duty = (decide P e c).1.duty := rfl
    rw [hentry, hpost]
    generalize (decide P e c).1.duty = duty at hduty ⊢
    generalize (decide P e c).2 = d at hduty ⊢
    cases hduty with
    | keep hd =>
      rw [hd]
      exact ⟨[], by simp, by simp⟩
    | prune hd =>
      rw [hd]
      exact ⟨gone, (List.append_nil _).trans hsplit, hold⟩
    | append airtime hair hd hdair _ =>
      rw [hd, hdair]
      by_cases henf : e.settings.dutyCycleEnforced = true
      · refine ⟨gone, ?_, hold⟩
        rw [if_pos henf]
        have h := congrArg (· ++ [(c.now, airtime)]) hsplit
        simpa [DutyWindow.append, DutyWindow.pruned] using h
      · exact ⟨[], by simp [henf, DutyWindow.append], by simp⟩
  | configure settings publicKey radio => exact hkeep _ (configure_duty P e settings publicKey radio)
  | setManagedRules before after => exact hkeep _ rfl
  | addOwnTx now airtimeMs => exact hkeep _ (addOwnTx_sameCore e now airtimeMs).duty
  | airtimeUsedMs now =>
    obtain ⟨gone, hsplit, hgone⟩ := prune_split dutyWindowSeconds now e.duty.entries
    exact ⟨gone, (List.append_nil _).trans hsplit, fun x hx => ⟨now, rfl, hgone x hx⟩⟩
  | gateSnapshot now => exact hkeep _ (gateSnapshot_sameCore P e now).duty
  | resetFilterCounters => exact hkeep _ rfl
  | resetState => exact absurd rfl hreset

/-- A forward under the enforced cap leaves at most the cap in the window. -/
theorem duty_le_cap {x : ℚ × ℚ}
    (hstep : EngineStep P ev.pre ev.label ev.post)
    (henf : ev.pre.settings.dutyCycleEnforced = true) (hx : forwardEntry P ev = some x) :
    (ev.post.duty.entries.map Prod.snd).sum ≤ ev.pre.settings.maxAirtimePerMinuteMs ∧
      ev.label.now? = some x.1 := by
  obtain ⟨e, op, e'⟩ := ev
  dsimp only at hstep henf ⊢
  rw [EngineStep] at hstep
  subst hstep
  cases op with
  | decide c =>
    have hduty := (decide_step P e c).duty
    have hentry : (if (decide P e c).2.forward then
        some (c.now, (decide P e c).2.airtimeMs.getD 0) else none) = some x := hx
    have hpost : ((EngineOp.decide c).apply P e).duty = (decide P e c).1.duty := rfl
    rw [hpost]
    generalize (decide P e c).1.duty = duty at hduty ⊢
    generalize (decide P e c).2 = d at hduty hentry
    cases hduty with
    | keep hd => simp [hd] at hentry
    | prune hd => simp [hd] at hentry
    | append airtime hair hd hdair hcap =>
      rw [hd, if_pos rfl] at hentry
      refine ⟨?_, by rw [← Option.some.inj hentry]; rfl⟩
      have h := hcap henf
      rw [if_pos henf]
      simpa [DutyWindow.append, DutyWindow.used] using h
  | configure settings publicKey radio => cases hx
  | setManagedRules before after => cases hx
  | addOwnTx now airtimeMs => cases hx
  | airtimeUsedMs now => cases hx
  | gateSnapshot now => cases hx
  | resetFilterCounters => cases hx
  | resetState => cases hx

/-- A frame over the cap adds nothing to the window. -/
theorem dutyCycle_adds_nothing {c : RxCall}
    (h : (decide P e c).2.reason = .drop .dutyCycle) :
    (decide P e c).2.forward = false ∧ (decide P e c).1.duty.entries <:+ e.duty.entries := by
  have hfwd : (decide P e c).2.forward = false := by
    by_contra hne
    obtain ⟨_, _, _, _, _, _, _, _, _, _, _, _, hsent⟩ := decide_forward (Bool.not_eq_false _ |>.mp hne)
    rw [hsent.reason] at h
    cases h
  refine ⟨hfwd, ?_⟩
  have hduty := (decide_step P e c).duty
  generalize (decide P e c).1.duty = duty at hduty ⊢
  cases hduty with
  | keep _ => exact List.suffix_rfl
  | prune _ => exact List.dropWhile_suffix _
  | append _ _ hd _ _ =>
    rw [hfwd] at hd
    cases hd

/-- The log of a run is what left the window, all of it too old, and what the
window still holds. -/
theorem forwardLog_split {e₀ : ForwardingEngine}
    (r : Run (EngineStep P) e₀ h e) (hreset : ∀ ev ∈ h, ev.label ≠ .resetState) :
    ∃ gone, e₀.duty.entries ++ forwardLog P h = gone ++ e.duty.entries ∧
      ∀ x ∈ gone, ∃ ev ∈ h, ∃ now, ev.label.now? = some now ∧ x.1 ≤ now - dutyWindowSeconds := by
  refine r.history (P := fun h e => ∃ gone, e₀.duty.entries ++ forwardLog P h =
      gone ++ e.duty.entries ∧ ∀ x ∈ gone, ∃ ev ∈ h, ∃ now, ev.label.now? = some now ∧
        x.1 ≤ now - dutyWindowSeconds) (C := fun ev => ev.label ≠ .resetState) hreset
    ⟨[], by simp [forwardLog], by simp⟩ ?_
  rintro h ev hstep hne ⟨gone, hsplit, hgone⟩
  obtain ⟨gone', hsplit', hgone'⟩ := duty_split hstep hne
  refine ⟨gone ++ gone', ?_, ?_⟩
  · rw [forwardLog_append_singleton, ← List.append_assoc, hsplit, List.append_assoc, hsplit',
      List.append_assoc]
  · intro x hx
    rcases List.mem_append.mp hx with hx | hx
    · obtain ⟨ev', hev', hnow⟩ := hgone x hx
      exact ⟨ev', List.mem_append_left _ hev', hnow⟩
    · exact ⟨ev, List.mem_append_right _ (List.mem_singleton_self ev), hgone' x hx⟩

/-- The cap over every window of a run. -/
theorem windowSum_forwardLog_le {e₀ : ForwardingEngine}
    (r : Run (EngineStep P) e₀ h e) (hclock : Clocked h) {cap : ℕ}
    (hcap : ∀ ev ∈ h, ev.label ≠ .resetState ∧ ev.pre.settings.dutyCycleEnforced = true ∧
      ev.pre.settings.maxAirtimePerMinuteMs = cap) (t : ℚ) :
    windowSum dutyWindowSeconds t (forwardLog P h) ≤ cap := by
  induction r with
  | nil => simp [forwardLog, windowSum, inWindow]
  | @snoc e e' op h r hstep ih =>
    set ev : EngineEvent := ⟨e, op, e'⟩
    have hstep' : EngineStep P ev.pre ev.label ev.post := hstep
    have hprev := ih (hclock.sublist ((List.sublist_append_left h [ev]).filterMap _))
      (fun ev' hev' => hcap ev' (List.mem_append_left _ hev'))
    rw [forwardLog_append_singleton]
    cases hx : forwardEntry P ev with
    | none => simpa using hprev
    | some x =>
      obtain ⟨hreset, henf, hmax⟩ := hcap ev (by simp)
      obtain ⟨hsum, hnow⟩ := duty_le_cap hstep' henf hx
      by_cases hin : t - dutyWindowSeconds < x.1 ∧ x.1 ≤ t
      · -- the window ends no earlier than this forward, which was checked
        obtain ⟨gone, hsplit, hgone⟩ := forwardLog_split (r.snoc hstep)
          (fun ev' hev' => (hcap ev' hev').1)
        rw [forwardLog_append_singleton, hx] at hsplit
        have hold : ∀ y ∈ gone, y.1 ≤ x.1 - dutyWindowSeconds := by
          intro y hy
          obtain ⟨ev', hev', now, hnow', hle⟩ := hgone y hy
          have hbefore : now ≤ x.1 := by
            rcases List.mem_append.mp hev' with hmem | hmem
            · rw [Clocked, List.filterMap_append] at hclock
              exact (List.pairwise_append.mp hclock).2.2 now
                (List.mem_filterMap.mpr ⟨ev', hmem, hnow'⟩) x.1
                (List.mem_filterMap.mpr ⟨ev, by simp, hnow⟩)
            · rw [List.mem_singleton.mp hmem] at hnow'
              exact (Option.some.inj (hnow'.symm.trans hnow)).le
          linarith
        calc windowSum dutyWindowSeconds t (forwardLog P h ++ (some x).toList)
            ≤ (ev.post.duty.entries.map Prod.snd).sum :=
              windowSum_le_of_suffix hsplit hold hin.2 (DutyWindow.nonneg _)
                (DutyWindow.nonneg _)
          _ ≤ cap := hmax ▸ hsum
      · have hzero : windowSum dutyWindowSeconds t [x] = 0 := by
          simp only [windowSum, inWindow, List.filter_cons, hin, decide_false,
            Bool.false_eq_true, if_false, List.filter_nil, List.map_nil, List.sum_nil]
        have hlist : (some x).toList = [x] := rfl
        rw [hlist, windowSum_append, hzero, add_zero]
        exact hprev

/-- **Rolling airtime cap.** While the cap is enforced, the forwards of any
window of a run stay under it, and a frame over the cap is not forwarded and
adds nothing to the window. -/
theorem forward_airtime_le_cap (P : Primitives) {e₀ e : ForwardingEngine} {h : List EngineEvent}
    (r : Run (EngineStep P) e₀ h e) (hclock : Clocked h) (cap : ℕ)
    (hcap : ∀ ev ∈ h, ev.label ≠ .resetState ∧ ev.pre.settings.dutyCycleEnforced = true ∧
      ev.pre.settings.maxAirtimePerMinuteMs = cap) :
    (∀ t, windowSum dutyWindowSeconds t (forwardLog P h) ≤ cap) ∧
      ∀ ev ∈ h, ∀ c, ev.label = .decide c →
        (decide P ev.pre c).2.reason = .drop .dutyCycle →
          forwardEntry P ev = none ∧ (decide P ev.pre c).1.duty.entries <:+ ev.pre.duty.entries := by
  refine ⟨windowSum_forwardLog_le r hclock hcap, ?_⟩
  intro ev _ c hc hreason
  obtain ⟨hfwd, hsuffix⟩ := dutyCycle_adds_nothing hreason
  refine ⟨?_, hsuffix⟩
  rw [forwardEntry, hc]
  simp [hfwd]

theorem forward_airtime_le_cap_channelText :
    (∀ t, windowSum dutyWindowSeconds t
        (forwardLog (fixedPrimitives channelTextDigest) [firstRelay]) ≤ (3600 : ℕ)) ∧
      ∀ ev ∈ [firstRelay], ∀ c, ev.label = .decide c →
        (decide (fixedPrimitives channelTextDigest) ev.pre c).2.reason = .drop .dutyCycle →
          forwardEntry (fixedPrimitives channelTextDigest) ev = none ∧
            (decide (fixedPrimitives channelTextDigest) ev.pre c).1.duty.entries <:+
              ev.pre.duty.entries := by
  have hrun : Run (EngineStep (fixedPrimitives channelTextDigest)) firstRelay.pre [firstRelay]
      firstRelay.post := Run.single rfl
  have hclock : Clocked [firstRelay] := List.pairwise_singleton (· ≤ ·) (0 : ℚ)
  refine forward_airtime_le_cap (fixedPrimitives channelTextDigest) hrun hclock 3600 ?_
  intro ev hev
  rw [List.mem_singleton.mp hev]
  exact ⟨fun h => EngineOp.noConfusion h, rfl, rfl⟩

end RtfmEv.HostRepeater
