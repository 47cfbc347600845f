import RtfmEv.HostRepeater.EngineSpec

/-!
# What a forwarded frame looks like

A flood forward appends our hash to the path, a direct forward takes the first
hop off, and a TRACE forward appends one reading. Each result is written as a
`Frame`, so that it parses back is the round trip of the packet format.

The TRACE rules count the path byte up as a plain number while the parser reads
it as packed size and count. The two readings agree up to 62 readings in the
path; from 63 on the forwarded frame is read with another path.
-/

namespace RtfmEv.HostRepeater

open RtfmEv.Lib RtfmEv.PathUtils

/-! ### Rebuilding frames -/

theorem headerAndCodes_encode (f : Frame) :
    headerAndCodes f.encode f.envelope = f.header :: f.codes := by
  have hcodes := f.codes_length
  have hsome : f.envelope.transportCodes.isSome = hasTransportCodes (f.header.toNat &&& 0x03) := by
    rw [Frame.envelope, Frame.transportCodes]
    split
    · rename_i ht
      rw [ht]
      rfl
    · rename_i ht
      rw [Bool.not_eq_true _ |>.mp ht]
      rfl
  have hlen : (if f.envelope.transportCodes.isSome then 5 else 1) = (f.header :: f.codes).length := by
    rw [hsome, List.length_cons, hcodes]
    split <;> rfl
  have hsplit : f.encode = (f.header :: f.codes) ++ (f.pathByte :: f.path ++ f.payload) := by
    simp [Frame.encode]
  rw [headerAndCodes, hlen, hsplit, List.take_left]

theorem encodePathByte_eq {size hops : ℕ} (h : hops < 64) :
    encodePathByte size hops = 64 * (size - 1) + hops := by
  rw [encodePathByte, and_sixtythree, Nat.mod_eq_of_lt h, shiftLeft_six_or h]

theorem encodePathByte_fields {size hops : ℕ} (hs : 1 ≤ size) (hs' : size ≤ 3) (h : hops < 64) :
    (UInt8.ofNat (encodePathByte size hops)).toNat / 64 % 4 = size - 1 ∧
      (UInt8.ofNat (encodePathByte size hops)).toNat % 64 = hops := by
  rw [encodePathByte_eq h, toNat_ofNat_of_lt (by omega)]
  omega

variable {e : ForwardingEngine} {env : ParsedPacketEnvelope}

theorem path_room_of_floodGates {P : Primitives} {facts : RxFacts} (h : floodGates P e env facts = none) :
    env.hopCount < 63 ∧ (env.hopCount + 1) * env.hashSize ≤ maxPathSize := by
  rw [floodGates] at h
  repeat' split at h
  all_goals simp only [reduceCtorEq] at h
  rename_i hfull
  omega

theorem exists_key (h : 3 ≤ (e.publicKey.getD []).length) :
    ∃ key, e.publicKey = some key ∧ 3 ≤ key.length := by
  cases hp : e.publicKey with
  | none =>
    rw [hp] at h
    exact absurd h (by decide)
  | some key =>
    rw [hp] at h
    exact ⟨key, rfl, h⟩

theorem ourHash_eq {key : Bytes} (h : e.publicKey = some key) (size : ℕ) :
    e.ourHash size = key.take size := by
  rw [ForwardingEngine.ourHash, h, Option.getD_some]

/-! ### A stock repeater -/

/-- Outside functions for one frame: the hash engine returns its digest, no
signature verifies and no text is searched. -/
def fixedPrimitives (digest : Bytes) : Primitives where
  sha256 := fun _ => digest
  aesEcbDecrypt := fun _ ciphertext => ciphertext
  verifyKey := fun _ _ _ => false
  isUtf8 := fun _ => true
  reSearch := fun _ _ => some false
  parseFloat := fun _ => none
  strFloat := fun _ => ""
  reprStr := fun s => s

def stockKey : Bytes := [0xA1, 0xB2, 0xC3] ++ List.replicate 29 0

def stockRadio : RadioParams where
  freqMhz := some (869525 / 1000)
  bwKhz := 625 / 10
  sf := 8
  cr := 8

/-- A new engine with the stock settings. -/
def stockEngine (P : Primitives) : ForwardingEngine :=
  ForwardingEngine.new P HostRepeaterSettings.default (some stockKey) (some stockRadio) Random.zero

/-! ### Flood -/

/-- The frame with one more hop at the end of its path. -/
def appendHop (f : Frame) (hash : Bytes) (hlen : hash.length = f.envelope.hashSize)
    (hhops : f.envelope.hopCount < 63)
    (hroom : (f.envelope.hopCount + 1) * f.envelope.hashSize ≤ 64) : Frame :=
  have hfields := encodePathByte_fields f.hashSize_pos f.hashSize_le
    (show f.envelope.hopCount + 1 < 64 from Nat.succ_lt_succ hhops)
  have hpath : (f.path ++ hash).length = (f.envelope.hopCount + 1) * f.envelope.hashSize := by
    rw [List.length_append, hlen, f.length_path, Nat.succ_mul]
  f.withPath (UInt8.ofNat (encodePathByte f.envelope.hashSize (f.envelope.hopCount + 1)))
    (f.path ++ hash)
    (by
      have := f.hashSize_le
      omega)
    (by rw [hpath, hfields.1, hfields.2, Nat.sub_add_cancel f.hashSize_pos])
    (hpath.trans_le hroom)

section AppendHop

variable {f : Frame} {hash : Bytes} {hlen : hash.length = f.envelope.hashSize}
  {hhops : f.envelope.hopCount < 63}
  {hroom : (f.envelope.hopCount + 1) * f.envelope.hashSize ≤ 64}

theorem hopCount_appendHop :
    (appendHop f hash hlen hhops hroom).envelope.hopCount = f.envelope.hopCount + 1 :=
  (encodePathByte_fields f.hashSize_pos f.hashSize_le (Nat.succ_lt_succ hhops)).2

theorem hashSize_appendHop :
    (appendHop f hash hlen hhops hroom).envelope.hashSize = f.envelope.hashSize := by
  have h := (encodePathByte_fields f.hashSize_pos f.hashSize_le (Nat.succ_lt_succ hhops)).1
  exact (congrArg (· + 1) h).trans (Nat.sub_add_cancel f.hashSize_pos)

theorem length_appendHop :
    (appendHop f hash hlen hhops hroom).encode.length =
      f.encode.length + f.envelope.hashSize := by
  rw [Frame.length_encode, Frame.length_encode]
  simp only [appendHop, Frame.withPath, List.length_append, hlen]
  omega

end AppendHop

/-- The received envelope `env` and what is sent instead: our hash joined the
path and nothing else changed. -/
structure FloodAppended (P : Primitives) (e : ForwardingEngine) (c : RxCall)
    (env env' : ParsedPacketEnvelope) (key forwarded : Bytes) : Prop where
  received : parsePacketEnvelope c.raw = some env
  identity : e.publicKey = some key
  sent : (decide P e c).2.forwarded = some forwarded
  parsed : parsePacketEnvelope forwarded = some env'
  header : env'.header = env.header
  transportCodes : env'.transportCodes = env.transportCodes
  hashSize : env'.hashSize = env.hashSize
  payload : env'.payload = env.payload
  hopCount : env'.hopCount = env.hopCount + 1
  path : env'.path = env.path ++ key.take env.hashSize
  length_eq : forwarded.length = c.raw.length + env.hashSize
  length_le : forwarded.length ≤ 174
  priority : (decide P e c).2.priority = some (env.hopCount + 1)
  /-- whichever engine hears the forwarded frame computes the same hash for it -/
  packetHash : ∀ e₂ c₂, c₂.raw = forwarded →
    (decide P e₂ c₂).2.packetHash = (decide P e c).2.packetHash

/-- A flood that passes the length checks is no TRACE, so its hash covers type
and payload only. -/
theorem envelopeHash_of_floodPrecheck {P : Primitives} (h : floodPrecheck e env.payloadType env.payload = none) :
    envelopeHash P env = packetHash P env.payloadType env.payload := by
  have htype : env.payloadType ≠ ptTrace := by
    intro ht
    rw [ht] at h
    simp [floodPrecheck, floodForwardedTypes] at h
  rw [envelopeHash, if_neg htype]

/-- **Flood forwarding appends one hop.** -/
theorem decide_flood_appends (P : Primitives) (e : ForwardingEngine) (c : RxCall)
    (h : (decide P e c).2.forward = true)
    (hk : (decide P e c).2.reason = .kind .flood) :
    ∃ env env' key forwarded, FloodAppended P e c env env' key forwarded := by
  obtain ⟨env, radio, e₁, e₂, x, f, henv, _, hkey, hcore, _, hroute, hsent⟩ := decide_forward h
  have hkind : f.kind = .flood := by
    have hr := hsent.reason
    rw [hk] at hr
    exact (Reason.kind.inj hr).symm
  obtain ⟨hpre, _, hgates, _, rfl⟩ := decideFlood_ok (routeStage_flood hroute hkind)
  obtain ⟨hhops, hroom⟩ := path_room_of_floodGates hgates
  obtain ⟨key, hpk, hlen⟩ := exists_key hkey
  obtain ⟨fr, hraw, rfl⟩ := exists_frame_of_parse henv
  have htake : (key.take fr.envelope.hashSize).length = fr.envelope.hashSize := by
    have := fr.hashSize_le
    rw [List.length_take]
    omega
  let fr' := appendHop fr (key.take fr.envelope.hashSize) htake hhops hroom
  have hframe : floodFrame e₁ c.raw fr.envelope = fr'.encode := by
    rw [floodFrame, ← hraw, headerAndCodes_encode, hcore.ourHash, ourHash_eq hpk]
    simp [Frame.encode, fr', appendHop, Frame.withPath, Frame.envelope]
  have hparsed := parsePacketEnvelope_encode fr'
  have hsent' := hsent.forwarded
  have hle := hsent.length_le
  rw [hframe] at hsent' hle
  refine ⟨fr.envelope, fr'.envelope, key, fr'.encode, ?_⟩
  exact
    { received := henv
      identity := hpk
      sent := hsent'
      parsed := hparsed
      header := rfl
      transportCodes := rfl
      hashSize := hashSize_appendHop
      payload := rfl
      hopCount := hopCount_appendHop
      path := rfl
      length_eq := by rw [length_appendHop, hraw]
      length_le := hle
      priority := hsent.priority
      packetHash := by
        intro e₂ c₂ hc
        have hpre' : floodPrecheck e₁ fr'.envelope.payloadType fr'.envelope.payload = none := hpre
        rw [decide_packetHash (hc ▸ hparsed), decide_packetHash henv,
          envelopeHash_of_floodPrecheck hpre, envelopeHash_of_floodPrecheck hpre']
        rfl }

/-- The digest of a channel text with payload `81 01 02 03 04 05`. -/
def channelTextDigest : Bytes :=
  [0xF0, 0x82, 0x77, 0x4B, 0x39, 0xCE, 0x11, 0xA1, 0x77, 0x61, 0xE8, 0x61, 0x3F, 0xBA, 0xEE, 0xD2,
    0x5C, 0xB7, 0xFE, 0x2B, 0x94, 0xF0, 0x21, 0x4B, 0x08, 0x46, 0x7E, 0xD1, 0xB9, 0x73, 0x92, 0x5A]

/-- A channel text that has already passed one hop. -/
def channelTextCall : RxCall := { raw := [0x15, 0x01, 0x11, 0x81, 1, 2, 3, 4, 5], now := 0 }

theorem decide_flood_appends_channelText :
    ∃ env env' key forwarded, FloodAppended (fixedPrimitives channelTextDigest)
      (stockEngine (fixedPrimitives channelTextDigest)) channelTextCall env env' key forwarded :=
  decide_flood_appends _ _ _ (by decide +kernel) (by decide +kernel)

/-! ### Direct -/

/-- The frame without its first hop, perhaps under another header and with
another payload. -/
def popHop (f : Frame) (header : UInt8) (codes payload : Bytes)
    (hcodes : codes.length = if hasTransportCodes (header.toNat &&& 0x03) then 4 else 0)
    (hne : payload ≠ []) : Frame where
  header := header
  codes := codes
  pathByte := poppedPathByte f.envelope
  path := f.path.drop f.envelope.hashSize
  payload := payload
  codes_length := hcodes
  mode := by
    have hlt : f.envelope.hopCount < 64 := Nat.mod_lt _ (by decide)
    have hfields := encodePathByte_fields f.hashSize_pos f.hashSize_le
      (show f.envelope.hopCount - 1 < 64 by omega)
    have := f.hashSize_le
    rw [poppedPathByte, hfields.1]
    omega
  path_length := by
    have hlt : f.envelope.hopCount < 64 := Nat.mod_lt _ (by decide)
    have hfields := encodePathByte_fields f.hashSize_pos f.hashSize_le
      (show f.envelope.hopCount - 1 < 64 by omega)
    rw [poppedPathByte, hfields.1, hfields.2, Nat.sub_add_cancel f.hashSize_pos, List.length_drop,
      f.length_path, Nat.sub_mul, Nat.one_mul]
  path_le := by
    rw [List.length_drop]
    exact (Nat.sub_le _ _).trans f.path_le
  payload_ne := hne

section PopHop

variable {f : Frame} {header : UInt8} {codes payload : Bytes}
  {hcodes : codes.length = if hasTransportCodes (header.toNat &&& 0x03) then 4 else 0}
  {hne : payload ≠ []}

theorem popHop_pathByte :
    (popHop f header codes payload hcodes hne).envelope.hopCount = f.envelope.hopCount - 1 ∧
      (popHop f header codes payload hcodes hne).envelope.hashSize = f.envelope.hashSize := by
  have hlt : f.envelope.hopCount < 64 := Nat.mod_lt _ (by decide)
  have hfields := encodePathByte_fields f.hashSize_pos f.hashSize_le
    (show f.envelope.hopCount - 1 < 64 by omega)
  exact ⟨hfields.2, (congrArg (· + 1) hfields.1).trans (Nat.sub_add_cancel f.hashSize_pos)⟩

end PopHop

/-- A plain ACK on a direct route. -/
structure PlainDirectAck (env : ParsedPacketEnvelope) : Prop where
  header : env.header = ptAck <<< 2 ||| routeDirect
  routeType : env.routeType = routeDirect
  payloadType : env.payloadType = ptAck
  transportCodes : env.transportCodes = none

/-- The received envelope `env` and what is sent instead: our hash was the first
hop and is gone. -/
structure HopPopped (P : Primitives) (e : ForwardingEngine) (c : RxCall)
    (env env' : ParsedPacketEnvelope) (key forwarded : Bytes) : Prop where
  received : parsePacketEnvelope c.raw = some env
  identity : e.publicKey = some key
  routed : env.routeType = routeDirect ∨ env.routeType = routeTransportDirect
  hops_pos : 1 ≤ env.hopCount
  nextHop : env.path.take env.hashSize = key.take env.hashSize
  sent : (decide P e c).2.forwarded = some forwarded
  parsed : parsePacketEnvelope forwarded = some env'
  hopCount : env'.hopCount = env.hopCount - 1
  hashSize : env'.hashSize = env.hashSize
  path : env'.path = env.path.drop env.hashSize
  direct : (decide P e c).2.reason = .kind .direct →
    env'.header = env.header ∧ env'.transportCodes = env.transportCodes ∧
      env'.payload = env.payload
  ack : (decide P e c).2.reason = .kind .ack →
    PlainDirectAck env' ∧ env'.payload = env.payload
  multipartAck : (decide P e c).2.reason = .kind .multipartAck →
    PlainDirectAck env' ∧ env'.payload = env.payload.drop 1

theorem ackHeader_toNat : ackHeader.toNat = ptAck <<< 2 ||| routeDirect := rfl

theorem plainDirectAck_popHop {f : Frame} {payload : Bytes} (hne : payload ≠ []) :
    PlainDirectAck (popHop f ackHeader [] payload rfl hne).envelope :=
  ⟨ackHeader_toNat, (by decide : ackHeader.toNat % 4 = routeDirect),
    (by decide : ackHeader.toNat / 4 % 16 = ptAck),
    if_neg (show ¬ hasTransportCodes (ackHeader.toNat &&& 0x03) = true by decide)⟩

/-- **Direct forwarding pops our hop.** -/
theorem decide_direct_pops (P : Primitives) (e : ForwardingEngine) (c : RxCall)
    (h : (decide P e c).2.forward = true)
    (hk : (decide P e c).2.reason = .kind .direct ∨ (decide P e c).2.reason = .kind .ack ∨
      (decide P e c).2.reason = .kind .multipartAck) :
    ∃ env env' key forwarded, HopPopped P e c env env' key forwarded := by
  obtain ⟨env, radio, e₁, e₂, x, f, henv, _, hkey, hcore, _, hroute, hsent⟩ := decide_forward h
  rw [hsent.reason] at hk
  have hkind : f.kind ≠ .flood := by
    rintro hf
    rw [hf] at hk
    simp at hk
  obtain ⟨hrouted, hdirect⟩ := routeStage_direct hroute hkind
  rcases decideDirect_ok hdirect with ⟨_, htrace⟩ | ⟨hhops, hnext, hrebuild⟩
  · obtain ⟨_, rfl⟩ := decideTrace_ok htrace
    simp at hk
  obtain ⟨key, hpk, _⟩ := exists_key hkey
  rw [hcore.ourHash, ourHash_eq hpk] at hnext
  obtain ⟨fr, hraw, rfl⟩ := exists_frame_of_parse henv
  -- whatever frame is sent without our hop, path and path byte are the same
  have hpop : ∀ header codes payload hcodes hne,
      f.forwarded = (popHop fr header codes payload hcodes hne).encode →
      (f.kind = .direct → header = fr.header ∧ codes = fr.codes ∧ payload = fr.payload) →
      (f.kind = .ack → PlainDirectAck (popHop fr header codes payload hcodes hne).envelope ∧
        payload = fr.payload) →
      (f.kind = .multipartAck →
        PlainDirectAck (popHop fr header codes payload hcodes hne).envelope ∧
          payload = fr.payload.drop 1) →
      ∃ env env' key forwarded, HopPopped P e c env env' key forwarded := by
    intro header codes payload hcodes hne hf hd ha hm
    refine ⟨fr.envelope, (popHop fr header codes payload hcodes hne).envelope, key, f.forwarded, ?_⟩
    exact
      { received := henv
        identity := hpk
        routed := hrouted
        hops_pos := Nat.one_le_iff_ne_zero.mpr hhops
        nextHop := hnext
        sent := hsent.forwarded
        parsed := hf ▸ parsePacketEnvelope_encode _
        hopCount := popHop_pathByte.1
        hashSize := popHop_pathByte.2
        path := rfl
        direct := by
          intro hr
          rw [hsent.reason] at hr
          obtain ⟨rfl, rfl, rfl⟩ := hd (Reason.kind.inj hr)
          exact ⟨rfl, rfl, rfl⟩
        ack := by
          intro hr
          rw [hsent.reason] at hr
          exact ha (Reason.kind.inj hr)
        multipartAck := by
          intro hr
          rw [hsent.reason] at hr
          exact hm (Reason.kind.inj hr) }
  cases hrebuild with
  | multipartAck delay hlen =>
    have hne : fr.payload.drop 1 ≠ [] := by
      intro hnil
      have hz := congrArg List.length hnil
      rw [List.length_drop, List.length_nil] at hz
      have hl : 5 ≤ fr.payload.length := hlen
      omega
    exact hpop ackHeader [] _ rfl hne (by simp [popHop, Frame.encode, Frame.envelope])
      (by simp) (by simp) (fun _ => ⟨plainDirectAck_popHop hne, rfl⟩)
  | ack =>
    exact hpop ackHeader [] _ rfl fr.payload_ne (by simp [popHop, Frame.encode, Frame.envelope])
      (by simp) (fun _ => ⟨plainDirectAck_popHop fr.payload_ne, rfl⟩) (by simp)
  | direct =>
    refine hpop fr.header fr.codes fr.payload fr.codes_length fr.payload_ne ?_
      (fun _ => ⟨rfl, rfl, rfl⟩) (by simp) (by simp)
    rw [← hraw, headerAndCodes_encode]
    simp [popHop, Frame.encode, Frame.envelope]

/-- The digest of a text message with payload `D1 22 01 02 03 04`. -/
def directTextDigest : Bytes :=
  [0xCA, 0x63, 0x97, 0x96, 0x94, 0xB1, 0x56, 0x94, 0x67, 0x76, 0xC1, 0xBA, 0xC2, 0xCD, 0x42, 0xC2,
    0x2A, 0xA5, 0x6A, 0xE5, 0x8C, 0x4A, 0x9D, 0x5D, 0x67, 0x9D, 0x73, 0x12, 0xA8, 0x9F, 0xB4, 0x1B]

/-- A text message for which the stock repeater is the next of two hops. -/
def directTextCall : RxCall :=
  { raw := [0x0A, 0x02, 0xA1, 0x22, 0xD1, 0x22, 1, 2, 3, 4], now := 0 }

theorem decide_direct_pops_text :
    ∃ env env' key forwarded, HopPopped (fixedPrimitives directTextDigest)
      (stockEngine (fixedPrimitives directTextDigest)) directTextCall env env' key forwarded :=
  decide_direct_pops _ _ _ (by decide +kernel) (Or.inl (by decide +kernel))

/-! ### TRACE -/

/-- The received envelope `env` and what is sent instead: one reading joined the
path and the path byte counts it. -/
structure TraceAppended (P : Primitives) (e : ForwardingEngine) (c : RxCall)
    (env env' : ParsedPacketEnvelope) (forwarded : Bytes) : Prop where
  received : parsePacketEnvelope c.raw = some env
  sent : (decide P e c).2.forwarded = some forwarded
  parsed : parsePacketEnvelope forwarded = some env'
  header : env'.header = env.header
  transportCodes : env'.transportCodes = env.transportCodes
  payload : env'.payload = env.payload
  pathByte : env'.pathByte = env.pathByte + 1
  path : env'.path = env.path ++ [snrByte c.facts]

theorem length_path_of_lt (f : Frame) (h : f.pathByte.toNat < 64) :
    f.path.length = f.pathByte.toNat := by
  have hlen := f.path_length
  have hmode : f.pathByte.toNat / 64 % 4 = 0 := by omega
  rw [hmode, Nat.zero_add, Nat.mul_one, Nat.mod_eq_of_lt h] at hlen
  exact hlen

/-- **TRACE forwarding.** The forwarded frame reads as the received one with the
reading appended exactly when the path byte can still count it. -/
theorem decide_trace_appends_iff (P : Primitives) (e : ForwardingEngine) (c : RxCall)
    (env : ParsedPacketEnvelope) (h : (decide P e c).2.forward = true)
    (hk : (decide P e c).2.reason = .kind .trace) (henv : parsePacketEnvelope c.raw = some env) :
    (∃ env' forwarded, TraceAppended P e c env env' forwarded) ↔ env.pathByte ≠ 63 := by
  obtain ⟨env₁, radio, e₁, e₂, x, f, henv₁, _, _, _, _, hroute, hsent⟩ := decide_forward h
  obtain rfl := Option.some.inj (henv.symm.trans henv₁)
  rw [hsent.reason] at hk
  have hkind : f.kind = .trace := Reason.kind.inj hk
  obtain ⟨_, hdirect⟩ := routeStage_direct hroute (by rw [hkind]; decide)
  rcases decideDirect_ok hdirect with ⟨_, htrace⟩ | ⟨_, _, hrebuild⟩
  swap
  · cases hrebuild <;> cases hkind
  obtain ⟨hlt, rfl⟩ := decideTrace_ok htrace
  obtain ⟨fr, hraw, rfl⟩ := exists_frame_of_parse henv
  have hpb : fr.pathByte.toNat < 64 := hlt
  have hlen := length_path_of_lt fr hpb
  have hsent' := hsent.forwarded
  rw [← hraw, headerAndCodes_encode] at hsent'
  have hnext : (UInt8.ofNat (fr.envelope.pathByte + 1)).toNat = fr.pathByte.toNat + 1 :=
    toNat_ofNat_of_lt (Nat.succ_lt_succ (hpb.trans (by decide)))
  constructor
  · -- a path byte of 64 announces an empty path of two byte hashes
    rintro ⟨env', forwarded, ht⟩ hfull
    have hfull' : fr.pathByte.toNat = 63 := hfull
    let fr' := fr.withPath (UInt8.ofNat (fr.envelope.pathByte + 1)) [] (by omega)
      (by rw [hnext, hfull']; rfl) (by simp)
    let fr'' : Frame :=
      { fr' with payload := fr.path ++ [snrByte c.facts] ++ fr.payload, payload_ne := by simp }
    have hframe : forwarded = fr''.encode := by
      have hs := ht.sent.symm.trans hsent'
      rw [Option.some.inj hs]
      simp [fr'', fr', Frame.encode, Frame.withPath, Frame.envelope]
    have hparsed := parsePacketEnvelope_encode fr''
    rw [← hframe, ht.parsed] at hparsed
    have hpath := ht.path
    rw [Option.some.inj hparsed] at hpath
    have hz := congrArg List.length hpath
    simp [fr'', fr', Frame.withPath, Frame.envelope] at hz
  · intro hroom
    have hroom' : fr.pathByte.toNat ≠ 63 := hroom
    have hpath : (fr.path ++ [snrByte c.facts]).length = fr.pathByte.toNat + 1 := by
      rw [List.length_append, hlen, List.length_singleton]
    have hsmall : (fr.pathByte.toNat + 1) / 64 % 4 = 0 ∧
        (fr.pathByte.toNat + 1) % 64 = fr.pathByte.toNat + 1 := by omega
    let fr' := fr.withPath (UInt8.ofNat (fr.envelope.pathByte + 1))
      (fr.path ++ [snrByte c.facts]) (by omega)
      (by rw [hpath, hnext, hsmall.1, hsmall.2, Nat.zero_add, Nat.mul_one]) (by omega)
    refine ⟨fr'.envelope, fr'.encode, ?_⟩
    exact
      { received := henv
        sent := by
          rw [hsent']
          simp [fr', Frame.encode, Frame.withPath, Frame.envelope]
        parsed := parsePacketEnvelope_encode fr'
        header := rfl
        transportCodes := rfl
        payload := rfl
        pathByte := hnext
        path := rfl }

/-- The digest of the trace below, its path byte included. -/
def fullTraceDigest : Bytes :=
  [0x90, 0x09, 0x2D, 0xDD, 0x44, 0xA2, 0xBB, 0x71, 0xA9, 0x88, 0x13, 0xBF, 0x2B, 0x18, 0x13, 0xEF,
    0xE2, 0x42, 0xAA, 0x72, 0x91, 0xD6, 0xC3, 0x64, 0xCD, 0x95, 0xF4, 0x95, 0xAC, 0xD3, 0x00, 0x69]

/-- A trace with 63 readings in its path; the stock repeater is the next one. -/
def fullTraceCall : RxCall where
  raw := [0x26, 63] ++ List.replicate 63 0x20 ++ List.replicate 9 0 ++ List.replicate 63 0x11 ++
    [0xA1]
  now := 0

theorem decide_trace_appends_iff_fullTrace :
    ∃ env, parsePacketEnvelope fullTraceCall.raw = some env ∧
      ((∃ env' forwarded, TraceAppended (fixedPrimitives fullTraceDigest)
        (stockEngine (fixedPrimitives fullTraceDigest)) fullTraceCall env env' forwarded) ↔
          env.pathByte ≠ 63) := by
  obtain ⟨env, henv⟩ : ∃ env, parsePacketEnvelope fullTraceCall.raw = some env :=
    Option.isSome_iff_exists.mp (by decide +kernel)
  exact ⟨env, henv, decide_trace_appends_iff _ _ _ env (by decide +kernel) (by decide +kernel) henv⟩

/-- Not every forwarded TRACE reads as the received one with a reading appended. -/
theorem not_forall_trace_appends :
    ¬ ∀ (P : Primitives) (e : ForwardingEngine) (c : RxCall), (decide P e c).2.forward = true →
      (decide P e c).2.reason = .kind .trace →
        ∃ env env' forwarded, TraceAppended P e c env env' forwarded := by
  intro h
  obtain ⟨env, env', forwarded, ht⟩ := h (fixedPrimitives fullTraceDigest)
    (stockEngine (fixedPrimitives fullTraceDigest)) fullTraceCall (by decide +kernel)
    (by decide +kernel)
  -- the sent path byte is 64: no hops of two bytes each
  have hread : ((decide (fixedPrimitives fullTraceDigest)
      (stockEngine (fixedPrimitives fullTraceDigest)) fullTraceCall).2.forwarded.bind
        parsePacketEnvelope).map ParsedPacketEnvelope.path = some [] := by decide +kernel
  rw [ht.sent, Option.bind_some, ht.parsed, Option.map_some] at hread
  have hpath := ht.path
  rw [Option.some.inj hread] at hpath
  simp at hpath

end RtfmEv.HostRepeater

/-!
## Two hashes of one packet (`app/path_utils.py`)

The engine has its own copy of the packet hash. Both hash the payload type and the payload; for a
TRACE the path byte stands in between, as two bytes in `path_utils` and as one in the engine.
-/

namespace RtfmEv.PathUtils

open RtfmEv.Lib

/-- What `packet_identity_digest` and `calculate_packet_hash` feed to SHA-256. -/
def identityBytes (env : ParsedPacketEnvelope) : Bytes :=
  UInt8.ofNat env.payloadType ::
    (if env.payloadType = 9 then
      [UInt8.ofNat (env.pathByte % 256), UInt8.ofNat (env.pathByte / 256)] else []) ++ env.payload

/-- Full SHA-256 of the identity of a packet, nothing when the framing does not parse. -/
def packetIdentityDigest (sha256 : Bytes → Bytes) (rawBytes : Bytes) : Option Bytes :=
  if rawBytes = [] then none
  else (parsePacketEnvelope rawBytes).map (fun env => sha256 (identityBytes env))

/-- The first sixteen upper-case digits, zeros when the framing does not parse. -/
def calculatePacketHash (sha256 : Bytes → Bytes) (rawBytes : Bytes) : String :=
  if rawBytes = [] then String.ofList (List.replicate 16 '0')
  else
    match parsePacketEnvelope rawBytes with
    | none => String.ofList (List.replicate 16 '0')
    | some env =>
      String.ofList (((toHex (sha256 (identityBytes env))).take 16).map Char.toUpper)

theorem parsePacketEnvelope_nil : parsePacketEnvelope [] = none := rfl

theorem packetIdentityDigest_eq (sha256 : Bytes → Bytes) (rawBytes : Bytes) :
    packetIdentityDigest sha256 rawBytes =
      (parsePacketEnvelope rawBytes).map (fun env => sha256 (identityBytes env)) := by
  unfold packetIdentityDigest
  split_ifs with hnil
  · rw [hnil, parsePacketEnvelope_nil]
    rfl
  · rfl

theorem calculatePacketHash_eq (sha256 : Bytes → Bytes) {rawBytes : Bytes}
    {env : ParsedPacketEnvelope} (h : parsePacketEnvelope rawBytes = some env) :
    calculatePacketHash sha256 rawBytes =
      String.ofList (((toHex (sha256 (identityBytes env))).take 16).map Char.toUpper) := by
  unfold calculatePacketHash
  split_ifs with hnil
  · rw [hnil, parsePacketEnvelope_nil] at h
    cases h
  · rw [h]

end RtfmEv.PathUtils

namespace RtfmEv.HostRepeater

open RtfmEv.Lib RtfmEv.PathUtils

/-- What `packet_hash` feeds to SHA-256. -/
def packetHashBytes (payloadType : ℕ) (payload : Bytes) (pathByte : Option ℕ) : Bytes :=
  let trace := match pathByte with
    | some b => if payloadType = ptTrace then [UInt8.ofNat b] else []
    | none => []
  UInt8.ofNat payloadType :: trace ++ payload

/-- What the engine feeds to SHA-256 when it judges a frame. -/
def judgedBytes (env : ParsedPacketEnvelope) : Bytes :=
  packetHashBytes env.payloadType env.payload
    (if env.payloadType = ptTrace then some env.pathByte else none)

theorem toLower_toUpper_hexDigit {n : ℕ} (h : n < 16) :
    (hexDigit n).toUpper.toLower = hexDigit n := by
  have hall : ∀ n ∈ List.range 16, (hexDigit n).toUpper.toLower = hexDigit n := by decide +kernel
  exact hall n (List.mem_range.mpr h)

theorem toLower_toUpper_toHex (b : Bytes) :
    ((toHex b).map Char.toUpper).map Char.toLower = toHex b := by
  rw [List.map_map]
  refine (List.map_congr_left (fun c hc => ?_)).trans (List.map_id _)
  obtain ⟨byte, -, hc⟩ := List.mem_flatMap.mp hc
  have hbyte := byte.toNat_lt
  rcases List.mem_cons.mp hc with rfl | hc
  · exact toLower_toUpper_hexDigit (by omega)
  · rw [List.mem_singleton.mp hc]
    exact toLower_toUpper_hexDigit (by omega)

theorem judgedBytes_iff (env : ParsedPacketEnvelope) :
    judgedBytes env = identityBytes env ↔ env.payloadType ≠ ptTrace := by
  unfold judgedBytes packetHashBytes identityBytes
  by_cases htrace : env.payloadType = ptTrace
  · rw [if_pos htrace]
    dsimp only
    rw [if_pos htrace, if_pos htrace]
    refine ⟨fun heq => ?_, fun hne => absurd htrace hne⟩
    have hlength := congrArg List.length heq
    simp only [List.length_append, List.length_cons, List.length_nil] at hlength
    omega
  · rw [if_neg htrace]
    dsimp only
    rw [if_neg htrace]
    exact ⟨fun _ => htrace, fun _ => rfl⟩

/-- The two hashes of a received frame: they hash the same bytes, and the engine's digits are the
other's in lower case. -/
structure HashesAgree (P : Primitives) (e : ForwardingEngine) (c : RxCall)
    (env : ParsedPacketEnvelope) : Prop where
  bytes : judgedBytes env = identityBytes env
  digest : packetIdentityDigest P.sha256 c.raw = some (P.sha256 (judgedBytes env))
  digits : (decide P e c).2.packetHash =
    String.ofList ((calculatePacketHash P.sha256 c.raw).toList.map Char.toLower)

/-- **The two hashes of a received frame agree exactly where it is no TRACE.** -/
theorem hashesAgree_iff (P : Primitives) (e : ForwardingEngine) {c : RxCall}
    {env : ParsedPacketEnvelope} (h : parsePacketEnvelope c.raw = some env) :
    HashesAgree P e c env ↔ env.payloadType ≠ ptTrace := by
  refine ⟨fun hagree => (judgedBytes_iff env).mp hagree.bytes, fun hne => ?_⟩
  have hbytes := (judgedBytes_iff env).mpr hne
  refine ⟨hbytes, ?_, ?_⟩
  · rw [packetIdentityDigest_eq, h, hbytes]
    rfl
  · have hhash : envelopeHash P env =
        String.ofList ((toHex (P.sha256 (judgedBytes env))).take 16) := rfl
    rw [decide_packetHash h, calculatePacketHash_eq P.sha256 h, hhash, hbytes,
      String.toList_ofList, List.map_take, List.map_take, toLower_toUpper_toHex]

/-- A direct TRACE with an empty path. -/
def traceCall : RxCall := { raw := [0x26, 0x00, 1, 2, 3, 4, 5, 6, 7, 8, 9], now := 0 }

/-- The group text of the flood example has one hash. -/
theorem hashesAgree_iff_text :
    (decide (fixedPrimitives channelTextDigest) (stockEngine (fixedPrimitives channelTextDigest))
      channelTextCall).2.packetHash =
    String.ofList ((calculatePacketHash (fixedPrimitives channelTextDigest).sha256
      channelTextCall.raw).toList.map Char.toLower) := by
  have hparse : (parsePacketEnvelope channelTextCall.raw).isSome := by decide +kernel
  obtain ⟨env, henv⟩ := Option.isSome_iff_exists.mp hparse
  have htext : (parsePacketEnvelope channelTextCall.raw).map ParsedPacketEnvelope.payloadType =
      some 5 := by decide +kernel
  rw [henv] at htext
  refine ((hashesAgree_iff _ _ henv).mpr (fun htrace => ?_)).digits
  rw [Option.map_some, htrace] at htext
  exact absurd htext (by decide)

/-- A TRACE has two hashes. -/
theorem not_forall_hashesAgree : ¬ ∀ (P : Primitives) (e : ForwardingEngine) (c : RxCall)
    (env : ParsedPacketEnvelope), parsePacketEnvelope c.raw = some env →
      HashesAgree P e c env := by
  intro hall
  have hparse : (parsePacketEnvelope traceCall.raw).isSome := by decide +kernel
  obtain ⟨env, henv⟩ := Option.isSome_iff_exists.mp hparse
  have hagree := hall (fixedPrimitives channelTextDigest)
    (stockEngine (fixedPrimitives channelTextDigest)) traceCall env henv
  have htrace : (parsePacketEnvelope traceCall.raw).map ParsedPacketEnvelope.payloadType =
      some ptTrace := by decide +kernel
  rw [henv] at htrace
  exact (judgedBytes_iff env).mp hagree.bytes (Option.some.inj htrace)

end RtfmEv.HostRepeater
