import RtfmEv.HostRepeater.Forwarding

/-!
# Which receptions share a stored packet (`payload_hash_for`)

The stored packets are told apart by a hash: of the packet's identity where the framing parses,
of all bytes where it does not. What is hashed of a packet and the bytes of a frame that does
not parse are not told apart, so a frame that spells the identity of a packet is stored as a
duplicate of it.
-/

namespace RtfmEv.RawPackets

open RtfmEv.Lib RtfmEv.PathUtils

/-- `decoder.extract_payload` -/
def extractPayload (rawPacket : Bytes) : Option Bytes :=
  (parsePacketEnvelope rawPacket).map ParsedPacketEnvelope.payload

/-- Hash of the identity of a packet, of the full bytes if it does not parse. -/
def payloadHashFor (sha256 : Bytes → Bytes) (data : Bytes) : Bytes :=
  match packetIdentityDigest sha256 data with
  | some digest => digest
  | none =>
    match extractPayload data with
    | some payload => if payload ≠ [] then sha256 payload else sha256 data
    | none => sha256 data

/-- Both parse, with the same type, the same payload and for a TRACE the same path byte, or
neither does and they are the same bytes. -/
def SamePacket (a b : Bytes) : Prop :=
  match parsePacketEnvelope a, parsePacketEnvelope b with
  | some env, some env' => env.payloadType = env'.payloadType ∧ env.payload = env'.payload ∧
      (env.payloadType = 9 → env.pathByte = env'.pathByte)
  | none, none => a = b
  | _, _ => False

/-- The bytes of a frame that does not parse are the type of a packet, for a TRACE its path byte
and a zero, and its payload. -/
def SpellsPacket (raw packet : Bytes) : Prop :=
  parsePacketEnvelope raw = none ∧ ∃ env, parsePacketEnvelope packet = some env ∧
    if env.payloadType = 9 then raw = 9 :: UInt8.ofNat env.pathByte :: 0 :: env.payload
    else raw = UInt8.ofNat env.payloadType :: env.payload

/-! ### What is hashed -/

/-- The bytes that `payload_hash_for` hashes. -/
def hashedBytes (data : Bytes) : Bytes :=
  match parsePacketEnvelope data with
  | some env => identityBytes env
  | none => data

theorem payloadHashFor_eq (sha256 : Bytes → Bytes) (data : Bytes) :
    payloadHashFor sha256 data = sha256 (hashedBytes data) := by
  unfold payloadHashFor hashedBytes extractPayload
  rw [packetIdentityDigest_eq]
  cases parsePacketEnvelope data with
  | none => rfl
  | some env => rfl

variable {raw : Bytes} {env : ParsedPacketEnvelope}

theorem payloadType_lt
    (h : parsePacketEnvelope raw = some env) : env.payloadType < 16 := by
  obtain ⟨f, -, rfl⟩ := parsePacketEnvelope_eq_some_iff.mp h
  exact Nat.mod_lt _ (by decide)

theorem pathByte_lt
    (h : parsePacketEnvelope raw = some env) : env.pathByte < 256 := by
  obtain ⟨f, -, rfl⟩ := parsePacketEnvelope_eq_some_iff.mp h
  exact f.pathByte.toNat_lt

theorem ofNat_inj_of_lt {m n : ℕ} (hm : m < 256) (hn : n < 256)
    (h : UInt8.ofNat m = UInt8.ofNat n) : m = n := by
  rw [← toNat_ofNat_of_lt hm, ← toNat_ofNat_of_lt hn, h]

/-- What is hashed of a packet, by its fields. -/
theorem identityBytes_eq
    (h : parsePacketEnvelope raw = some env) :
    identityBytes env =
      if env.payloadType = 9 then 9 :: UInt8.ofNat env.pathByte :: 0 :: env.payload
      else UInt8.ofNat env.payloadType :: env.payload := by
  have hlt := pathByte_lt h
  unfold identityBytes
  split_ifs with htrace
  · rw [htrace, Nat.mod_eq_of_lt hlt, Nat.div_eq_of_lt hlt]
    rfl
  · rfl

/-- **Packets are told apart** by what is hashed of them. -/
theorem identityBytes_eq_iff {a b : Bytes} {env' : ParsedPacketEnvelope}
    (ha : parsePacketEnvelope a = some env) (hb : parsePacketEnvelope b = some env') :
    identityBytes env = identityBytes env' ↔
      env.payloadType = env'.payloadType ∧ env.payload = env'.payload ∧
        (env.payloadType = 9 → env.pathByte = env'.pathByte) := by
  have htype := payloadType_lt ha
  have htype' := payloadType_lt hb
  rw [identityBytes_eq ha, identityBytes_eq hb]
  constructor
  · intro heq
    have hhead : env.payloadType = env'.payloadType := by
      have hfirst := congrArg List.head? heq
      split_ifs at hfirst with h9 h9' h9'
      · exact h9.trans h9'.symm
      · have hbyte : UInt8.ofNat 9 = UInt8.ofNat env'.payloadType := Option.some.inj hfirst
        rw [h9, ← ofNat_inj_of_lt (by omega) (by omega) hbyte]
      · have hbyte : UInt8.ofNat env.payloadType = UInt8.ofNat 9 := Option.some.inj hfirst
        rw [h9', ofNat_inj_of_lt (by omega) (by omega) hbyte]
      · exact ofNat_inj_of_lt (by omega) (by omega) (Option.some.inj hfirst)
    refine ⟨hhead, ?_⟩
    by_cases h9 : env.payloadType = 9
    · rw [if_pos h9, if_pos (hhead.symm.trans h9)] at heq
      obtain ⟨-, hpath, -, hpayload⟩ : True ∧ UInt8.ofNat env.pathByte = UInt8.ofNat env'.pathByte ∧
          True ∧ env.payload = env'.payload := by simpa using heq
      exact ⟨hpayload, fun _ => ofNat_inj_of_lt (pathByte_lt ha) (pathByte_lt hb) hpath⟩
    · rw [if_neg h9, if_neg (fun h9' => h9 (hhead.trans h9'))] at heq
      exact ⟨(List.cons.inj heq).2, fun h => absurd h h9⟩
  · rintro ⟨hhead, hpayload, hpath⟩
    rw [← hhead, ← hpayload]
    by_cases h9 : env.payloadType = 9
    · rw [if_pos h9, if_pos h9, hpath h9]
    · rw [if_neg h9, if_neg h9]

/-- A frame that does not parse is hashed as a packet exactly when it spells that packet. -/
theorem spellsPacket_iff {packet : Bytes}
    (hraw : parsePacketEnvelope raw = none) (hpacket : parsePacketEnvelope packet = some env) :
    raw = identityBytes env ↔ SpellsPacket raw packet := by
  rw [identityBytes_eq hpacket]
  constructor
  · intro heq
    refine ⟨hraw, env, hpacket, ?_⟩
    split_ifs at heq ⊢ with h9
    · exact heq
    · exact heq
  · rintro ⟨-, env', henv', hspells⟩
    obtain rfl := Option.some.inj (henv'.symm.trans hpacket)
    split_ifs at hspells ⊢ with h9
    · exact hspells
    · exact hspells

/-- **Two receptions share a stored packet exactly when they are the same packet**, apart from a
frame that does not parse and spells the other. -/
theorem sharesPacket_iff {sha256 : Bytes → Bytes} (hinj : Function.Injective sha256)
    (a b : Bytes) :
    (payloadHashFor sha256 a = payloadHashFor sha256 b ↔ SamePacket a b) ↔
      ¬SpellsPacket a b ∧ ¬SpellsPacket b a := by
  rw [payloadHashFor_eq, payloadHashFor_eq, hinj.eq_iff]
  unfold hashedBytes SamePacket
  cases ha : parsePacketEnvelope a with
  | none =>
    cases hb : parsePacketEnvelope b with
    | none =>
      refine iff_of_true Iff.rfl ⟨?_, ?_⟩
      · rintro ⟨-, env, henv, -⟩
        rw [hb] at henv
        cases henv
      · rintro ⟨-, env, henv, -⟩
        rw [ha] at henv
        cases henv
    | some env =>
      have hback : ¬SpellsPacket b a := by
        rintro ⟨hnone, -⟩
        rw [hb] at hnone
        cases hnone
      simp only [iff_false, hback, not_false_eq_true, and_true]
      rw [spellsPacket_iff ha hb]
  | some env =>
    cases hb : parsePacketEnvelope b with
    | none =>
      have hback : ¬SpellsPacket a b := by
        rintro ⟨hnone, -⟩
        rw [ha] at hnone
        cases hnone
      simp only [iff_false, hback, not_false_eq_true, true_and]
      rw [eq_comm, spellsPacket_iff hb ha]
    | some env' =>
      refine iff_of_true (identityBytes_eq_iff ha hb) ⟨?_, ?_⟩
      · rintro ⟨hnone, -⟩
        rw [ha] at hnone
        cases hnone
      · rintro ⟨hnone, -⟩
        rw [hb] at hnone
        cases hnone

/-- A group text without a path. -/
def groupText : Bytes := [0x15, 0x00, 0xC0, 0x01]

/-- Two copies of a group text over different paths. -/
theorem sharesPacket_groupText :
    payloadHashFor id groupText = payloadHashFor id [0x15, 0x01, 0xAA, 0xC0, 0x01] ↔
      SamePacket groupText [0x15, 0x01, 0xAA, 0xC0, 0x01] := by
  refine (sharesPacket_iff Function.injective_id _ _).mpr ⟨?_, ?_⟩
  · rintro ⟨hnone, -⟩
    exact absurd hnone (by decide)
  · rintro ⟨hnone, -⟩
    exact absurd hnone (by decide)

/-- A frame with the reserved path mode is stored as a duplicate of the group text. -/
theorem not_forall_sharesPacket :
    ¬∀ (sha256 : Bytes → Bytes), Function.Injective sha256 → ∀ a b : Bytes,
      (payloadHashFor sha256 a = payloadHashFor sha256 b ↔ SamePacket a b) := by
  intro hall
  have hsame := (hall id Function.injective_id [0x05, 0xC0, 0x01] groupText).mp (by decide)
  revert hsame
  unfold SamePacket
  rw [show parsePacketEnvelope [0x05, 0xC0, 0x01] = none by decide]
  cases parsePacketEnvelope groupText with
  | none => decide
  | some env => exact id

end RtfmEv.RawPackets
