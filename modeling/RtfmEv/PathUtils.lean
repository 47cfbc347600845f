import RtfmEv.Lib.Bytes

/-!
# Packet framing (`app/path_utils.py`)

The path byte of a packet packs the hop count (lower six bits) and the size of
one path hash (upper two bits, one to three bytes; the fourth value is
reserved). `parsePacketEnvelope` reads header, optional transport codes, path
byte, path and payload in that order and refuses whatever the firmware refuses.

A `Frame` is a packet that can be put on air, with its layout rules as fields.
`parsePacketEnvelope_eq_some_iff` says that the parser accepts exactly the
encoded frames and reads back what was encoded, so a rebuilt packet is handled
by building a frame.
-/

namespace RtfmEv.PathUtils

open RtfmEv.Lib

abbrev maxPathSize : ℕ := 64

/-- Canonical packet framing parse. `transportCodes` are the two little-endian
codes of a `TRANSPORT_*` route. -/
structure ParsedPacketEnvelope where
  header : ℕ
  routeType : ℕ
  payloadType : ℕ
  payloadVersion : ℕ
  pathByte : ℕ
  hopCount : ℕ
  hashSize : ℕ
  pathByteLen : ℕ
  path : Bytes
  payload : Bytes
  payloadOffset : ℕ
  transportCodes : Option (ℕ × ℕ)
  deriving DecidableEq

/-- A packet carries a real region scope: code 0 is the wildcard region. -/
def isScoped (transportCodes : Option (ℕ × ℕ)) : Bool :=
  match transportCodes with
  | some codes => codes.1 != 0
  | none => false

/-- The two upper-case hexadecimal digits of `{:02X}`. -/
def hex02X (n : ℕ) : String := String.ofList ((hexByte (UInt8.ofNat n)).map Char.toUpper)

/-- Decode a packed path byte into hop count and hash size. -/
def decodePathByte (pathByte : ℕ) : Except String (ℕ × ℕ) :=
  let hashMode := (pathByte >>> 6) &&& 0x03
  if hashMode = 3 then
    .error ("Reserved path hash mode 3 (path_byte=0x" ++ hex02X pathByte ++ ")")
  else
    let hopCount := pathByte &&& 0x3F
    let hashSize := hashMode + 1
    .ok (hopCount, hashSize)

/-- Wire byte length of path data. -/
abbrev pathWireLen (hopCount hashSize : ℕ) : ℕ := hopCount * hashSize

/-- Validate a packed path byte: hop count, hash size and byte length. -/
def validatePathByte (pathByte : ℕ) : Except String (ℕ × ℕ × ℕ) :=
  match decodePathByte pathByte with
  | .error e => .error e
  | .ok (hopCount, hashSize) =>
    let byteLen := pathWireLen hopCount hashSize
    if byteLen > maxPathSize then
      .error ("Invalid path length " ++ toString byteLen ++ " bytes exceeds MAX_PATH_SIZE="
        ++ toString maxPathSize)
    else .ok (hopCount, hashSize, byteLen)

/-- The route types that carry a four byte transport block. -/
def hasTransportCodes (routeType : ℕ) : Bool := routeType == 0x00 || routeType == 0x03

/-- Everything after the transport block, which ends at `offset`. -/
def parseFromPath (rawPacket : Bytes) (header : ℕ) (transportCodes : Option (ℕ × ℕ))
    (offset : ℕ) : Option ParsedPacketEnvelope :=
  match rawPacket[offset]? with
  | none => none
  | some b =>
    let pathByte := b.toNat
    let offset := offset + 1
    match validatePathByte pathByte with
    | .error _ => none
    | .ok (hopCount, hashSize, pathByteLen) =>
      if rawPacket.length < offset + pathByteLen then none
      else
        let path := slice rawPacket offset (offset + pathByteLen)
        let offset := offset + pathByteLen
        if offset ≥ rawPacket.length then none
        else some
          { header := header
            routeType := header &&& 0x03
            payloadType := (header >>> 2) &&& 0x0F
            payloadVersion := (header >>> 6) &&& 0x03
            pathByte := pathByte
            hopCount := hopCount
            hashSize := hashSize
            pathByteLen := pathByteLen
            path := path
            payload := rawPacket.drop offset
            payloadOffset := offset
            transportCodes := transportCodes }

/-- Parse packet framing with the firmware's `Packet::readFrom` rules. -/
def parsePacketEnvelope (rawPacket : Bytes) : Option ParsedPacketEnvelope :=
  if rawPacket.length < 2 then none
  else
    match rawPacket[0]? with
    | none => none
    | some b =>
      let header := b.toNat
      let offset := 1
      if hasTransportCodes (header &&& 0x03) then
        if rawPacket.length < offset + 4 then none
        else
          parseFromPath rawPacket header
            (some (fromBytesLE (slice rawPacket offset (offset + 2)),
              fromBytesLE (slice rawPacket (offset + 2) (offset + 4))))
            (offset + 4)
      else parseFromPath rawPacket header none offset

/-! ### Path bytes -/

/-- Hop count and hash size of a path byte outside the reserved mode. -/
theorem decodePathByte_eq_ok {b hopCount hashSize : ℕ} :
    decodePathByte b = .ok (hopCount, hashSize) ↔
      b / 64 % 4 ≠ 3 ∧ hopCount = b % 64 ∧ hashSize = b / 64 % 4 + 1 := by
  simp only [decodePathByte, shiftRight_six, and_three, and_sixtythree]
  split
  · rename_i h
    simp [h]
  · rename_i h
    simp only [Except.ok.injEq, Prod.mk.injEq, ne_eq, h, not_false_eq_true, true_and]
    exact and_congr eq_comm eq_comm

theorem validatePathByte_eq_ok {b hopCount hashSize byteLen : ℕ} :
    validatePathByte b = .ok (hopCount, hashSize, byteLen) ↔
      b / 64 % 4 ≠ 3 ∧ hopCount = b % 64 ∧ hashSize = b / 64 % 4 + 1 ∧
        byteLen = hopCount * hashSize ∧ byteLen ≤ 64 := by
  rw [validatePathByte]
  cases hd : decodePathByte b with
  | error e =>
    have hr : ¬ (b / 64 % 4 ≠ 3) := by
      intro h
      have := decodePathByte_eq_ok.mpr ⟨h, rfl, rfl⟩
      rw [hd] at this
      cases this
    simp only [reduceCtorEq, hr, false_and]
  | ok p =>
    obtain ⟨hops, size⟩ := p
    obtain ⟨hmode, rfl, rfl⟩ := decodePathByte_eq_ok.mp hd
    by_cases hbig : b % 64 * (b / 64 % 4 + 1) > 64
    · simp only [if_pos hbig, reduceCtorEq, false_iff]
      rintro ⟨_, rfl, rfl, rfl, hle⟩
      omega
    · simp only [if_neg hbig, Except.ok.injEq, Prod.mk.injEq]
      constructor
      · rintro ⟨rfl, rfl, rfl⟩
        exact ⟨hmode, rfl, rfl, rfl, Nat.not_lt.mp hbig⟩
      · rintro ⟨_, rfl, rfl, rfl, _⟩
        exact ⟨rfl, rfl, rfl⟩

/-! ### Frames -/

/-- A packet as it is laid out on air. The transport block is there exactly for
the route types that carry one, the path has the length its path byte
announces, and the payload is not empty. -/
structure Frame where
  header : UInt8
  codes : Bytes
  pathByte : UInt8
  path : Bytes
  payload : Bytes
  codes_length : codes.length = if hasTransportCodes (header.toNat &&& 0x03) then 4 else 0
  mode : pathByte.toNat / 64 % 4 ≠ 3
  path_length : path.length = pathByte.toNat % 64 * (pathByte.toNat / 64 % 4 + 1)
  path_le : path.length ≤ 64
  payload_ne : payload ≠ []

namespace Frame

/-- The bytes of a frame. -/
def encode (f : Frame) : Bytes := f.header :: f.codes ++ f.pathByte :: f.path ++ f.payload

theorem length_encode (f : Frame) :
    f.encode.length = 2 + f.codes.length + f.path.length + f.payload.length := by
  simp only [encode, List.length_append, List.length_cons]
  omega

/-- The transport codes that a block stands for. -/
def transportCodes (f : Frame) : Option (ℕ × ℕ) :=
  if hasTransportCodes (f.header.toNat &&& 0x03) then
    some (fromBytesLE (slice f.codes 0 2), fromBytesLE (slice f.codes 2 4))
  else none

/-- What a reader of the frame sees. -/
def envelope (f : Frame) : ParsedPacketEnvelope where
  header := f.header.toNat
  routeType := f.header.toNat % 4
  payloadType := f.header.toNat / 4 % 16
  payloadVersion := f.header.toNat / 64 % 4
  pathByte := f.pathByte.toNat
  hopCount := f.pathByte.toNat % 64
  hashSize := f.pathByte.toNat / 64 % 4 + 1
  pathByteLen := f.path.length
  path := f.path
  payload := f.payload
  payloadOffset := 2 + f.codes.length + f.path.length
  transportCodes := f.transportCodes

theorem hashSize_pos (f : Frame) : 1 ≤ f.envelope.hashSize := Nat.le_add_left _ _

theorem hashSize_le (f : Frame) : f.envelope.hashSize ≤ 3 := by
  have hmode := f.mode
  have hs : f.envelope.hashSize = f.pathByte.toNat / 64 % 4 + 1 := rfl
  omega

theorem length_path (f : Frame) :
    f.path.length = f.envelope.hopCount * f.envelope.hashSize := f.path_length

/-- The frame with another path. -/
def withPath (f : Frame) (pathByte : UInt8) (path : Bytes) (mode : pathByte.toNat / 64 % 4 ≠ 3)
    (path_length : path.length = pathByte.toNat % 64 * (pathByte.toNat / 64 % 4 + 1))
    (path_le : path.length ≤ 64) : Frame :=
  { f with
    pathByte := pathByte
    path := path
    mode := mode
    path_length := path_length
    path_le := path_le }

end Frame

/-- Reading from the path byte on, behind any prefix of the right length. -/
theorem parseFromPath_append (a : Bytes) (b : UInt8) (path payload : Bytes) (header : ℕ)
    (codes : Option (ℕ × ℕ)) (hmode : b.toNat / 64 % 4 ≠ 3)
    (hlen : path.length = b.toNat % 64 * (b.toNat / 64 % 4 + 1)) (hle : path.length ≤ 64)
    (hne : payload ≠ []) :
    parseFromPath (a ++ b :: path ++ payload) header codes a.length = some
      { header := header
        routeType := header % 4
        payloadType := header / 4 % 16
        payloadVersion := header / 64 % 4
        pathByte := b.toNat
        hopCount := b.toNat % 64
        hashSize := b.toNat / 64 % 4 + 1
        pathByteLen := path.length
        path := path
        payload := payload
        payloadOffset := a.length + 1 + path.length
        transportCodes := codes } := by
  have hget : (a ++ b :: path ++ payload)[a.length]? = some b := by
    simp
  have hval : validatePathByte b.toNat =
      .ok (b.toNat % 64, b.toNat / 64 % 4 + 1, path.length) :=
    validatePathByte_eq_ok.mpr ⟨hmode, rfl, rfl, hlen, hle⟩
  have hsplit : a ++ b :: path ++ payload = (a ++ [b]) ++ (path ++ payload) := by simp
  have hcut : (a ++ [b]).length = a.length + 1 := by simp
  have hpath : slice (a ++ b :: path ++ payload) (a.length + 1) (a.length + 1 + path.length)
      = path := by
    rw [hsplit, slice_append _ _ _ _ (by omega), hcut]
    simp [slice]
  have hdrop : (a ++ b :: path ++ payload).drop (a.length + 1 + path.length) = payload := by
    rw [hsplit, ← List.append_assoc]
    exact List.drop_left' (by simp only [List.length_append, hcut])
  have hpos : 0 < payload.length := List.length_pos_iff.mpr hne
  have htot : (a ++ b :: path ++ payload).length = a.length + 1 + path.length + payload.length := by
    simp only [List.length_append, List.length_cons]
    omega
  simp only [parseFromPath, hget, hval, hpath, hdrop, htot, and_three, and_fifteen, shiftRight_two,
    shiftRight_six]
  rw [if_neg (by omega), if_neg (by omega)]

/-- **Encoding then parsing.** Every frame is accepted and read back. -/
theorem parsePacketEnvelope_encode (f : Frame) :
    parsePacketEnvelope f.encode = some f.envelope := by
  have hlen := f.length_encode
  have hpos : 0 < f.payload.length := List.length_pos_iff.mpr f.payload_ne
  have hget : f.encode[0]? = some f.header := rfl
  have hcodes := f.codes_length
  have hparse := parseFromPath_append (f.header :: f.codes) f.pathByte f.path f.payload
    f.header.toNat f.transportCodes f.mode f.path_length f.path_le f.payload_ne
  have henv : (f.header :: f.codes).length = 1 + f.codes.length := by
    rw [List.length_cons, Nat.add_comm]
  rw [henv] at hparse
  rw [parsePacketEnvelope, if_neg (by omega), hget]
  simp only
  by_cases ht : hasTransportCodes (f.header.toNat &&& 0x03) = true
  · rw [if_pos ht] at hcodes
    have hs : ∀ i j, slice f.encode (1 + i) (1 + j) = slice (f.codes ++ f.pathByte :: f.path
        ++ f.payload) i j := by
      intro i j
      have h := slice_append [f.header] (f.codes ++ f.pathByte :: f.path ++ f.payload)
        (1 + i) (1 + j) (by simp)
      simpa [Frame.encode] using h
    have hin : ∀ i j, j ≤ 4 → slice (f.codes ++ f.pathByte :: f.path ++ f.payload) i j
        = slice f.codes i j := by
      intro i j hj
      by_cases hi : i ≤ 4
      · rw [slice, slice, List.append_assoc, List.drop_append_of_le_length (by omega),
          List.take_append_of_le_length (by rw [List.length_drop]; omega)]
      · have hji : j - i = 0 := by omega
        rw [slice, slice, hji, List.take_zero, List.take_zero]
    have htc : f.transportCodes = some (fromBytesLE (slice f.encode 1 (1 + 2)),
        fromBytesLE (slice f.encode (1 + 2) (1 + 4))) := by
      have h0 := (hs 0 2).trans (hin 0 2 (by omega))
      have h2 := (hs 2 4).trans (hin 2 4 (by omega))
      rw [Frame.transportCodes, if_pos ht, ← h0, ← h2]
    rw [if_pos ht, if_neg (by omega), ← htc]
    rw [hcodes] at hparse
    exact hparse.trans (by simp [Frame.envelope, hcodes])
  · rw [if_neg ht] at hcodes
    have htc : f.transportCodes = none := by rw [Frame.transportCodes, if_neg ht]
    rw [if_neg ht, ← htc]
    rw [hcodes] at hparse
    exact hparse.trans (by simp [Frame.envelope, hcodes])

variable {raw : Bytes} {env : ParsedPacketEnvelope}

/-- Whatever is accepted from the path byte on has the layout of a frame. -/
theorem parseFromPath_eq_some {header offset : ℕ} {codes : Option (ℕ × ℕ)}
    (h : parseFromPath raw header codes offset = some env) :
    ∃ (b : UInt8) (path payload : Bytes), raw = raw.take offset ++ b :: path ++ payload ∧
      b.toNat / 64 % 4 ≠ 3 ∧ path.length = b.toNat % 64 * (b.toNat / 64 % 4 + 1) ∧
      path.length ≤ 64 ∧ payload ≠ [] ∧ offset < raw.length := by
  unfold parseFromPath at h
  cases hb : raw[offset]? with
  | none => simp [hb] at h
  | some b =>
    obtain ⟨hlt, hget⟩ := List.getElem?_eq_some_iff.mp hb
    rw [hb] at h
    simp only at h
    cases hv : validatePathByte b.toNat with
    | error e => simp [hv] at h
    | ok p =>
      obtain ⟨hops, size, len⟩ := p
      obtain ⟨hmode, rfl, rfl, hlen, hle⟩ := validatePathByte_eq_ok.mp hv
      rw [hv] at h
      simp only at h
      split at h
      · cases h
      split at h
      · cases h
      rename_i hlong hend
      have hpl : (slice raw (offset + 1) (offset + 1 + len)).length = len := by
        rw [length_slice]
        omega
      refine ⟨b, slice raw (offset + 1) (offset + 1 + len), raw.drop (offset + 1 + len),
        ?_, hmode, hpl.trans hlen, hpl.trans_le hle, ?_, hlt⟩
      · have h1 : raw.drop offset = b :: raw.drop (offset + 1) := by
          rw [List.drop_eq_getElem_cons hlt, hget]
        have h2 : raw.drop (offset + 1) =
            slice raw (offset + 1) (offset + 1 + len) ++ raw.drop (offset + 1 + len) := by
          rw [slice, Nat.add_sub_cancel_left]
          have h3 := (List.take_append_drop len (raw.drop (offset + 1))).symm
          rwa [List.drop_drop] at h3
        rw [List.append_assoc, List.cons_append, ← h2, ← h1, List.take_append_drop]
      · intro hnil
        have hz := congrArg List.length hnil
        rw [List.length_drop, List.length_nil] at hz
        omega

/-- **Parsing then encoding.** An accepted packet is the encoding of a frame. -/
theorem exists_frame_of_parse
    (h : parsePacketEnvelope raw = some env) : ∃ f : Frame, f.encode = raw ∧ f.envelope = env := by
  have hframe : ∃ f : Frame, f.encode = raw := by
    unfold parsePacketEnvelope at h
    split at h
    · cases h
    cases raw with
    | nil => simp at h
    | cons b rest =>
      simp only [List.getElem?_cons_zero] at h
      split at h
      · rename_i ht
        split at h
        · cases h
        rename_i hlong
        obtain ⟨pb, path, payload, hraw, hmode, hlen, hle, hne, _⟩ := parseFromPath_eq_some h
        have hcodes : (rest.take 4).length = 4 := by
          rw [List.length_take]
          simp only [List.length_cons] at hlong
          omega
        exact ⟨⟨b, rest.take 4, pb, path, payload, by rw [hcodes, if_pos ht], hmode, hlen, hle,
          hne⟩, by simpa [Frame.encode] using hraw.symm⟩
      · rename_i ht
        obtain ⟨pb, path, payload, hraw, hmode, hlen, hle, hne, _⟩ := parseFromPath_eq_some h
        exact ⟨⟨b, [], pb, path, payload, by rw [if_neg ht, List.length_nil], hmode, hlen, hle,
          hne⟩, by simpa [Frame.encode] using hraw.symm⟩
  obtain ⟨f, rfl⟩ := hframe
  exact ⟨f, rfl, Option.some.inj ((parsePacketEnvelope_encode f).symm.trans h)⟩

/-- The parser accepts exactly the encoded frames, and reads each as it is. -/
theorem parsePacketEnvelope_eq_some_iff :
    parsePacketEnvelope raw = some env ↔ ∃ f : Frame, f.encode = raw ∧ f.envelope = env := by
  constructor
  · exact exists_frame_of_parse
  · rintro ⟨f, rfl, rfl⟩
    exact parsePacketEnvelope_encode f

theorem fromBytesLE_inj {b b' : Bytes} (hlen : b.length = b'.length)
    (h : fromBytesLE b = fromBytesLE b') : b = b' := by
  induction b generalizing b' with
  | nil => exact (List.length_eq_zero_iff.mp hlen.symm).symm
  | cons x b ih =>
    obtain ⟨y, b', rfl⟩ := List.exists_cons_of_length_eq_add_one hlen.symm
    have hx := x.toNat_lt
    have hy := y.toNat_lt
    simp only [fromBytesLE] at h
    rw [UInt8.toNat_inj.mp (show x.toNat = y.toNat by omega), ih (Nat.succ.inj hlen) (by omega)]

theorem Frame.codes_inj {f f' : Frame} (hheader : f.header = f'.header)
    (h : f.transportCodes = f'.transportCodes) : f.codes = f'.codes := by
  have hlen := f.codes_length
  have hlen' := f'.codes_length
  rw [Frame.transportCodes, Frame.transportCodes, ← hheader] at h
  rw [← hheader] at hlen'
  split_ifs at h hlen hlen'
  · simp only [Option.some.injEq, Prod.mk.injEq, slice] at h
    have hlow : f.codes.take 2 = f'.codes.take 2 := fromBytesLE_inj (by simp [hlen, hlen']) h.1
    have hhigh := fromBytesLE_inj (by simp [hlen, hlen']) h.2
    rw [List.take_of_length_le (by simp [hlen]), List.take_of_length_le (by simp [hlen'])] at hhigh
    rw [← List.take_append_drop 2 f.codes, hlow, hhigh, List.take_append_drop]
  · rw [List.length_eq_zero_iff.mp hlen, List.length_eq_zero_iff.mp hlen']

/-- **Packets are told apart by what is read of them**: each encodes a frame
and no other is read alike. -/
theorem parsePacketEnvelope_inj (h : (parsePacketEnvelope raw).isSome = true) :
    ∃ f : Frame, f.encode = raw ∧ parsePacketEnvelope raw = some f.envelope ∧
      ∀ raw', parsePacketEnvelope raw' = some f.envelope → raw' = raw := by
  obtain ⟨env, henv⟩ := Option.isSome_iff_exists.mp h
  obtain ⟨f, rfl, rfl⟩ := exists_frame_of_parse henv
  refine ⟨f, rfl, henv, fun raw' h' => ?_⟩
  obtain ⟨f', rfl, heq⟩ := exists_frame_of_parse h'
  simp only [Frame.envelope, ParsedPacketEnvelope.mk.injEq, UInt8.toNat_inj] at heq
  obtain ⟨hheader, -, -, -, hpathByte, -, -, -, hpath, hpayload, -, hcodes⟩ := heq
  rw [Frame.encode, Frame.encode, Frame.codes_inj hheader hcodes, hheader, hpathByte, hpath,
    hpayload]

theorem parsePacketEnvelope_inj_channelText : ∃ f : Frame, f.encode = [0x15, 0, 0x81] ∧
    parsePacketEnvelope [0x15, 0, 0x81] = some f.envelope ∧
      ∀ raw', parsePacketEnvelope raw' = some f.envelope → raw' = [0x15, 0, 0x81] :=
  parsePacketEnvelope_inj (by decide)

end RtfmEv.PathUtils
