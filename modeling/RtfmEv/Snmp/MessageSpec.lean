import RtfmEv.Snmp.BerSpec

/-!
# Round trips of messages

A message whose varbinds can be written has one written form, of a size computed
from its parts. The reader returns the message if that form fits a datagram and
every value is in range, and fails if one of the two is not so.
-/

namespace RtfmEv.Snmp

open RtfmEv.Lib

/-! ### The written form -/

/-- A varbind that can be written. -/
def Writable (varbind : VarBind) : Prop := ValidOid varbind.1 ∧ Wellformed varbind.2

def varbindBytes (varbind : VarBind) : Bytes :=
  encodeTlv tagSequence
    (encodeTlv tagOid (oidContent varbind.1) ++
      encodeTlv varbind.2.tag (valueContent varbind.2))

/-- The number of bytes of a varbind. -/
def varbindSize (varbind : VarBind) : ℕ :=
  tlvSize (tlvSize (oidSize varbind.1) + tlvSize (valueSize varbind.2))

@[simp] theorem length_varbindBytes (varbind : VarBind) :
    (varbindBytes varbind).length = varbindSize varbind := by
  simp [varbindBytes, varbindSize]

variable {varbind : VarBind} {written data content back front : Bytes} {message : SnmpMessage}
  {varbinds : List VarBind} {pos stop offset : ℕ} {tag : UInt8} {value : SnmpValue}

theorem encodeVarbind_of_writable (h : Writable varbind) :
    encodeVarbind varbind = .ok (varbindBytes varbind) := by
  rw [encodeVarbind, encodeOid_of_valid h.1, ok_bind, encodeValue_of_wellformed h.2, ok_bind,
    return_eq, varbindBytes]

theorem writable_of_encodeVarbind (h : encodeVarbind varbind = .ok written) : Writable varbind := by
  rw [encodeVarbind] at h
  obtain ⟨name, hname, h⟩ := bind_eq_ok.mp h
  obtain ⟨value, hvalue, h⟩ := bind_eq_ok.mp h
  refine ⟨?_, wellformed_of_encodeValue hvalue⟩
  by_contra hinvalid
  obtain ⟨e, he⟩ := encodeOid_of_not_valid hinvalid
  rw [he] at hname
  cases hname

theorem encodeVarbinds_of_writable (h : ∀ varbind ∈ varbinds, Writable varbind) :
    encodeVarbinds varbinds = .ok (varbinds.flatMap varbindBytes) := by
  induction varbinds with
  | nil => rfl
  | cons varbind rest ih =>
    rw [encodeVarbinds, encodeVarbind_of_writable (h varbind (by simp)), ok_bind,
      ih (fun other hother => h other (by simp [hother])), ok_bind, return_eq,
      List.flatMap_cons]

theorem writable_of_encodeVarbinds
    (h : encodeVarbinds varbinds = .ok written) : ∀ varbind ∈ varbinds, Writable varbind := by
  induction varbinds generalizing written with
  | nil => simp
  | cons varbind rest ih =>
    rw [encodeVarbinds] at h
    obtain ⟨first, hfirst, h⟩ := bind_eq_ok.mp h
    obtain ⟨others, hothers, h⟩ := bind_eq_ok.mp h
    intro other hmem
    rcases List.mem_cons.mp hmem with rfl | hmem
    · exact writable_of_encodeVarbind hfirst
    · exact ih hothers other hmem

def pduContent (message : SnmpMessage) : Bytes :=
  integer message.requestId ++ (integer message.errorStatus ++ (integer message.errorIndex ++
    encodeTlv tagSequence (message.varbinds.flatMap varbindBytes)))

def bodyContent (message : SnmpMessage) : Bytes :=
  integer message.version ++ (encodeTlv tagOctetString message.community ++
    encodeTlv message.pduType (pduContent message))

/-- The written form of a message. -/
def messageBytes (message : SnmpMessage) : Bytes :=
  encodeTlv tagSequence (bodyContent message)

theorem encodeMessage_of_writable (h : ∀ varbind ∈ message.varbinds, Writable varbind) :
    encodeMessage message = .ok (messageBytes message) := by
  rw [encodeMessage, encodeVarbinds_of_writable h, ok_bind, return_eq, messageBytes, bodyContent,
    pduContent]
  simp only [List.append_assoc]

theorem writable_of_encodeMessage (h : encodeMessage message = .ok written) :
    ∀ varbind ∈ message.varbinds, Writable varbind := by
  rw [encodeMessage] at h
  obtain ⟨varbinds, hvarbinds, h⟩ := bind_eq_ok.mp h
  exact writable_of_encodeVarbinds hvarbinds

/-- The number of bytes of an integer with its tag and length. -/
def fieldSize (value : ℤ) : ℕ := tlvSize (integerSize value)

@[simp] theorem length_integer (value : ℤ) : (integer value).length = fieldSize value := by
  rw [integer, length_encodeTlv, encodeInteger, length_toBytesSignedBE, fieldSize]

def varbindsSize (varbinds : List VarBind) : ℕ := (varbinds.map varbindSize).sum

theorem length_flatMap_varbindBytes (varbinds : List VarBind) :
    (varbinds.flatMap varbindBytes).length = varbindsSize varbinds := by
  rw [List.length_flatMap, varbindsSize]
  simp only [length_varbindBytes]

def pduSize (message : SnmpMessage) : ℕ :=
  fieldSize message.requestId + (fieldSize message.errorStatus + (fieldSize message.errorIndex +
    tlvSize (varbindsSize message.varbinds)))

def bodySize (message : SnmpMessage) : ℕ :=
  fieldSize message.version + (tlvSize message.community.length + tlvSize (pduSize message))

/-- The number of bytes of a message. -/
def messageSize (message : SnmpMessage) : ℕ := tlvSize (bodySize message)

@[simp] theorem length_pduContent (message : SnmpMessage) :
    (pduContent message).length = pduSize message := by
  simp only [pduContent, pduSize, List.length_append, length_integer, length_encodeTlv,
    length_flatMap_varbindBytes]

@[simp] theorem length_bodyContent (message : SnmpMessage) :
    (bodyContent message).length = bodySize message := by
  simp [bodyContent, bodySize]

@[simp] theorem length_messageBytes (message : SnmpMessage) :
    (messageBytes message).length = messageSize message := by
  simp [messageBytes, messageSize]

theorem bodySize_lt (message : SnmpMessage) : bodySize message < messageSize message := by
  have h := lt_tlvSize (bodySize message)
  rw [messageSize]
  omega

theorem community_lt (message : SnmpMessage) : message.community.length < messageSize message := by
  have h := lt_tlvSize message.community.length
  have hbody := bodySize_lt message
  rw [bodySize] at hbody
  omega

theorem pduSize_lt (message : SnmpMessage) : pduSize message < messageSize message := by
  have h := lt_tlvSize (pduSize message)
  have hbody := bodySize_lt message
  rw [bodySize] at hbody
  omega

theorem varbindsSize_lt (message : SnmpMessage) :
    varbindsSize message.varbinds < messageSize message := by
  have h := lt_tlvSize (varbindsSize message.varbinds)
  have hpdu := pduSize_lt message
  rw [pduSize] at hpdu
  omega

/-! ### Reading a part -/

theorem expect_encodeTlv (what : String)
    (hdata : data = front ++ (encodeTlv tag content ++ back)) (hpos : pos = front.length)
    (htag : tag &&& 0x1F ≠ 0x1F) (hlen : content.length < 2 ^ 32) :
    expect data pos tag what = .ok (content, pos + tlvSize content.length) := by
  subst hdata hpos
  rw [expect, decodeTlv_encodeTlv front content back htag hlen, ok_bind]
  simp only [ne_eq, not_true_eq_false, if_false, return_eq]

theorem expectInteger_integer {value : ℤ} (what : String)
    (hdata : data = front ++ (integer value ++ back)) (hpos : pos = front.length)
    (hsize : integerSize value ≤ maxIntegerBytes) :
    expectInteger data pos what = .ok (value, pos + fieldSize value) := by
  have hlen : (encodeInteger value).length = integerSize value := length_toBytesSignedBE _ _
  have hmax : maxIntegerBytes = 8 := rfl
  have hread : decodeValue tagInteger (encodeInteger value) = .ok ⟨tagInteger, .int value⟩ := by
    have hrange := integerSize_le_eight.mp hsize
    refine decodeValue_valueContent (.integer value)
      ⟨show tagInteger &&& 0x1F ≠ 0x1F by decide, fun i hi => ⟨fun _ => ?_, ?_⟩⟩
    · cases hi
      exact hrange
    · intro hmem
      exact absurd hmem (show tagInteger ∉ unsignedTags by decide)
  rw [expectInteger, expect_encodeTlv what hdata hpos (by decide) (by omega), ok_bind]
  simp only [hread, ok_bind, return_eq, hlen, fieldSize]

/-- The varbind as it is read back. -/
def carriedVarbind (varbind : VarBind) : VarBind := (varbind.1, carried varbind.2)

theorem varbind_parts_lt (varbind : VarBind) :
    tlvSize (oidSize varbind.1) + tlvSize (valueSize varbind.2) < varbindSize varbind ∧
      oidSize varbind.1 < varbindSize varbind ∧ valueSize varbind.2 < varbindSize varbind := by
  have hall := lt_tlvSize (tlvSize (oidSize varbind.1) + tlvSize (valueSize varbind.2))
  have hoid := lt_tlvSize (oidSize varbind.1)
  have hvalue := lt_tlvSize (valueSize varbind.2)
  rw [varbindSize]
  omega

theorem expect_name (oid : Oid) (hsize : oidSize oid < 2 ^ 32) (back : Bytes) :
    expect (encodeTlv tagOid (oidContent oid) ++ back) 0 tagOid "varbind name" =
      .ok (oidContent oid, tlvSize (oidSize oid)) := by
  have h := expect_encodeTlv "varbind name"
    (List.nil_append (encodeTlv tagOid (oidContent oid) ++ back)).symm
    (show 0 = ([] : Bytes).length from rfl) (by decide) (by rw [length_oidContent]; exact hsize)
  rw [length_oidContent, Nat.zero_add] at h
  exact h

section Varbind

variable {data front back : Bytes} {pos : ℕ} {varbind : VarBind}

theorem decodeVarbind_varbindBytes (hdata : data = front ++ (varbindBytes varbind ++ back))
    (hpos : pos = front.length) (hwrite : Writable varbind)
    (htag : varbind.2.tag &&& 0x1F ≠ 0x1F) (hsize : varbindSize varbind < 2 ^ 32) :
    decodeVarbind data pos =
      (do
        let value ← decodeValue varbind.2.tag (valueContent varbind.2)
        return ((varbind.1, value), pos + varbindSize varbind)) := by
  obtain ⟨hall, hoid, hvalue⟩ := varbind_parts_lt varbind
  have hname := expect_name varbind.1 (by omega) (encodeTlv varbind.2.tag (valueContent varbind.2))
  have htlv := decodeTlv_encodeTlv (encodeTlv tagOid (oidContent varbind.1))
    (valueContent varbind.2) [] htag (by rw [length_valueContent]; omega)
  rw [List.append_nil, length_encodeTlv, length_oidContent, length_valueContent] at htlv
  rw [decodeVarbind, expect_encodeTlv "varbind" hdata hpos (by decide) (by simp; omega), ok_bind]
  simp only [hname, ok_bind]
  rw [htlv, ok_bind]
  simp only [List.length_append, length_encodeTlv, length_oidContent, length_valueContent]
  rw [if_neg (by simp), decodeOid_oidContent hwrite.1, ok_bind, varbindSize]

theorem decodeVarbind_readable (hdata : data = front ++ (varbindBytes varbind ++ back))
    (hpos : pos = front.length) (hwrite : Writable varbind) (hread : Readable varbind.2)
    (hsize : varbindSize varbind < 2 ^ 32) :
    decodeVarbind data pos = .ok (carriedVarbind varbind, pos + varbindSize varbind) := by
  rw [decodeVarbind_varbindBytes hdata hpos hwrite hread.1 hsize,
    decodeValue_valueContent hwrite.2 hread, ok_bind, return_eq, carriedVarbind]

theorem decodeVarbind_unreadable (hdata : data = front ++ (varbindBytes varbind ++ back))
    (hpos : pos = front.length) (hwrite : Writable varbind) (hread : ¬ Readable varbind.2)
    (hsize : varbindSize varbind < 2 ^ 32) : ∃ e, decodeVarbind data pos = .error e := by
  by_cases htag : varbind.2.tag &&& 0x1F = 0x1F
  · obtain ⟨hall, hoid, hvalue⟩ := varbind_parts_lt varbind
    have hname := expect_name varbind.1 (by omega) (encodeTlv varbind.2.tag (valueContent varbind.2))
    obtain ⟨e, he⟩ := decodeTlv_multiByte (encodeTlv tagOid (oidContent varbind.1))
      (valueContent varbind.2) [] htag
    rw [List.append_nil, length_encodeTlv, length_oidContent] at he
    rw [decodeVarbind, expect_encodeTlv "varbind" hdata hpos (by decide) (by simp; omega), ok_bind]
    simp only [hname, ok_bind]
    rw [he]
    exact ⟨e, rfl⟩
  · obtain ⟨e, he⟩ := decodeValue_out_of_range hwrite.2 htag hread
    rw [decodeVarbind_varbindBytes hdata hpos hwrite htag hsize, he]
    exact ⟨e, rfl⟩

end Varbind

section Varbinds

variable {data front : Bytes} {varbinds : List VarBind}

theorem varbind_room {varbind : VarBind} {rest : List VarBind}
    (hdata : data = front ++ (varbindBytes varbind ++ rest.flatMap varbindBytes)) :
    front.length < data.length ∧ front.length + varbindSize varbind ≤ data.length ∧
      front.length + varbindSize varbind = (front ++ varbindBytes varbind).length := by
  have hpos := lt_tlvSize (tlvSize (oidSize varbind.1) + tlvSize (valueSize varbind.2))
  rw [hdata, List.length_append, List.length_append, List.length_append, length_varbindBytes]
  unfold varbindSize
  omega

theorem decodeVarbinds_readable {room : ℕ} (acc : List VarBind)
    (hdata : data = front ++ varbinds.flatMap varbindBytes) (hlen : data.length < 2 ^ 32)
    (hwrite : ∀ varbind ∈ varbinds, Writable varbind)
    (hread : ∀ varbind ∈ varbinds, Readable varbind.2) (hroom : varbinds.length ≤ room) :
    decodeVarbinds data room front.length acc = .ok (acc ++ varbinds.map carriedVarbind) := by
  induction varbinds generalizing front room acc with
  | nil =>
    rw [List.flatMap_nil, List.append_nil] at hdata
    unfold decodeVarbinds
    rw [if_neg (by rw [hdata]; exact lt_irrefl _), return_eq, List.map_nil, List.append_nil]
  | cons varbind rest ih =>
    rw [List.flatMap_cons] at hdata
    obtain ⟨hmore, hle, hfront⟩ := varbind_room hdata
    obtain ⟨room, rfl⟩ : ∃ k, room = k + 1 := ⟨room - 1, by
      rw [List.length_cons] at hroom
      omega⟩
    unfold decodeVarbinds
    rw [if_pos hmore]
    simp only
    rw [decodeVarbind_readable hdata rfl (hwrite varbind (by simp)) (hread varbind (by simp))
      (by omega), ok_bind]
    simp only [hfront]
    rw [ih _ (by rw [hdata, List.append_assoc]) (fun other hother => hwrite other (by simp [hother]))
      (fun other hother => hread other (by simp [hother]))
      (by rw [List.length_cons] at hroom; omega), List.append_assoc, List.map_cons,
      List.singleton_append]

theorem decodeVarbinds_unreadable (room : ℕ) (acc : List VarBind)
    (hdata : data = front ++ varbinds.flatMap varbindBytes) (hlen : data.length < 2 ^ 32)
    (hwrite : ∀ varbind ∈ varbinds, Writable varbind)
    (hread : ¬ ∀ varbind ∈ varbinds, Readable varbind.2) :
    ∃ e, decodeVarbinds data room front.length acc = .error e := by
  induction varbinds generalizing front room acc with
  | nil => exact absurd (by simp) hread
  | cons varbind rest ih =>
    rw [List.flatMap_cons] at hdata
    obtain ⟨hmore, hle, hfront⟩ := varbind_room hdata
    unfold decodeVarbinds
    rw [if_pos hmore]
    cases room with
    | zero => exact ⟨_, rfl⟩
    | succ room =>
      simp only
      by_cases hhead : Readable varbind.2
      · rw [decodeVarbind_readable hdata rfl (hwrite varbind (by simp)) hhead (by omega), ok_bind]
        simp only [hfront]
        apply ih
        · rw [hdata, List.append_assoc]
        · exact fun other hother => hwrite other (by simp [hother])
        · intro hrest
          exact hread (fun other hother => by
            rcases List.mem_cons.mp hother with rfl | hother
            · exact hhead
            · exact hrest other hother)
      · obtain ⟨e, he⟩ := decodeVarbind_unreadable hdata rfl (hwrite varbind (by simp)) hhead
          (by omega)
        rw [he]
        exact ⟨e, rfl⟩

end Varbinds

/-! ### Messages -/

/-- The message as it is read back. -/
def carriedMessage (message : SnmpMessage) : SnmpMessage :=
  { message with varbinds := message.varbinds.map carriedVarbind }

/-- A message the reader has room for, its values aside. -/
structure Framed (message : SnmpMessage) : Prop where
  version : message.version = version2c
  pduType : message.pduType ∈ knownPdus
  requestId : integerSize message.requestId ≤ maxIntegerBytes
  errorStatus : integerSize message.errorStatus ≤ maxIntegerBytes
  errorIndex : integerSize message.errorIndex ≤ maxIntegerBytes
  varbinds : message.varbinds.length ≤ maxVarbinds
  writable : ∀ varbind ∈ message.varbinds, Writable varbind

theorem known_pdu_tag (h : tag ∈ knownPdus) : tag &&& 0x1F ≠ 0x1F := by
  simp only [knownPdus, List.mem_cons, List.not_mem_nil, or_false] at h
  rcases h with rfl | rfl | rfl | rfl | rfl <;> decide

/-! The parts of a written message, each read at its offset. -/

section Parts

variable {message : SnmpMessage} (h : Framed message)
  (hsize : messageSize message ≤ maxMessageBytes)
include hsize

theorem size_lt_pow : messageSize message < 2 ^ 32 := by
  have hmax : maxMessageBytes = 65507 := rfl
  omega

theorem expect_message :
    expect (messageBytes message) 0 tagSequence "message SEQUENCE" =
      .ok (bodyContent message, messageSize message) := by
  have hbody := bodySize_lt message
  have hlt := size_lt_pow hsize
  have hread := expect_encodeTlv "message SEQUENCE"
    (show messageBytes message = [] ++ (encodeTlv tagSequence (bodyContent message) ++ []) by
      rw [List.append_nil]; rfl)
    (show 0 = ([] : Bytes).length from rfl) (by decide) (by rw [length_bodyContent]; omega)
  rw [length_bodyContent, Nat.zero_add] at hread
  exact hread

theorem expect_community :
    expect (bodyContent message) (fieldSize message.version) tagOctetString "community" =
      .ok (message.community, fieldSize message.version + tlvSize message.community.length) := by
  have hcommunity := community_lt message
  have hlt := size_lt_pow hsize
  exact expect_encodeTlv "community"
    (show bodyContent message = integer message.version ++ _ from rfl) (length_integer _).symm
    (by decide) (by omega)

theorem expect_varbind_list :
    expect (pduContent message)
        (fieldSize message.requestId + fieldSize message.errorStatus + fieldSize message.errorIndex)
        tagSequence "varbind list" =
      .ok (message.varbinds.flatMap varbindBytes, pduSize message) := by
  have hvarbinds := varbindsSize_lt message
  have hlt := size_lt_pow hsize
  have hread := expect_encodeTlv "varbind list"
    (show pduContent message = (integer message.requestId ++ (integer message.errorStatus ++
        integer message.errorIndex)) ++
        (encodeTlv tagSequence (message.varbinds.flatMap varbindBytes) ++ []) by
      rw [List.append_nil, List.append_assoc, List.append_assoc]; rfl)
    (show fieldSize message.requestId + fieldSize message.errorStatus +
        fieldSize message.errorIndex = _ by
      simp only [List.length_append, length_integer]; omega)
    (by decide) (by rw [length_flatMap_varbindBytes]; omega)
  rw [length_flatMap_varbindBytes] at hread
  rw [hread, pduSize]
  simp only [Except.ok.injEq, Prod.mk.injEq, true_and]
  omega

include h

theorem decodeTlv_pdu :
    decodeTlv (bodyContent message) (fieldSize message.version + tlvSize message.community.length) =
      .ok (message.pduType, pduContent message, bodySize message) := by
  have hpdu := pduSize_lt message
  have hlt := size_lt_pow hsize
  have hread := decodeTlv_encodeTlv
    (integer message.version ++ encodeTlv tagOctetString message.community) (pduContent message) []
    (known_pdu_tag h.pduType) (by rw [length_pduContent]; omega)
  rw [List.append_nil, List.append_assoc, List.length_append, length_integer, length_encodeTlv,
    length_pduContent] at hread
  rw [show bodyContent message = integer message.version ++
    (encodeTlv tagOctetString message.community ++
      encodeTlv message.pduType (pduContent message)) from rfl, hread, bodySize]
  simp only [Except.ok.injEq, Prod.mk.injEq, true_and]
  omega

end Parts

theorem expectInteger_version (h : message.version = version2c) :
    expectInteger (bodyContent message) 0 "version" =
      .ok (message.version, fieldSize message.version) := by
  have hread := expectInteger_integer "version"
    (show bodyContent message = [] ++ (integer message.version ++ _) from rfl)
    (show 0 = ([] : Bytes).length from rfl) (by rw [h]; decide)
  rw [Nat.zero_add] at hread
  exact hread

theorem expectInteger_requestId (h : Framed message) :
    expectInteger (pduContent message) 0 "request-id" =
      .ok (message.requestId, fieldSize message.requestId) := by
  have hread := expectInteger_integer "request-id"
    (show pduContent message = [] ++ (integer message.requestId ++ _) from rfl)
    (show 0 = ([] : Bytes).length from rfl) h.requestId
  rw [Nat.zero_add] at hread
  exact hread

theorem expectInteger_errorStatus (h : Framed message) :
    expectInteger (pduContent message) (fieldSize message.requestId) "error-status" =
      .ok (message.errorStatus, fieldSize message.requestId + fieldSize message.errorStatus) :=
  expectInteger_integer "error-status"
    (show pduContent message = integer message.requestId ++ _ from rfl) (length_integer _).symm
    h.errorStatus

theorem expectInteger_errorIndex (h : Framed message) : expectInteger (pduContent message)
        (fieldSize message.requestId + fieldSize message.errorStatus) "error-index" =
      .ok (message.errorIndex, fieldSize message.requestId + fieldSize message.errorStatus +
        fieldSize message.errorIndex) :=
  expectInteger_integer "error-index"
    (show pduContent message = (integer message.requestId ++ integer message.errorStatus) ++ _ by
      rw [List.append_assoc]; rfl)
    (by rw [List.length_append, length_integer, length_integer]) h.errorIndex

theorem decodeMessage_messageBytes (h : Framed message)
    (hsize : messageSize message ≤ maxMessageBytes) :
    decodeMessage (messageBytes message) =
      (do
        let varbinds ←
          decodeVarbinds (message.varbinds.flatMap varbindBytes) maxVarbinds 0 []
        return { message with varbinds := varbinds }) := by
  rw [decodeMessage, if_neg (by rw [length_messageBytes]; exact not_lt.mpr hsize),
    expect_message hsize, ok_bind]
  simp only [length_messageBytes]
  rw [if_neg (by simp), expectInteger_version h.version, ok_bind]
  simp only
  rw [if_neg (by simp [h.version]), expect_community hsize, ok_bind]
  simp only
  rw [decodeTlv_pdu h hsize, ok_bind]
  simp only [length_bodyContent]
  rw [if_neg (by simp [h.pduType]), if_neg (by simp), expectInteger_requestId h, ok_bind]
  simp only
  rw [expectInteger_errorStatus h, ok_bind]
  simp only
  rw [expectInteger_errorIndex h, ok_bind]
  simp only
  rw [expect_varbind_list hsize, ok_bind]
  simp only [length_pduContent]
  rw [if_neg (by simp)]

/-- **A message that fits a datagram is read back if its values are in range.** -/
theorem decodeMessage_of_readable (h : Framed message)
    (hsize : messageSize message ≤ maxMessageBytes)
    (hread : ∀ varbind ∈ message.varbinds, Readable varbind.2) :
    decodeMessage (messageBytes message) = .ok (carriedMessage message) := by
  have hvarbinds := varbindsSize_lt message
  have hmax : maxMessageBytes = 65507 := rfl
  have hlist := decodeVarbinds_readable [] (List.nil_append _).symm
    (by rw [length_flatMap_varbindBytes]; omega) h.writable hread h.varbinds
  rw [List.length_nil, List.nil_append] at hlist
  rw [decodeMessage_messageBytes h hsize, hlist, ok_bind, return_eq, carriedMessage]

theorem decodeMessage_of_unreadable (h : Framed message)
    (hsize : messageSize message ≤ maxMessageBytes)
    (hread : ¬ ∀ varbind ∈ message.varbinds, Readable varbind.2) :
    ∃ e, decodeMessage (messageBytes message) = .error e := by
  have hvarbinds := varbindsSize_lt message
  have hmax : maxMessageBytes = 65507 := rfl
  obtain ⟨e, he⟩ := decodeVarbinds_unreadable maxVarbinds [] (List.nil_append _).symm
    (by rw [length_flatMap_varbindBytes]; omega) h.writable hread
  rw [List.length_nil] at he
  rw [decodeMessage_messageBytes h hsize, he]
  exact ⟨e, rfl⟩

theorem decodeMessage_too_large (hsize : maxMessageBytes < messageSize message) :
    ∃ e, decodeMessage (messageBytes message) = .error e := by
  rw [decodeMessage, length_messageBytes, if_pos hsize]
  exact ⟨_, rfl⟩

/-! ### What was read -/

/-- What the reader has checked of a value. -/
structure ReadValue (value : SnmpValue) : Prop where
  wellformed : Wellformed value
  carried : carried value = value
  singleByte : value.tag &&& 0x1F ≠ 0x1F
  integer : value.tag = tagInteger → ∀ i, value.value = .int i → -2 ^ 63 ≤ i ∧ i < 2 ^ 63

/-- **A value that was read is read back unless it is an unsigned integer of more than
71 bits.** -/
theorem ReadValue.readable_iff (h : ReadValue value) :
    Readable value ↔ ∀ i, value.value = .int i → value.tag ∈ unsignedTags → i < 2 ^ 71 :=
  ⟨fun hread i hi => (hread.2 i hi).2,
    fun hunsigned => ⟨h.singleByte, fun i hi => ⟨fun htag => h.integer htag i hi, hunsigned i hi⟩⟩⟩

/-- A message as the reader returns it. -/
structure ReadMessage (message : SnmpMessage) : Prop where
  framed : Framed message
  values : ∀ varbind ∈ message.varbinds, ReadValue varbind.2

theorem decodeTlv_tag
    (h : decodeTlv data offset = .ok (tag, content, stop)) : tag &&& 0x1F ≠ 0x1F := by
  unfold decodeTlv at h
  split at h
  · rename_i got first rest hdrop
    intro htag
    by_cases hgot : got &&& 0x1F = 0x1F
    · rw [if_pos hgot] at h
      cases h
    · rw [if_neg hgot] at h
      simp only at h
      split_ifs at h <;> simp only [return_eq, Except.ok.injEq, Prod.mk.injEq] at h <;>
        exact hgot (h.1 ▸ htag)
  · cases h

theorem integerSize_of_expectInteger {value : ℤ} {what : String}
    (h : expectInteger data offset what = .ok (value, stop)) :
    integerSize value ≤ maxIntegerBytes := by
  rw [expectInteger] at h
  obtain ⟨⟨content, stop'⟩, -, h⟩ := bind_eq_ok.mp h
  obtain ⟨decoded, hdecoded, h⟩ := bind_eq_ok.mp h
  obtain ⟨-, htag, -, hrange⟩ := wellformed_of_decodeValue hdecoded
  split at h
  · rename_i i hi
    rw [return_eq] at h
    cases h
    exact integerSize_le_eight.mpr (hrange htag _ hi)
  · cases h

theorem read_of_decodeVarbind (h : decodeVarbind data pos = .ok (varbind, stop)) :
    Writable varbind ∧ ReadValue varbind.2 := by
  rw [decodeVarbind] at h
  obtain ⟨⟨inner, next⟩, -, h⟩ := bind_eq_ok.mp h
  obtain ⟨⟨oidBytes, valuePos⟩, -, h⟩ := bind_eq_ok.mp h
  obtain ⟨⟨tag, content, valueEnd⟩, htlv, h⟩ := bind_eq_ok.mp h
  simp only at h
  split_ifs at h
  obtain ⟨oid, hoid, h⟩ := bind_eq_ok.mp h
  obtain ⟨value, hvalue, h⟩ := bind_eq_ok.mp h
  rw [return_eq] at h
  cases h
  obtain ⟨hwell, htag, hcarried, hrange⟩ := wellformed_of_decodeValue hvalue
  exact ⟨⟨valid_of_decodeOid hoid, hwell⟩, hwell, hcarried, htag ▸ decodeTlv_tag htlv, hrange⟩

theorem read_of_decodeVarbinds {room : ℕ} {acc : List VarBind}
    (h : decodeVarbinds data room pos acc = .ok varbinds) :
    (∀ varbind ∈ acc, Writable varbind ∧ ReadValue varbind.2) →
      varbinds.length ≤ acc.length + room ∧
        ∀ varbind ∈ varbinds, Writable varbind ∧ ReadValue varbind.2 := by
  induction room generalizing pos acc with
  | zero =>
    intro hacc
    unfold decodeVarbinds at h
    split_ifs at h
    cases h
    exact ⟨le_rfl, hacc⟩
  | succ room ih =>
    intro hacc
    unfold decodeVarbinds at h
    split_ifs at h
    · simp only at h
      obtain ⟨⟨varbind, next⟩, hvarbind, h⟩ := bind_eq_ok.mp h
      obtain ⟨hlen, hall⟩ := ih h (by
        intro other hmem
        rcases List.mem_append.mp hmem with hold | hnew
        · exact hacc other hold
        · rw [List.mem_singleton.mp hnew]
          exact read_of_decodeVarbind hvarbind)
      rw [List.length_append, List.length_singleton] at hlen
      exact ⟨by omega, hall⟩
    · cases h
      exact ⟨by omega, hacc⟩

/-- **The reader returns messages of its own version, in its own ranges.** -/
theorem readMessage_of_decodeMessage
    (h : decodeMessage data = .ok message) : ReadMessage message := by
  rw [decodeMessage] at h
  split_ifs at h
  obtain ⟨⟨body, stop⟩, -, h⟩ := bind_eq_ok.mp h
  simp only at h
  split_ifs at h
  obtain ⟨⟨version, pos⟩, -, h⟩ := bind_eq_ok.mp h
  simp only at h
  split_ifs at h with hversion
  obtain ⟨⟨community, pos⟩, -, h⟩ := bind_eq_ok.mp h
  obtain ⟨⟨pduType, pdu, stop⟩, -, h⟩ := bind_eq_ok.mp h
  simp only at h
  split_ifs at h with hpdu
  obtain ⟨⟨requestId, pos⟩, hrequest, h⟩ := bind_eq_ok.mp h
  obtain ⟨⟨errorStatus, pos⟩, hstatus, h⟩ := bind_eq_ok.mp h
  obtain ⟨⟨errorIndex, pos⟩, hindex, h⟩ := bind_eq_ok.mp h
  obtain ⟨⟨varbindList, stop⟩, -, h⟩ := bind_eq_ok.mp h
  simp only at h
  split_ifs at h
  obtain ⟨varbinds, hvarbinds, h⟩ := bind_eq_ok.mp h
  rw [return_eq] at h
  cases h
  obtain ⟨hlen, hall⟩ := read_of_decodeVarbinds hvarbinds (by simp)
  rw [List.length_nil, Nat.zero_add] at hlen
  refine ⟨⟨not_not.mp hversion, hpdu, integerSize_of_expectInteger hrequest,
    integerSize_of_expectInteger hstatus, integerSize_of_expectInteger hindex, hlen,
    fun varbind hmem => (hall varbind hmem).1⟩, fun varbind hmem => (hall varbind hmem).2⟩

/-!
## The round trip of a message

A message is read back as it was written when it is one the reader accepts: of its version, with
a PDU type it knows, and with values that hold what their tag shows. A message that was read is
written and read back as long as it still fits, since the writer may need more bytes than the
message it was read from.
-/

/-- A message is written, and read back as it is. -/
def RoundTrips (message : SnmpMessage) : Prop :=
  ∃ written, encodeMessage message = .ok written ∧ decodeMessage written = .ok message

def FitsSigned (i : ℤ) : Prop := -2 ^ 63 ≤ i ∧ i < 2 ^ 63

def FitsUnsigned (i : ℤ) : Prop := 0 ≤ i ∧ i < 2 ^ 64

/-- The unsigned values of a message fit into 64 bits. -/
def UnsignedFit (message : SnmpMessage) : Prop :=
  ∀ varbind ∈ message.varbinds, ∀ i, varbind.2.value = .int i → varbind.2.tag ∈ unsignedTags →
    FitsUnsigned i

/-- A message within the ranges of the protocol, whose written form fits into a datagram. -/
structure WithinRanges (message : SnmpMessage) : Prop where
  varbinds : message.varbinds.length ≤ maxVarbinds
  names : ∀ varbind ∈ message.varbinds, ∃ content, encodeOid varbind.1 = .ok content
  integers : ∀ varbind ∈ message.varbinds, ∀ i, varbind.2.value = .int i →
    varbind.2.tag = tagInteger → FitsSigned i
  unsigned : UnsignedFit message
  requestId : FitsSigned message.requestId
  errorStatus : FitsSigned message.errorStatus
  errorIndex : FitsSigned message.errorIndex
  written : ∃ written, encodeMessage message = .ok written ∧ written.length ≤ maxMessageBytes

/-- A value whose tag is one byte and shows what the value holds. -/
def Plausible (value : SnmpValue) : Prop :=
  value.tag &&& 0x1F ≠ 0x1F ∧
    (value.tag = tagNull ∨ value.tag ∈ exceptionTags → value.value = .none)

theorem carried_eq_iff : carried value = value ↔
      (value.tag = tagNull ∨ value.tag ∈ exceptionTags → value.value = .none) := by
  obtain ⟨tag, content⟩ := value
  rw [carried]
  by_cases hempty : tag = tagNull ∨ tag ∈ exceptionTags
  · rw [if_pos hempty]
    constructor
    · intro h _
      exact (SnmpValue.mk.inj h).2.symm
    · intro h
      have hnone : content = .none := h hempty
      rw [hnone]
  · rw [if_neg hempty]
    exact ⟨fun _ h => absurd h hempty, fun _ => rfl⟩

variable {message : SnmpMessage}

theorem carriedMessage_eq_self (h : ∀ varbind ∈ message.varbinds, carried varbind.2 = varbind.2) :
    carriedMessage message = message := by
  have hmap : message.varbinds.map carriedVarbind = message.varbinds := by
    conv_rhs => rw [← List.map_id message.varbinds]
    apply List.map_congr_left
    intro varbind hmem
    rw [carriedVarbind, h varbind hmem]
    rfl
  rw [carriedMessage, hmap]

theorem readable_of_fits (htag : value.tag &&& 0x1F ≠ 0x1F)
    (hinteger : ∀ i, value.value = .int i → value.tag = tagInteger → FitsSigned i)
    (hunsigned : ∀ i, value.value = .int i → value.tag ∈ unsignedTags → FitsUnsigned i) :
    Readable value := by
  refine ⟨htag, fun i hi => ⟨fun ht => hinteger i hi ht, fun ht => ?_⟩⟩
  have hlt := (hunsigned i hi ht).2
  exact lt_trans hlt (by norm_num)

/-- The messages of the writer that the reader reads as they are. -/
theorem roundTrips_iff (h : WithinRanges message) :
    RoundTrips message ↔ message.version = version2c ∧ message.pduType ∈ knownPdus ∧
      ∀ varbind ∈ message.varbinds, Plausible varbind.2 := by
  obtain ⟨written, hwritten, hsize⟩ := h.written
  have hwrite := writable_of_encodeMessage hwritten
  have hbytes : written = messageBytes message := by
    rw [encodeMessage_of_writable hwrite] at hwritten
    exact (Except.ok.inj hwritten).symm
  constructor
  · rintro ⟨again, hagain, hread⟩
    have hmessage := readMessage_of_decodeMessage hread
    refine ⟨hmessage.framed.version, hmessage.framed.pduType, fun varbind hmem => ?_⟩
    have hvalue := hmessage.values varbind hmem
    exact ⟨hvalue.singleByte, carried_eq_iff.mp hvalue.carried⟩
  · rintro ⟨hversion, hpdu, hvalues⟩
    have hframed : Framed message := ⟨hversion, hpdu, integerSize_le_eight.mpr h.requestId,
      integerSize_le_eight.mpr h.errorStatus, integerSize_le_eight.mpr h.errorIndex, h.varbinds,
      hwrite⟩
    have hreadable : ∀ varbind ∈ message.varbinds, Readable varbind.2 := fun varbind hmem =>
      readable_of_fits (hvalues varbind hmem).1 (h.integers varbind hmem)
        (h.unsigned varbind hmem)
    rw [hbytes, length_messageBytes] at hsize
    refine ⟨messageBytes message, encodeMessage_of_writable hwrite, ?_⟩
    rw [decodeMessage_of_readable hframed hsize hreadable]
    congr 1
    exact carriedMessage_eq_self
      (fun varbind hmem => carried_eq_iff.mpr (hvalues varbind hmem).2)

/-- A message that was read can be written, and is read back from what is written if that still
fits into a datagram. -/
theorem readBack_iff (h : decodeMessage data = .ok message) (hunsigned : UnsignedFit message) :
    ∃ written, encodeMessage message = .ok written ∧
      (decodeMessage written = .ok message ↔ written.length ≤ maxMessageBytes) := by
  have hread := readMessage_of_decodeMessage h
  refine ⟨messageBytes message, encodeMessage_of_writable hread.framed.writable, ?_⟩
  rw [length_messageBytes]
  constructor
  · intro hagain
    by_contra hlarge
    obtain ⟨e, he⟩ := decodeMessage_too_large (not_le.mp hlarge)
    rw [he] at hagain
    cases hagain
  · intro hsize
    have hreadable : ∀ varbind ∈ message.varbinds, Readable varbind.2 := fun varbind hmem =>
      readable_of_fits (hread.values varbind hmem).singleByte
        (fun i hi htag => (hread.values varbind hmem).integer htag i hi)
        (hunsigned varbind hmem)
    rw [decodeMessage_of_readable hread.framed hsize hreadable]
    congr 1
    exact carriedMessage_eq_self (fun varbind hmem => (hread.values varbind hmem).carried)

/-- **The codec round trip.** A message within the ranges is read back as it was written if and
only if the reader knows its version and PDU type and its values are plausible. A message that was
read, with unsigned values of 64 bits, can be written, and is read back from that if and only if
it fits into a datagram. -/
theorem codec_round_trip :
    (∀ message, WithinRanges message →
      (RoundTrips message ↔ message.version = version2c ∧ message.pduType ∈ knownPdus ∧
        ∀ varbind ∈ message.varbinds, Plausible varbind.2)) ∧
    ∀ data message, decodeMessage data = .ok message → UnsignedFit message →
      ∃ written, encodeMessage message = .ok written ∧
        (decodeMessage written = .ok message ↔ written.length ≤ maxMessageBytes) :=
  ⟨fun _ h => roundTrips_iff h, fun _ _ h hunsigned => readBack_iff h hunsigned⟩

/-- A request for the system description. -/
def sysDescrRequest (version : ℤ) : SnmpMessage where
  community := [112]
  pduType := pduGet
  requestId := 1
  varbinds := [([1, 3, 6, 1, 2, 1, 1, 1, 0], ⟨tagNull, .none⟩)]
  version := version

theorem withinRanges_sysDescrRequest (version : ℤ)
    (h : ∃ written, encodeMessage (sysDescrRequest version) = .ok written ∧
      written.length ≤ maxMessageBytes) : WithinRanges (sysDescrRequest version) := by
  have hall : ∀ varbind ∈ (sysDescrRequest version).varbinds,
      varbind = ([1, 3, 6, 1, 2, 1, 1, 1, 0], ⟨tagNull, .none⟩) :=
    fun varbind hmem => List.mem_singleton.mp hmem
  constructor
  · show 1 ≤ 256
    omega
  · intro varbind hmem
    rw [hall varbind hmem]
    exact ⟨_, rfl⟩
  · intro varbind hmem i hi
    rw [hall varbind hmem] at hi
    cases hi
  · intro varbind hmem i hi
    rw [hall varbind hmem] at hi
    cases hi
  · show -2 ^ 63 ≤ (1 : ℤ) ∧ (1 : ℤ) < 2 ^ 63
    norm_num
  · show -2 ^ 63 ≤ (0 : ℤ) ∧ (0 : ℤ) < 2 ^ 63
    norm_num
  · show -2 ^ 63 ≤ (0 : ℤ) ∧ (0 : ℤ) < 2 ^ 63
    norm_num
  · exact h

theorem withinRanges_first : WithinRanges (sysDescrRequest 1) :=
  withinRanges_sysDescrRequest 1 ⟨_, rfl, by decide +kernel⟩

theorem codec_round_trip_sysDescr :
    RoundTrips (sysDescrRequest 1) ∧
      ∃ written, encodeMessage (sysDescrRequest 1) = .ok written ∧
        (decodeMessage written = .ok (sysDescrRequest 1) ↔ written.length ≤ maxMessageBytes) := by
  have hvalues : ∀ varbind ∈ (sysDescrRequest 1).varbinds, Plausible varbind.2 := by
    intro varbind hmem
    rw [List.mem_singleton.mp hmem]
    exact ⟨by decide, fun _ => rfl⟩
  have hround := (codec_round_trip.1 (sysDescrRequest 1) withinRanges_first).mpr
    ⟨rfl, by decide, hvalues⟩
  refine ⟨hround, ?_⟩
  obtain ⟨written, -, hread⟩ := hround
  exact codec_round_trip.2 written (sysDescrRequest 1) hread withinRanges_first.unsigned

/-- The codec does not read every message back that the writer takes: one of another version is
refused. -/
theorem not_forall_roundTrips :
    ¬((∀ message, WithinRanges message → RoundTrips message) ∧
      ∀ data message, decodeMessage data = .ok message → RoundTrips message) := by
  rintro ⟨hall, -⟩
  have hwithin : WithinRanges (sysDescrRequest 0) :=
    withinRanges_sysDescrRequest 0 ⟨_, rfl, by decide +kernel⟩
  obtain ⟨written, -, hread⟩ := hall (sysDescrRequest 0) hwithin
  have hversion := (readMessage_of_decodeMessage hread).framed.version
  exact absurd hversion (by decide)

end RtfmEv.Snmp
