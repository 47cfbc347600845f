import RtfmEv.Lib.Bytes
import RtfmEv.Lib.SortedTable

/-!
# BER values

The value types of SNMPv2c in BER: definite lengths, single-byte tags. Reading is
strict, and the two directions do not have the same limits: the writer takes an
integer of any size, the reader at most eight bytes, or nine if it is unsigned.
-/

namespace RtfmEv.Snmp

open RtfmEv.Lib

abbrev tagInteger : UInt8 := 0x02
abbrev tagOctetString : UInt8 := 0x04
abbrev tagNull : UInt8 := 0x05
abbrev tagOid : UInt8 := 0x06
abbrev tagSequence : UInt8 := 0x30
abbrev tagCounter32 : UInt8 := 0x41
abbrev tagGauge32 : UInt8 := 0x42
abbrev tagTimeticks : UInt8 := 0x43
abbrev tagCounter64 : UInt8 := 0x46
abbrev tagNoSuchObject : UInt8 := 0x80
abbrev tagNoSuchInstance : UInt8 := 0x81
abbrev tagEndOfMibView : UInt8 := 0x82

abbrev unsignedTags : List UInt8 := [tagCounter32, tagGauge32, tagTimeticks, tagCounter64]

abbrev exceptionTags : List UInt8 :=
  [tagNoSuchObject, tagNoSuchInstance, tagEndOfMibView]

abbrev maxSubId : ℕ := 0xFFFFFFFF
abbrev maxIntegerBytes : ℕ := 8
abbrev maxUnsignedBytes : ℕ := 9

abbrev Oid := List ℤ

/-- Malformed BER data, or a value that cannot be encoded. -/
structure BerError where
  message : String
  deriving DecidableEq, Repr

/-- The decoded content of a value. -/
inductive Content where
  | int (i : ℤ)
  | bool (b : Bool)
  | bytes (b : Bytes)
  | oid (o : Oid)
  | none
  deriving DecidableEq, Repr

/-- One value: the BER tag and its decoded content. -/
structure SnmpValue where
  tag : UInt8
  value : Content := .none
  deriving DecidableEq, Repr

/-! ### Tag, length, content -/

def encodeLength (length : ℕ) : Bytes :=
  if length < 0x80 then [UInt8.ofNat length]
  else
    let body := toBytesBE ((bitLength length + 7) / 8) length
    UInt8.ofNat (0x80 ||| body.length) :: body

def encodeTlv (tag : UInt8) (content : Bytes) : Bytes :=
  [tag] ++ encodeLength content.length ++ content

/-- One tag, length and content at `offset`, with the offset behind it. -/
def decodeTlv (data : Bytes) (offset : ℕ) : Except BerError (UInt8 × Bytes × ℕ) :=
  match data.drop offset with
  | tag :: first :: _ =>
    if tag &&& 0x1F = 0x1F then throw ⟨"multi-byte tags are not supported"⟩
    else if first < 0x80 then
      let pos := offset + 2
      let stop := pos + first.toNat
      if stop > data.length then throw ⟨"TLV content runs past the end of the data"⟩
      else return (tag, slice data pos stop, stop)
    else
      let count := (first &&& 0x7F).toNat
      if count = 0 then throw ⟨"indefinite length is not allowed"⟩
      else if count > 4 then throw ⟨"length field too large"⟩
      else if offset + 2 + count > data.length then throw ⟨"truncated length field"⟩
      else
        let pos := offset + 2 + count
        let stop := pos + fromBytesBE (slice data (offset + 2) pos)
        if stop > data.length then throw ⟨"TLV content runs past the end of the data"⟩
        else return (tag, slice data pos stop, stop)
  | _ => throw ⟨"truncated TLV header"⟩

/-! ### Integers -/

/-- The number of bytes of an integer in two's complement, shortest form. -/
def integerSize (value : ℤ) : ℕ :=
  let magnitude := if value ≥ 0 then value else value + 1
  (bitLength magnitude.natAbs + 8) / 8

def encodeInteger (value : ℤ) : Bytes := toBytesSignedBE (integerSize value) value

/-- The number of bytes of an unsigned integer, with room for a clear top bit. -/
def unsignedSize (value : ℕ) : ℕ := (bitLength value + 8) / 8

def encodeUnsigned (value : ℤ) : Except BerError Bytes :=
  if value < 0 then throw ⟨"unsigned SNMP value cannot be negative"⟩
  else return toBytesBE (unsignedSize value.toNat) value.toNat

/-! ### Object identifiers -/

/-- The leading groups of seven bits, each with the continuation bit. -/
def leadingGroups : ℕ → ℕ → Bytes
  | 0, _ => []
  | fuel + 1, subId =>
    if subId = 0 then []
    else leadingGroups fuel (subId >>> 7) ++ [UInt8.ofNat (0x80 ||| (subId &&& 0x7F))]

def encodeSubId (subId : ℕ) : Bytes :=
  leadingGroups (bitLength subId) (subId >>> 7) ++ [UInt8.ofNat (subId &&& 0x7F)]

def encodeOid : Oid → Except BerError Bytes
  | first :: second :: rest =>
    if first ∉ [0, 1, 2] ∨ second < 0 ∨ (first < 2 ∧ second > 39) then
      throw ⟨"invalid first two OID sub-identifiers"⟩
    else if second > maxSubId ∨ ∃ subId ∈ rest, ¬ (0 ≤ subId ∧ subId ≤ maxSubId) then
      throw ⟨"OID sub-identifier out of range"⟩
    else
      return encodeSubId (first * 40 + second).toNat ++
        rest.flatMap (fun subId => encodeSubId subId.toNat)
  | _ => throw ⟨"an OID needs at least two sub-identifiers"⟩

/-- The sub-identifiers of the remaining content, after those already read. -/
def decodeSubIds : Bytes → List ℕ → ℕ → Bool → Except BerError (List ℕ)
  | [], subIds, _, inSubId =>
    if inSubId then throw ⟨"truncated OID sub-identifier"⟩ else return subIds
  | byte :: content, subIds, current, inSubId =>
    if !inSubId && byte = 0x80 then throw ⟨"OID sub-identifier is not in shortest form"⟩
    else
      let current := current <<< 7 ||| (byte &&& 0x7F).toNat
      if current > maxSubId + 80 then throw ⟨"OID sub-identifier out of range"⟩
      else if byte &&& 0x80 ≠ 0 then decodeSubIds content subIds current true
      else decodeSubIds content (subIds ++ [current]) 0 false

def decodeOid (content : Bytes) : Except BerError Oid :=
  if content = [] then throw ⟨"empty OID"⟩
  else do
    match ← decodeSubIds content [] 0 false with
    -- not reached: content that is read to its end holds a sub-identifier
    | [] => throw ⟨"empty OID"⟩
    | joined :: rest =>
      if ∃ subId ∈ rest, subId > maxSubId then throw ⟨"OID sub-identifier out of range"⟩
      else
        let first := min (joined / 40) 2
        return (first : ℤ) :: ((joined : ℤ) - first * 40) ::
          rest.map (fun subId : ℕ => (subId : ℤ))

/-! ### Values -/

def encodeValue (value : SnmpValue) : Except BerError Bytes :=
  let tag := value.tag
  if tag = tagInteger then
    match value.value with
    | .int raw => return encodeTlv tag (encodeInteger raw)
    | _ => throw ⟨"INTEGER needs an int"⟩
  else if tag ∈ unsignedTags then
    match value.value with
    | .int raw => do return encodeTlv tag (← encodeUnsigned raw)
    | _ => throw ⟨"unsigned SNMP value needs an int"⟩
  else if tag = tagOid then
    match value.value with
    | .oid raw => do return encodeTlv tag (← encodeOid raw)
    | _ => throw ⟨"OBJECT IDENTIFIER needs a tuple"⟩
  else if tag = tagNull ∨ tag ∈ exceptionTags then return encodeTlv tag []
  else
    match value.value with
    | .bytes raw => return encodeTlv tag raw
    | _ => throw ⟨"tag 0x" ++ String.ofList (toHex [tag]) ++ " needs bytes"⟩

def decodeValue (tag : UInt8) (content : Bytes) : Except BerError SnmpValue :=
  if tag = tagInteger then
    if content = [] ∨ content.length > maxIntegerBytes then throw ⟨"bad INTEGER length"⟩
    else return { tag := tag, value := .int (fromBytesSignedBE content) }
  else if tag ∈ unsignedTags then
    if content = [] ∨ content.length > maxUnsignedBytes then throw ⟨"bad unsigned length"⟩
    else return { tag := tag, value := .int (fromBytesBE content) }
  else if tag = tagOid then do return { tag := tag, value := .oid (← decodeOid content) }
  else if tag = tagNull ∨ tag ∈ exceptionTags then
    if content ≠ [] then throw ⟨"NULL and exception values carry no content"⟩
    else return { tag := tag }
  else return { tag := tag, value := .bytes content }

/-!
## Message framing

A message is a sequence of version, community and PDU; a PDU holds the request id,
two integers whose meaning depends on its type, and the list of variable bindings.
-/

abbrev version2c : ℤ := 1

abbrev pduGet : UInt8 := 0xA0
abbrev pduGetnext : UInt8 := 0xA1
abbrev pduResponse : UInt8 := 0xA2
abbrev pduSet : UInt8 := 0xA3
abbrev pduGetbulk : UInt8 := 0xA5

abbrev errorNoError : ℤ := 0
abbrev errorTooBig : ℤ := 1

/-- The largest UDP payload. -/
abbrev maxMessageBytes : ℕ := 65507
abbrev maxVarbinds : ℕ := 256

abbrev knownPdus : List UInt8 := [pduGet, pduGetnext, pduResponse, pduSet, pduGetbulk]

abbrev VarBind := Oid × SnmpValue

/-- In a bulk request `errorStatus` holds the non-repeaters and `errorIndex` the
max-repetitions. -/
structure SnmpMessage where
  community : Bytes
  pduType : UInt8
  requestId : ℤ
  errorStatus : ℤ := 0
  errorIndex : ℤ := 0
  varbinds : List VarBind := []
  version : ℤ := version2c
  deriving DecidableEq, Repr

/-! #### Writing -/

def integer (value : ℤ) : Bytes := encodeTlv tagInteger (encodeInteger value)

def encodeVarbind (varbind : VarBind) : Except BerError Bytes := do
  let name ← encodeOid varbind.1
  let value ← encodeValue varbind.2
  return encodeTlv tagSequence (encodeTlv tagOid name ++ value)

/-- The varbinds of a message, joined. -/
def encodeVarbinds : List VarBind → Except BerError Bytes
  | [] => return []
  | varbind :: rest => do
    let first ← encodeVarbind varbind
    let others ← encodeVarbinds rest
    return first ++ others

def encodeMessage (message : SnmpMessage) : Except BerError Bytes := do
  let varbinds ← encodeVarbinds message.varbinds
  let pdu := encodeTlv message.pduType
    (integer message.requestId ++ integer message.errorStatus ++ integer message.errorIndex ++
      encodeTlv tagSequence varbinds)
  return encodeTlv tagSequence
    (integer message.version ++ encodeTlv tagOctetString message.community ++ pdu)

/-! #### Reading -/

/-- `_expect`: the content at `offset` under the tag `tag`. -/
def expect (data : Bytes) (offset : ℕ) (tag : UInt8) (what : String) :
    Except BerError (Bytes × ℕ) := do
  let (got, content, stop) ← decodeTlv data offset
  if got ≠ tag then throw ⟨"expected " ++ what⟩
  else return (content, stop)

def expectInteger (data : Bytes) (offset : ℕ) (what : String) : Except BerError (ℤ × ℕ) := do
  let (content, stop) ← expect data offset tagInteger what
  match (← decodeValue tagInteger content).value with
  | .int value => return (value, stop)
  -- not reached: the value of an INTEGER is an int
  | _ => throw ⟨"assertion"⟩

/-- One varbind at `pos`, with the offset behind it. -/
def decodeVarbind (data : Bytes) (pos : ℕ) : Except BerError (VarBind × ℕ) := do
  let (varbind, pos) ← expect data pos tagSequence "varbind"
  let (oidBytes, valuePos) ← expect varbind 0 tagOid "varbind name"
  let (tag, content, valueEnd) ← decodeTlv varbind valuePos
  if valueEnd ≠ varbind.length then throw ⟨"trailing bytes after the varbind value"⟩
  else
    let oid ← decodeOid oidBytes
    let value ← decodeValue tag content
    return ((oid, value), pos)

/-- The varbinds from `pos` to the end, of which there may be `room` more. -/
def decodeVarbinds (data : Bytes) : ℕ → ℕ → List VarBind → Except BerError (List VarBind)
  | room, pos, varbinds =>
    if pos < data.length then
      match room with
      | 0 => throw ⟨"too many varbinds"⟩
      | room + 1 => do
        let (varbind, pos) ← decodeVarbind data pos
        decodeVarbinds data room pos (varbinds ++ [varbind])
    else return varbinds

def decodeMessage (data : Bytes) : Except BerError SnmpMessage :=
  if data.length > maxMessageBytes then throw ⟨"message too large"⟩
  else do
    let (body, stop) ← expect data 0 tagSequence "message SEQUENCE"
    if stop ≠ data.length then throw ⟨"trailing bytes after the message"⟩
    else
      let (version, pos) ← expectInteger body 0 "version"
      if version ≠ version2c then throw ⟨"only SNMPv2c is supported"⟩
      else
        let (community, pos) ← expect body pos tagOctetString "community"
        let (pduType, pdu, stop) ← decodeTlv body pos
        if pduType ∉ knownPdus then throw ⟨"unsupported PDU type"⟩
        else if stop ≠ body.length then throw ⟨"trailing bytes after the PDU"⟩
        else
          let (requestId, pos) ← expectInteger pdu 0 "request-id"
          let (errorStatus, pos) ← expectInteger pdu pos "error-status"
          let (errorIndex, pos) ← expectInteger pdu pos "error-index"
          let (varbindList, stop) ← expect pdu pos tagSequence "varbind list"
          if stop ≠ pdu.length then throw ⟨"trailing bytes after the varbind list"⟩
          else
            let varbinds ← decodeVarbinds varbindList maxVarbinds 0 []
            return { community, pduType, requestId, errorStatus, errorIndex, varbinds, version }

/-!
## The read-only agent

One request datagram in, one reply datagram or none out. Reading requests are
answered from a table of values sorted by object identifier; a bulk reply is cut at
a number of varbinds and again until it fits one frame.
-/

abbrev errorNotWritable : ℤ := 17

abbrev maxResponseBytes : ℕ := 1400
abbrev maxBulkVarbinds : ℕ := 100

abbrev noSuchObject : SnmpValue := { tag := tagNoSuchObject }
abbrev endOfMibView : SnmpValue := { tag := tagEndOfMibView }

structure AgentCounters where
  requests : ℕ := 0
  badCommunity : ℕ := 0
  malformed : ℕ := 0
  deriving DecidableEq, Repr

def getNext (table : List VarBind) (oids : List Oid) (oid : Oid) : VarBind :=
  (table[bisectRight oids oid]?).getD (oid, endOfMibView)

/-- `dict(table).get(oid, …)`: of two entries under one name the later one counts. -/
def byOid (table : List VarBind) (oid : Oid) : SnmpValue :=
  (table.reverse.lookup oid).getD noSuchObject

/-- The repetitions of a bulk request, at most `maxRepetitions` more. -/
def repetitions (table : List VarBind) (oids : List Oid) :
    ℕ → List Oid → List VarBind → List VarBind
  | 0, _, out => out
  | maxRepetitions + 1, current, out =>
    if current = [] ∨ out.length ≥ maxBulkVarbinds then out
    else
      let row := current.map (getNext table oids)
      if row.all (fun varbind => varbind.2.tag = tagEndOfMibView) then out ++ row
      else repetitions table oids maxRepetitions (row.map Prod.fst) (out ++ row)

/-- The varbinds that answer a reading request, and whether they may be cut short. -/
def answer (request : SnmpMessage) (table : List VarBind) : List VarBind × Bool :=
  let oids := table.map Prod.fst
  if request.pduType = pduGet then
    (request.varbinds.map (fun varbind => (varbind.1, byOid table varbind.1)), false)
  else if request.pduType = pduGetnext then
    (request.varbinds.map (fun varbind => getNext table oids varbind.1), false)
  else
    let nonRepeaters := (max 0 (min request.errorStatus request.varbinds.length)).toNat
    let out := (request.varbinds.take nonRepeaters).map
      (fun varbind => getNext table oids varbind.1)
    let current := (request.varbinds.drop nonRepeaters).map Prod.fst
    ((repetitions table oids request.errorIndex.toNat current out).take maxBulkVarbinds, true)

/-- The reply message of a request. -/
def response (request : SnmpMessage) (varbinds : List VarBind) (status index : ℤ) :
    SnmpMessage where
  community := request.community
  pduType := pduResponse
  requestId := request.requestId
  errorStatus := status
  errorIndex := index
  varbinds := varbinds

def reply (request : SnmpMessage) (varbinds : List VarBind) (status : ℤ := errorNoError)
    (index : ℤ := 0) : Except BerError Bytes :=
  encodeMessage (response request varbinds status index)

/-- Cut a bulk reply to three quarters until it fits. -/
def truncated (request : SnmpMessage) : ℕ → List VarBind → Bytes → Except BerError Bytes
  | 0, _, encoded => return encoded
  | fuel + 1, varbinds, encoded =>
    if varbinds ≠ [] ∧ encoded.length > maxResponseBytes then do
      let varbinds := varbinds.take (varbinds.length * 3 / 4)
      let encoded ← reply request varbinds
      truncated request fuel varbinds encoded
    else return encoded

/-- What an accepted request is answered with. -/
def respond (request : SnmpMessage) (table : List VarBind) : Except BerError Bytes :=
  if request.pduType = pduSet then
    reply request request.varbinds errorNotWritable (if request.varbinds = [] then 0 else 1)
  else do
    let (varbinds, mayTruncate) := answer request table
    let encoded ← reply request varbinds
    if encoded.length ≤ maxResponseBytes then return encoded
    else if !mayTruncate then reply request [] errorTooBig
    else truncated request varbinds.length varbinds encoded

def handleRequest (data community : Bytes) (table : List VarBind) (counters : AgentCounters) :
    AgentCounters × Except BerError (Option Bytes) :=
  match decodeMessage data with
  | .error _ => ({ counters with malformed := counters.malformed + 1 }, .ok none)
  | .ok request =>
    if request.community ≠ community then
      ({ counters with badCommunity := counters.badCommunity + 1 }, .ok none)
    else if request.pduType = pduResponse then (counters, .ok none)
    else
      ({ counters with requests := counters.requests + 1 },
        (respond request table).map some)

end RtfmEv.Snmp
