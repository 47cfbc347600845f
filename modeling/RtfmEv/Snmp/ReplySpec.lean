import RtfmEv.Snmp.MessageSpec

/-!
# What a reply is

The answer of a reading request is described on the table alone: the entry of a
name, the first entry above one, rows of such successors for a bulk request. A reply
is a valid message exactly when the values it carries are in the reader's range and
an empty reply fits a frame; the echo of a refused write also has to fit a datagram,
since an integer can take more bytes written than it was read from.
-/

namespace RtfmEv.Snmp

open RtfmEv.Lib

/-! ### Answers on the table -/

def valueAt (table : List VarBind) (oid : Oid) : SnmpValue := (table.lookup oid).getD noSuchObject

/-- The first entry above a name, or the end of the table under that name. -/
def successor (table : List VarBind) (oid : Oid) : VarBind :=
  (above table oid).head?.getD (oid, endOfMibView)

/-- Rows of successors, up to the first row that is past the end everywhere. -/
def bulkRows (table : List VarBind) : ℕ → List Oid → List VarBind
  | 0, _ => []
  | rows + 1, current =>
    let row := current.map (successor table)
    row ++ (if row.all (fun varbind => varbind.2.tag = tagEndOfMibView) then []
      else bulkRows table rows (row.map Prod.fst))

/-- The varbinds a reading request asks for. -/
def wanted (table : List VarBind) (request : SnmpMessage) : List VarBind :=
  if request.pduType = pduGet then
    request.varbinds.map (fun varbind => (varbind.1, valueAt table varbind.1))
  else if request.pduType = pduGetnext then
    request.varbinds.map (fun varbind => successor table varbind.1)
  else
    let nonRepeaters := (max 0 (min request.errorStatus request.varbinds.length)).toNat
    let single := (request.varbinds.take nonRepeaters).map
      (fun varbind => successor table varbind.1)
    let repeated := (request.varbinds.drop nonRepeaters).map Prod.fst
    (single ++ bulkRows table request.errorIndex.toNat repeated).take maxBulkVarbinds

/-- The bulk request is the one whose answer may be cut. -/
def mayCut (request : SnmpMessage) : Bool :=
  request.pduType ≠ pduGet && request.pduType ≠ pduGetnext

variable {table varbinds : List VarBind} {request : SnmpMessage}

theorem getNext_eq (h : Ascending table) (oid : Oid) :
    getNext table (table.map Prod.fst) oid = successor table oid := by
  rw [getNext, getElem?_bisectRight h, successor]

theorem byOid_eq (h : Ascending table) (oid : Oid) :
    byOid table oid = valueAt table oid := by
  rw [byOid, lookup_reverse h, valueAt]

theorem take_repetitions (h : Ascending table) (rows : ℕ)
    (current : List Oid) (out : List VarBind) :
    (repetitions table (table.map Prod.fst) rows current out).take maxBulkVarbinds =
      (out ++ bulkRows table rows current).take maxBulkVarbinds := by
  induction rows generalizing current out with
  | zero => rw [repetitions, bulkRows, List.append_nil]
  | succ rows ih =>
    have hnext : getNext table (table.map Prod.fst) = successor table := funext (getNext_eq h)
    rw [repetitions, bulkRows, hnext]
    by_cases hfull : out.length ≥ maxBulkVarbinds
    · rw [if_pos (Or.inr hfull), List.take_append_of_le_length hfull]
    · by_cases hnone : current = []
      · rw [if_pos (Or.inl hnone), hnone]
        simp
      · rw [if_neg (by push Not; exact ⟨hnone, by omega⟩)]
        simp only
        split_ifs
        · rw [List.append_nil]
        · rw [ih, List.append_assoc]

/-- **The agent answers what the table holds.** -/
theorem answer_eq (h : Ascending table) (request : SnmpMessage) :
    answer request table = (wanted table request, mayCut request) := by
  have hnext : getNext table (table.map Prod.fst) = successor table := funext (getNext_eq h)
  have hby : byOid table = valueAt table := funext (byOid_eq h)
  rw [answer, wanted, mayCut]
  by_cases hget : request.pduType = pduGet
  · rw [if_pos hget, if_pos hget, hget, hby]
    rfl
  · rw [if_neg hget, if_neg hget]
    by_cases hnextPdu : request.pduType = pduGetnext
    · rw [if_pos hnextPdu, if_pos hnextPdu, hnextPdu, hnext]
      rfl
    · rw [if_neg hnextPdu, if_neg hnextPdu, hnext, decide_eq_true hget, decide_eq_true hnextPdu]
      simp only [take_repetitions h, Bool.and_self]

/-! ### What a reply carries -/

/-- Whether a reply with these varbinds fits a frame. -/
def FitsFrame (request : SnmpMessage) (varbinds : List VarBind) : Prop :=
  messageSize (response request varbinds errorNoError 0) ≤ maxResponseBytes

instance (request : SnmpMessage) (varbinds : List VarBind) :
    Decidable (FitsFrame request varbinds) :=
  inferInstanceAs (Decidable (_ ≤ _))

/-- The varbinds that are left of an answer. -/
def kept (request : SnmpMessage) (varbinds : List VarBind) : List VarBind :=
  if FitsFrame request varbinds then varbinds
  else if mayCut request then
    varbinds.take (shrinkToFit (fun n => FitsFrame request (varbinds.take n)) varbinds.length)
  else []

/-- The error status under which an answer is sent. -/
def replyStatus (request : SnmpMessage) (varbinds : List VarBind) : ℤ :=
  if FitsFrame request varbinds ∨ mayCut request then errorNoError else errorTooBig

theorem messageSize_response (request : SnmpMessage) (varbinds : List VarBind) (status : ℤ)
    (hstatus : fieldSize status = 3) :
    messageSize (response request varbinds status 0) =
      messageSize (response request varbinds errorNoError 0) := by
  have hzero : fieldSize errorNoError = 3 := rfl
  simp only [messageSize, bodySize, pduSize, response, hstatus, hzero]

theorem fitsFrame_nil (h : FitsFrame request varbinds) : FitsFrame request [] := by
  refine le_trans ?_ h
  apply tlvSize_mono
  have hpdu : pduSize (response request [] errorNoError 0) ≤
      pduSize (response request varbinds errorNoError 0) := by
    have hlist : tlvSize (varbindsSize []) ≤ tlvSize (varbindsSize varbinds) :=
      tlvSize_mono (by simp [varbindsSize])
    simp only [pduSize, response]
    omega
  have htlv := tlvSize_mono hpdu
  simp only [bodySize]
  simp only [response] at htlv ⊢
  omega

/-- **An empty reply fits a frame when the community and the request id leave room.** -/
theorem fitsFrame_nil_iff (hid : integerSize request.requestId ≤ maxIntegerBytes) :
    FitsFrame request [] ↔ request.community.length + integerSize request.requestId ≤ 1377 := by
  have hmaxId : maxIntegerBytes = 8 := rfl
  have hmax : maxResponseBytes = 1400 := rfl
  have hzero : fieldSize errorNoError = 3 := rfl
  have hversion : fieldSize version2c = 3 := rfl
  have hnil : tlvSize (varbindsSize []) = 2 := rfl
  have hidField : fieldSize request.requestId = integerSize request.requestId + 2 := by
    rw [fieldSize, tlvSize, lengthSize_of_lt (by omega)]
    omega
  have hpdu : pduSize (response request [] errorNoError 0) = integerSize request.requestId + 10 := by
    show fieldSize request.requestId +
      (fieldSize errorNoError + (fieldSize errorNoError + tlvSize (varbindsSize []))) = _
    omega
  have hpduTlv : tlvSize (pduSize (response request [] errorNoError 0)) =
      integerSize request.requestId + 12 := by
    rw [hpdu, tlvSize, lengthSize_of_lt (by omega)]
    omega
  have hbody : bodySize (response request [] errorNoError 0) =
      tlvSize request.community.length + (integerSize request.requestId + 15) := by
    show fieldSize version2c + (tlvSize request.community.length +
      tlvSize (pduSize (response request [] errorNoError 0))) = _
    omega
  rw [FitsFrame, messageSize, hbody]
  constructor
  · intro hfits
    by_contra hbig
    have hcommunity := three_le_lengthSize (show 0x100 ≤ request.community.length by omega)
    have hlow : request.community.length + 4 ≤ tlvSize request.community.length := by
      rw [tlvSize]
      omega
    have hsize := three_le_lengthSize (show 0x100 ≤ tlvSize request.community.length +
      (integerSize request.requestId + 15) by omega)
    rw [tlvSize] at hfits
    omega
  · intro hsmall
    have hcommunity := lengthSize_le_three (show request.community.length < 0x10000 by omega)
    have hlow : tlvSize request.community.length ≤ request.community.length + 4 := by
      rw [tlvSize]
      omega
    have hsize := lengthSize_le_three (show tlvSize request.community.length +
      (integerSize request.requestId + 15) < 0x10000 by omega)
    rw [tlvSize]
    omega

/-! ### The reply as bytes -/

theorem reply_of_writable (status index : ℤ) (h : ∀ varbind ∈ varbinds, Writable varbind) :
    reply request varbinds status index = .ok (messageBytes (response request varbinds status index)) :=
  encodeMessage_of_writable h

theorem writable_of_reply {status index : ℤ}
    {encoded : Bytes} (h : reply request varbinds status index = .ok encoded) :
    ∀ varbind ∈ varbinds, Writable varbind := writable_of_encodeMessage h

theorem truncated_eq (request : SnmpMessage)
    (h : ∀ varbind ∈ varbinds, Writable varbind) (fuel n : ℕ) (hn : n ≤ varbinds.length) :
    truncated request fuel (varbinds.take n)
        (messageBytes (response request (varbinds.take n) errorNoError 0)) =
      .ok (messageBytes (response request
        (varbinds.take (shrink (fun n => FitsFrame request (varbinds.take n)) fuel n))
        errorNoError 0)) := by
  induction fuel generalizing n with
  | zero => rfl
  | succ fuel ih =>
    have hlen : (varbinds.take n).length = n := List.length_take_of_le hn
    have hnil : varbinds.take n = [] ↔ n = 0 := by rw [← List.length_eq_zero_iff, hlen]
    rw [truncated, shrink, length_messageBytes]
    by_cases hstop : n = 0 ∨ FitsFrame request (varbinds.take n)
    · rw [if_neg, if_pos (by simpa using hstop), return_eq]
      intro hgo
      rcases hstop with hzero | hfits
      · exact hgo.1 (hnil.mpr hzero)
      · exact absurd hfits (not_le.mpr hgo.2)
    · push Not at hstop
      have hle : n * 3 / 4 ≤ n := by omega
      rw [if_pos ⟨fun h => hstop.1 (hnil.mp h), not_le.mp hstop.2⟩,
        if_neg (by simpa using hstop)]
      simp only [hlen, List.take_take, Nat.min_eq_left hle]
      rw [reply_of_writable _ _ (fun varbind hmem => h varbind (List.mem_of_mem_take hmem)), ok_bind]
      exact ih _ (hle.trans hn)

/-- **A reading request is answered with what is kept of the varbinds it wants.** -/
theorem respond_read (hsorted : Ascending table) (hset : request.pduType ≠ pduSet)
    (hwrite : ∀ varbind ∈ wanted table request, Writable varbind) :
    respond request table = .ok (messageBytes (response request
      (kept request (wanted table request)) (replyStatus request (wanted table request)) 0)) := by
  rw [respond, if_neg hset, answer_eq hsorted]
  simp only
  rw [reply_of_writable _ _ hwrite, ok_bind, length_messageBytes, kept, replyStatus]
  by_cases hfits : FitsFrame request (wanted table request)
  · rw [if_pos (show messageSize _ ≤ maxResponseBytes from hfits), if_pos hfits,
      if_pos (Or.inl hfits)]
    rfl
  · rw [if_neg (show ¬ messageSize _ ≤ maxResponseBytes from hfits), if_neg hfits]
    by_cases hcut : mayCut request = true
    · have htrunc := truncated_eq request hwrite (wanted table request).length
        (wanted table request).length le_rfl
      rw [List.take_length] at htrunc
      rw [if_neg (by simp [hcut]), if_pos hcut, if_pos (Or.inr hcut), htrunc, shrinkToFit]
    · rw [if_pos (by simpa using hcut), if_neg hcut, if_neg (by simp [hfits, hcut]),
        reply_of_writable _ _ (by simp)]

theorem respond_not_writable (hsorted : Ascending table) (hset : request.pduType ≠ pduSet)
    (hwrite : ¬ ∀ varbind ∈ wanted table request, Writable varbind) :
    ∃ e, respond request table = .error e := by
  rw [respond, if_neg hset, answer_eq hsorted]
  simp only
  cases hreply : reply request (wanted table request) with
  | ok encoded => exact absurd (writable_of_reply hreply) hwrite
  | error e => exact ⟨e, rfl⟩

/-! ### The varbinds of an answer -/

theorem kept_subset (request : SnmpMessage) (varbinds : List VarBind) :
    kept request varbinds ⊆ varbinds := by
  rw [kept]
  split_ifs
  · exact List.Subset.refl _
  · exact List.take_subset _ _
  · exact List.nil_subset _

theorem length_kept_le (request : SnmpMessage) (varbinds : List VarBind) :
    (kept request varbinds).length ≤ varbinds.length := by
  rw [kept]
  split_ifs
  · exact le_rfl
  · exact List.length_take_le' _ _
  · exact Nat.zero_le _

/-- **What is kept fits a frame as soon as an empty reply does.** -/
theorem kept_fits (hnil : FitsFrame request []) : FitsFrame request (kept request varbinds) := by
  rw [kept]
  split_ifs with hfits hcut
  · exact hfits
  · rcases shrink_fits (fun n => FitsFrame request (varbinds.take n))
      (le_refl varbinds.length) with hzero | hfit
    · rw [shrinkToFit, hzero]
      exact hnil
    · rw [shrinkToFit]
      simpa using hfit
  · exact hnil

theorem fieldSize_replyStatus (request : SnmpMessage) (varbinds : List VarBind) :
    fieldSize (replyStatus request varbinds) = 3 := by
  rw [replyStatus]
  split_ifs <;> rfl

theorem length_wanted_le
    (h : request.varbinds.length ≤ maxVarbinds) : (wanted table request).length ≤ maxVarbinds := by
  rw [wanted]
  split_ifs
  · rw [List.length_map]
    exact h
  · rw [List.length_map]
    exact h
  · exact (List.length_take_le _ _).trans (by decide)

theorem successor_mem (table : List VarBind) (oid : Oid) :
    successor table oid = (oid, endOfMibView) ∨ successor table oid ∈ table := by
  rw [successor]
  cases habove : (above table oid).head? with
  | none => exact Or.inl rfl
  | some e => exact Or.inr (mem_above.mp (List.mem_of_mem_head? habove)).1

theorem wellformed_noSuchObject : Wellformed noSuchObject := .empty (by decide) _

theorem wellformed_endOfMibView : Wellformed endOfMibView := .empty (by decide) _

theorem wellformed_valueAt (hsorted : Ascending table)
    (h : ∀ varbind ∈ table, Wellformed varbind.2) (oid : Oid) : Wellformed (valueAt table oid) := by
  rw [valueAt]
  cases hlookup : table.lookup oid with
  | none => exact wellformed_noSuchObject
  | some value =>
    have hne : table.Pairwise (fun a b => a.1 ≠ b.1) := hsorted.imp (fun hlt => ne_of_lt hlt)
    exact h _ ((lookup_eq_some_iff hne).mp hlookup)

theorem wellformed_successor
    (h : ∀ varbind ∈ table, Wellformed varbind.2) (oid : Oid) :
    Wellformed (successor table oid).2 := by
  rcases successor_mem table oid with heq | hmem
  · rw [heq]
    exact wellformed_endOfMibView
  · exact h _ hmem

theorem wellformed_bulkRows
    (h : ∀ varbind ∈ table, Wellformed varbind.2) (rows : ℕ) (current : List Oid) :
    ∀ varbind ∈ bulkRows table rows current, Wellformed varbind.2 := by
  induction rows generalizing current with
  | zero => simp [bulkRows]
  | succ rows ih =>
    intro varbind hmem
    rw [bulkRows] at hmem
    rcases List.mem_append.mp hmem with hrow | hrest
    · obtain ⟨oid, -, rfl⟩ := List.mem_map.mp hrow
      exact wellformed_successor h oid
    · split_ifs at hrest
      · cases hrest
      · exact ih _ _ hrest

/-- **The values of an answer can be written if those of the table can.** -/
theorem wellformed_wanted (hsorted : Ascending table)
    (h : ∀ varbind ∈ table, Wellformed varbind.2) (request : SnmpMessage) :
    ∀ varbind ∈ wanted table request, Wellformed varbind.2 := by
  intro varbind hmem
  rw [wanted] at hmem
  split_ifs at hmem
  · obtain ⟨asked, -, rfl⟩ := List.mem_map.mp hmem
    exact wellformed_valueAt hsorted h asked.1
  · obtain ⟨asked, -, rfl⟩ := List.mem_map.mp hmem
    exact wellformed_successor h asked.1
  · rcases List.mem_append.mp (List.mem_of_mem_take hmem) with hsingle | hrows
    · obtain ⟨asked, -, rfl⟩ := List.mem_map.mp hsingle
      exact wellformed_successor h asked.1
    · exact wellformed_bulkRows h _ _ varbind hrows

/-! ### Valid replies -/

/-- A reply as the protocol promises it. -/
structure ValidReply (request : SnmpMessage) (encoded : Bytes) (message : SnmpMessage) : Prop where
  decoded : decodeMessage encoded = .ok message
  pduType : message.pduType = pduResponse
  community : message.community = request.community
  requestId : message.requestId = request.requestId
  size : request.pduType ∈ [pduGet, pduGetnext, pduGetbulk] → encoded.length ≤ maxResponseBytes
  refused : request.pduType = pduSet →
    message.varbinds = request.varbinds ∧ message.errorStatus = errorNotWritable

/-- The request is handled without an error, and any reply is valid. -/
def RepliesValidly (data community : Bytes) (table : List VarBind) (counters : AgentCounters) :
    Prop :=
  ∃ out, (handleRequest data community table counters).2 = .ok out ∧
    ∀ encoded, out = some encoded →
      ∃ request message, decodeMessage data = .ok request ∧ ValidReply request encoded message

/-- The echo of a refused write: its unsigned integers have their top bit clear, and it
fits a datagram in its written form. -/
structure EchoFits (request : SnmpMessage) : Prop where
  unsigned : ∀ varbind ∈ request.varbinds, ∀ i, varbind.2.value = .int i →
    varbind.2.tag ∈ unsignedTags → i < 2 ^ 71
  size : messageSize (response request request.varbinds errorNotWritable
    (if request.varbinds = [] then 0 else 1)) ≤ maxMessageBytes

/-- The answer of a reading request: the community leaves room for an empty reply, the
names can be written, and the values that are kept are in the reader's range. -/
structure AnswerFits (request : SnmpMessage) (table : List VarBind) : Prop where
  community : request.community.length + integerSize request.requestId ≤ 1377
  names : ∀ varbind ∈ wanted table request, ValidOid varbind.1
  values : ∀ varbind ∈ kept request (wanted table request), Readable varbind.2

/-- The condition on an accepted request. -/
def RequestFits (data community : Bytes) (table : List VarBind) : Prop :=
  ∀ request, decodeMessage data = .ok request → request.community = community →
    (request.pduType = pduSet → EchoFits request) ∧
      (request.pduType ∈ [pduGet, pduGetnext, pduGetbulk] → AnswerFits request table)

theorem framed_response (h : ReadMessage request) {status index : ℤ}
    (hstatus : integerSize status ≤ maxIntegerBytes)
    (hindex : integerSize index ≤ maxIntegerBytes) (hlen : varbinds.length ≤ maxVarbinds)
    (hwrite : ∀ varbind ∈ varbinds, Writable varbind) :
    Framed (response request varbinds status index) where
  version := rfl
  pduType := show pduResponse ∈ knownPdus by decide
  requestId := h.framed.requestId
  errorStatus := hstatus
  errorIndex := hindex
  varbinds := hlen
  writable := hwrite

theorem frame_le_datagram : maxResponseBytes ≤ maxMessageBytes := by decide

theorem map_carried_of_read (h : ReadMessage request) :
    request.varbinds.map carriedVarbind = request.varbinds := by
  conv_rhs => rw [← List.map_id request.varbinds]
  apply List.map_congr_left
  intro varbind hmem
  rw [carriedVarbind, (h.values varbind hmem).carried]
  rfl

section Request

variable {request : SnmpMessage} (hread : ReadMessage request)
include hread

/-- **The echo of a refused write is valid exactly when it fits.** -/
theorem respond_set_iff (table : List VarBind) (hset : request.pduType = pduSet) :
    (∃ encoded message, respond request table = .ok encoded ∧ ValidReply request encoded message) ↔
      EchoFits request := by
  let index : ℤ := if request.varbinds = [] then 0 else 1
  let echo := response request request.varbinds errorNotWritable index
  have hwrite := hread.framed.writable
  have hrespond : respond request table = .ok (messageBytes echo) := by
    rw [respond, if_pos hset, reply_of_writable _ _ hwrite]
  have hindex : integerSize index ≤ maxIntegerBytes := by
    simp only [index]
    split_ifs <;> decide
  have hframed : Framed echo :=
    framed_response hread (by decide) hindex hread.framed.varbinds hwrite
  have hreadable : (∀ varbind ∈ request.varbinds, Readable varbind.2) ↔
      ∀ varbind ∈ request.varbinds, ∀ i, varbind.2.value = .int i →
        varbind.2.tag ∈ unsignedTags → i < 2 ^ 71 :=
    forall₂_congr (fun varbind hmem => (hread.values varbind hmem).readable_iff)
  constructor
  · rintro ⟨encoded, message, hok, hvalid⟩
    rw [hrespond] at hok
    cases hok
    have hsize : messageSize echo ≤ maxMessageBytes := by
      by_contra hbig
      obtain ⟨e, he⟩ := decodeMessage_too_large (not_le.mp hbig)
      rw [hvalid.decoded] at he
      cases he
    refine ⟨hreadable.mp ?_, hsize⟩
    by_contra hunreadable
    obtain ⟨e, he⟩ := decodeMessage_of_unreadable hframed hsize hunreadable
    rw [hvalid.decoded] at he
    cases he
  · intro hfits
    have hback := map_carried_of_read hread
    refine ⟨messageBytes echo, carriedMessage echo, hrespond,
      decodeMessage_of_readable hframed hfits.size (hreadable.mpr hfits.unsigned), rfl, rfl, rfl,
      ?_, fun _ => ⟨hback, rfl⟩⟩
    intro hmem
    rw [hset] at hmem
    exact absurd hmem (by decide)

/-- **The answer of a reading request is valid exactly when it fits.** -/
theorem respond_read_iff {table : List VarBind} (hsorted : Ascending table)
    (hvalues : ∀ varbind ∈ table, Wellformed varbind.2)
    (hpdu : request.pduType ∈ [pduGet, pduGetnext, pduGetbulk]) :
    (∃ encoded message, respond request table = .ok encoded ∧ ValidReply request encoded message) ↔
      AnswerFits request table := by
  have hset : request.pduType ≠ pduSet := by
    intro hset
    rw [hset] at hpdu
    exact absurd hpdu (by decide)
  have hwellformed := wellformed_wanted hsorted hvalues request
  by_cases hnames : ∀ varbind ∈ wanted table request, ValidOid varbind.1
  · have hwrite : ∀ varbind ∈ wanted table request, Writable varbind :=
      fun varbind hmem => ⟨hnames varbind hmem, hwellformed varbind hmem⟩
    let rows := kept request (wanted table request)
    let status := replyStatus request (wanted table request)
    let answered := response request rows status 0
    have hrespond : respond request table = .ok (messageBytes answered) :=
      respond_read hsorted hset hwrite
    have hstatus : integerSize status ≤ maxIntegerBytes := by
      simp only [status, replyStatus]
      split_ifs <;> decide
    have hframed : Framed answered :=
      framed_response hread hstatus (by decide)
        ((length_kept_le _ _).trans (length_wanted_le hread.framed.varbinds))
        (fun varbind hmem => hwrite varbind (kept_subset _ _ hmem))
    have hsize : messageSize answered = messageSize (response request rows errorNoError 0) :=
      messageSize_response request rows status (fieldSize_replyStatus _ _)
    constructor
    · rintro ⟨encoded, message, hok, hvalid⟩
      rw [hrespond] at hok
      cases hok
      have hframe : FitsFrame request rows := by
        have hle := hvalid.size hpdu
        rw [length_messageBytes, hsize] at hle
        exact hle
      refine ⟨(fitsFrame_nil_iff hread.framed.requestId).mp (fitsFrame_nil hframe), hnames, ?_⟩
      by_contra hunreadable
      have hdatagram : messageSize answered ≤ maxMessageBytes := by
        rw [hsize]
        exact le_trans hframe frame_le_datagram
      obtain ⟨e, he⟩ := decodeMessage_of_unreadable hframed hdatagram hunreadable
      rw [hvalid.decoded] at he
      cases he
    · intro hfits
      have hframe : FitsFrame request rows :=
        kept_fits ((fitsFrame_nil_iff hread.framed.requestId).mpr hfits.community)
      have hle : messageSize answered ≤ maxResponseBytes := by
        rw [hsize]
        exact hframe
      have hdatagram : messageSize answered ≤ maxMessageBytes := hle.trans frame_le_datagram
      have hdecoded := decodeMessage_of_readable hframed hdatagram hfits.values
      refine ⟨messageBytes answered, carriedMessage answered, hrespond, hdecoded, rfl, rfl, rfl,
        fun _ => ?_, fun heq => absurd heq hset⟩
      rw [length_messageBytes]
      exact hle
  · have hunwritable : ¬ ∀ varbind ∈ wanted table request, Writable varbind :=
      fun hall => hnames (fun varbind hmem => (hall varbind hmem).1)
    obtain ⟨e, he⟩ := respond_not_writable hsorted hset hunwritable
    constructor
    · rintro ⟨encoded, message, hok, -⟩
      rw [he] at hok
      cases hok
    · intro hfits
      exact absurd hfits.names hnames

end Request

/-! ### Every datagram -/

theorem handleRequest_of_accepted {data : Bytes} (table : List VarBind)
    (counters : AgentCounters) (hdecode : decodeMessage data = .ok request)
    (hresponse : request.pduType ≠ pduResponse) :
    (handleRequest data request.community table counters).2 = (respond request table).map some := by
  simp only [handleRequest, hdecode]
  rw [if_neg (by simp), if_neg hresponse]

/-- **Which requests get a valid reply.** A datagram that is not read, that carries
another community or that is a response gets none. -/
theorem repliesValidly_iff_requestFits (data community : Bytes) (table : List VarBind)
    (counters : AgentCounters) (hsorted : Ascending table)
    (hvalues : ∀ varbind ∈ table, ∃ written, encodeValue varbind.2 = .ok written) :
    RepliesValidly data community table counters ↔ RequestFits data community table := by
  have hwell : ∀ varbind ∈ table, Wellformed varbind.2 := by
    intro varbind hmem
    obtain ⟨written, hwritten⟩ := hvalues varbind hmem
    exact wellformed_of_encodeValue hwritten
  cases hdecode : decodeMessage data with
  | error e =>
    have hnone : (handleRequest data community table counters).2 = .ok none := by
      simp only [handleRequest, hdecode]
    constructor
    · intro _ request hrequest
      rw [hdecode] at hrequest
      cases hrequest
    · intro _
      exact ⟨none, hnone, by simp⟩
  | ok request =>
    have hread := readMessage_of_decodeMessage hdecode
    by_cases hcommunity : request.community = community
    · subst hcommunity
      by_cases hresponse : request.pduType = pduResponse
      · have hnone : (handleRequest data request.community table counters).2 = .ok none := by
          simp only [handleRequest, hdecode]
          rw [if_neg (by simp), if_pos hresponse]
        constructor
        · intro _ other hother _
          rw [hdecode] at hother
          cases hother
          rw [hresponse]
          exact ⟨fun h => absurd h (by decide), fun h => absurd h (by decide)⟩
        · intro _
          exact ⟨none, hnone, by simp⟩
      · have hhandle := handleRequest_of_accepted table counters hdecode hresponse
        have hvalid : RepliesValidly data request.community table counters ↔
            ∃ encoded message, respond request table = .ok encoded ∧
              ValidReply request encoded message := by
          rw [RepliesValidly, hhandle]
          constructor
          · rintro ⟨out, hout, hall⟩
            cases hrespond : respond request table with
            | error e =>
              rw [hrespond] at hout
              cases hout
            | ok encoded =>
              rw [hrespond] at hout
              cases hout
              obtain ⟨other, message, hother, hmessage⟩ := hall encoded rfl
              rw [hdecode] at hother
              cases hother
              exact ⟨encoded, message, rfl, hmessage⟩
          · rintro ⟨encoded, message, hrespond, hmessage⟩
            refine ⟨some encoded, by rw [hrespond]; rfl, ?_⟩
            intro encoded' heq
            cases heq
            exact ⟨request, message, hdecode, hmessage⟩
        rw [hvalid]
        have hfits : RequestFits data request.community table ↔
            (request.pduType = pduSet → EchoFits request) ∧
              (request.pduType ∈ [pduGet, pduGetnext, pduGetbulk] →
                AnswerFits request table) := by
          constructor
          · intro h
            exact h request hdecode rfl
          · intro h other hother _
            rw [hdecode] at hother
            cases hother
            exact h
        rw [hfits]
        by_cases hset : request.pduType = pduSet
        · have hnot : pduSet ∉ [pduGet, pduGetnext, pduGetbulk] := by decide
          rw [respond_set_iff hread table hset, hset]
          exact ⟨fun h => ⟨fun _ => h, fun hmem => absurd hmem hnot⟩, fun h => h.1 rfl⟩
        · have hpdu : request.pduType ∈ [pduGet, pduGetnext, pduGetbulk] := by
            have hknown := hread.framed.pduType
            simp only [knownPdus, List.mem_cons, List.not_mem_nil, or_false] at hknown ⊢
            tauto
          rw [respond_read_iff hread hsorted hwell hpdu]
          simp [hset, hpdu]
    · have hnone : (handleRequest data community table counters).2 = .ok none := by
        simp only [handleRequest, hdecode]
        rw [if_pos hcommunity]
      constructor
      · intro _ other hother heq
        rw [hdecode] at hother
        cases hother
        exact absurd heq hcommunity
      · intro _
        exact ⟨none, hnone, by simp⟩

def publicCommunity : Bytes := [112, 117, 98]

/-- A refused write whose one value is a Counter64 of nine set bytes. -/
def nineByteSet : Bytes :=
  [0x30, 0x26, 0x02, 0x01, 0x01, 0x04, 0x03, 112, 117, 98, 0xA3, 0x1C, 0x02, 0x01, 0x01, 0x02,
    0x01, 0x00, 0x02, 0x01, 0x00, 0x30, 0x11, 0x30, 0x0F, 0x06, 0x02, 0x2B, 0x06, 0x46, 0x09,
    0xFF, 0xFF, 0xFF, 0xFF, 0xFF, 0xFF, 0xFF, 0xFF, 0xFF]

def smallTable : List VarBind :=
  [([1, 3, 6, 1, 1], { tag := tagInteger, value := .int 42 }),
    ([1, 3, 6, 1, 2], { tag := tagOctetString, value := .bytes [104, 105] })]

theorem repliesValidly_iff_requestFits_smallTable :
    Ascending smallTable ∧
      (∀ varbind ∈ smallTable, ∃ written, encodeValue varbind.2 = .ok written) ∧
      (RepliesValidly nineByteSet publicCommunity smallTable {} ↔
        RequestFits nineByteSet publicCommunity smallTable) := by
  have hsorted : Ascending smallTable := by
    unfold Ascending smallTable
    decide
  have hvalues : ∀ varbind ∈ smallTable, ∃ written, encodeValue varbind.2 = .ok written := by
    intro varbind hmem
    simp only [smallTable, List.mem_cons, List.not_mem_nil, or_false] at hmem
    rcases hmem with rfl | rfl
    · exact ⟨_, rfl⟩
    · exact ⟨_, rfl⟩
  exact ⟨hsorted, hvalues,
    repliesValidly_iff_requestFits nineByteSet publicCommunity smallTable {} hsorted hvalues⟩

/-- The reader takes nine bytes for an unsigned integer; the echo writes ten. -/
theorem not_forall_repliesValidly :
    ¬ ∀ (data community : Bytes) (table : List VarBind) (counters : AgentCounters),
      Ascending table → (∀ varbind ∈ table, ∃ written, encodeValue varbind.2 = .ok written) →
        RepliesValidly data community table counters := by
  intro hall
  obtain ⟨out, hout, hvalid⟩ := hall nineByteSet publicCommunity [] {} List.Pairwise.nil (by simp)
  let echo : Bytes :=
    [0x30, 0x27, 0x02, 0x01, 0x01, 0x04, 0x03, 112, 117, 98, 0xA2, 0x1D, 0x02, 0x01, 0x01, 0x02,
      0x01, 0x11, 0x02, 0x01, 0x01, 0x30, 0x12, 0x30, 0x10, 0x06, 0x02, 0x2B, 0x06, 0x46, 0x0A,
      0x00, 0xFF, 0xFF, 0xFF, 0xFF, 0xFF, 0xFF, 0xFF, 0xFF, 0xFF]
  have hecho : (handleRequest nineByteSet publicCommunity [] {}).2 = .ok (some echo) := by
    decide +kernel
  have hrejected : decodeMessage echo = .error ⟨"bad unsigned length"⟩ := by
    decide +kernel
  rw [hecho] at hout
  cases hout
  obtain ⟨request, message, -, hmessage⟩ := hvalid echo rfl
  rw [hmessage.decoded] at hrejected
  cases hrejected

end RtfmEv.Snmp
