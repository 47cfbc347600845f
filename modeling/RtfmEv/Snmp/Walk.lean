import RtfmEv.Snmp.ReplySpec

/-!
# Walking the table

A manager asks for the next entry, or for a run of next entries, and goes on from the
last name it was given until it gets the end of the table under the name it asked
for. Both walks go through the entries above the start in order and then end there. A
bulk reply is cut at a hundred varbinds and to a frame, but never to nothing as long
as each entry fits a frame of its own.
-/

namespace RtfmEv.Snmp

open RtfmEv.Lib

/-! ### The manager -/

def getNextRequest (community : Bytes) (requestId : ℤ) (oid : Oid) : SnmpMessage where
  community := community
  pduType := pduGetnext
  requestId := requestId
  varbinds := [(oid, { tag := tagNull })]

def getBulkRequest (community : Bytes) (requestId maxRepetitions : ℤ) (oid : Oid) :
    SnmpMessage where
  community := community
  pduType := pduGetbulk
  requestId := requestId
  errorStatus := 0
  errorIndex := maxRepetitions
  varbinds := [(oid, { tag := tagNull })]

/-- The varbinds an agent with this community and table answers a request with. -/
def ask (table : List VarBind) (request : SnmpMessage) : Option (List VarBind) :=
  match encodeMessage request with
  | .error _ => none
  | .ok data =>
    match (handleRequest data request.community table {}).2 with
    | .ok (some encoded) =>
      match decodeMessage encoded with
      | .ok message => if message.errorStatus = errorNoError then some message.varbinds else none
      | .error _ => none
    | _ => none

/-- Ask for the next entry until the end, the requests numbered by `ids`. -/
def getNextWalk (community : Bytes) (table : List VarBind) : (ℕ → ℤ) → ℕ → Oid → List VarBind
  | _, 0, _ => []
  | ids, fuel + 1, oid =>
    match ask table (getNextRequest community (ids 0) oid) with
    | some [row] =>
      row :: (if row = (oid, endOfMibView) then []
        else getNextWalk community table (fun i => ids (i + 1)) fuel row.1)
    | _ => []

/-- Whether rows that follow a name reach the end of the table. -/
def reachesEnd : Oid → List VarBind → Bool
  | _, [] => false
  | oid, row :: rest => row = (oid, endOfMibView) || reachesEnd row.1 rest

/-- Ask for runs of entries until the end. -/
def getBulkWalk (community : Bytes) (table : List VarBind) (maxRepetitions : ℤ) :
    (ℕ → ℤ) → ℕ → Oid → List VarBind
  | _, 0, _ => []
  | ids, fuel + 1, oid =>
    match ask table (getBulkRequest community (ids 0) maxRepetitions oid) with
    | some rows =>
      match rows.getLast? with
      | none => []
      | some last =>
        rows ++ (if reachesEnd oid rows then []
          else getBulkWalk community table maxRepetitions (fun i => ids (i + 1)) fuel last.1)
    | none => []

/-! ### The walk on the table -/

/-- The entries above a name, then the end under the last of their names. -/
def walked (table : List VarBind) (oid : Oid) : List VarBind :=
  above table oid ++
    [(((above table oid).getLast?.map Prod.fst).getD oid, endOfMibView)]

variable {table : List VarBind} {oid : Oid}

theorem walked_end (h : above table oid = []) : walked table oid = [(oid, endOfMibView)] := by
  rw [walked, h]
  rfl

variable {rest : List VarBind} {row : VarBind}

theorem walked_next (hsorted : Ascending table) (h : above table oid = row :: rest) :
    walked table oid = row :: walked table row.1 := by
  have hrest := above_next hsorted h
  rw [walked, walked, h, hrest, List.cons_append]
  cases rest with
  | nil => rfl
  | cons next rest =>
    rw [List.getLast?_cons_cons, List.getLast?_cons]
    rfl

theorem successor_end (h : above table oid = []) : successor table oid = (oid, endOfMibView) := by
  rw [successor, h]
  rfl

theorem successor_next (h : above table oid = row :: rest) : successor table oid = row := by
  rw [successor, h]
  rfl

theorem mem_of_above (h : above table oid = row :: rest) : row ∈ table ∧ oid < row.1 :=
  mem_above.mp (h ▸ List.mem_cons_self)

/-- **A non-empty prefix of a walk is the whole walk, or the walk goes on from its last
name.** -/
theorem prefix_walked {table rows : List VarBind} (hsorted : Ascending table)
    (h : rows <+: walked table oid) (hne : rows ≠ []) :
    (rows = walked table oid ∧ reachesEnd oid rows = true) ∨
      ∃ last ∈ table, rows.getLast? = some last ∧ reachesEnd oid rows = false ∧
        walked table oid = rows ++ walked table last.1 ∧
        (above table last.1).length < (above table oid).length := by
  induction rows generalizing oid with
  | nil => exact absurd rfl hne
  | cons row rest ih =>
    cases habove : above table oid with
    | nil =>
      left
      rw [walked_end habove] at h ⊢
      obtain ⟨rfl, hrest⟩ := List.cons_prefix_cons.mp h
      rw [List.prefix_nil.mp hrest]
      exact ⟨rfl, by simp [reachesEnd]⟩
    | cons next others =>
      have hwalk := walked_next hsorted habove
      have hothers := above_next hsorted habove
      obtain ⟨hmem, hlt⟩ := mem_of_above habove
      rw [hwalk] at h
      obtain ⟨rfl, hrest⟩ := List.cons_prefix_cons.mp h
      have hnot : ¬ row = (oid, endOfMibView) := by
        rintro rfl
        exact lt_irrefl _ hlt
      have hend : reachesEnd oid (row :: rest) = reachesEnd row.1 rest := by
        rw [reachesEnd, decide_eq_false hnot, Bool.false_or]
      rw [hend]
      by_cases hnil : rest = []
      · right
        rw [hnil]
        refine ⟨row, hmem, rfl, rfl, hwalk, ?_⟩
        rw [hothers]
        simp
      · rcases ih hrest hnil with ⟨heq, hreach⟩ | ⟨last, hlast, hget, hreach, heq, hlen⟩
        · left
          exact ⟨by rw [hwalk, heq], hreach⟩
        · right
          refine ⟨last, hlast, ?_, hreach, by rw [hwalk, heq, List.cons_append], ?_⟩
          · rw [List.getLast?_cons, hget]
            rfl
          · rw [hothers] at hlen
            rw [List.length_cons]
            omega

/-- **The rows of a bulk answer for one name are a prefix of the walk.** -/
theorem bulkRows_isPrefix (hsorted : Ascending table) (rows : ℕ) (oid : Oid) :
    bulkRows table rows [oid] <+: walked table oid := by
  induction rows generalizing oid with
  | zero => exact List.nil_prefix
  | succ rows ih =>
    rw [bulkRows]
    simp only [List.map_cons, List.map_nil, List.singleton_append]
    cases habove : above table oid with
    | nil =>
      rw [walked_end habove, successor_end habove]
      exact List.prefix_refl _
    | cons next others =>
      rw [walked_next hsorted habove, successor_next habove]
      apply List.cons_prefix_cons.mpr
      refine ⟨rfl, ?_⟩
      split_ifs
      · exact List.nil_prefix
      · exact ih next.1

theorem bulkRows_head (table : List VarBind) (rows : ℕ) (oid : Oid) :
    (bulkRows table (rows + 1) [oid]).take 1 = [successor table oid] := by
  rw [bulkRows]
  rfl

/-! ### What fits -/

/-- A reply that carries one varbind. -/
def singleReply (community : Bytes) (requestId : ℤ) (varbind : VarBind) : SnmpMessage where
  community := community
  pduType := pduResponse
  requestId := requestId
  varbinds := [varbind]

/-- A reply that carries this varbind alone fits a frame and is read back. -/
def FitsReply (community : Bytes) (requestId : ℤ) (varbind : VarBind) : Prop :=
  ∃ encoded, encodeMessage (singleReply community requestId varbind) = .ok encoded ∧
    encoded.length ≤ maxResponseBytes ∧
    decodeMessage encoded = .ok (singleReply community requestId varbind)

/-- The agent reads the request. -/
def Askable (request : SnmpMessage) : Prop :=
  ∃ data, encodeMessage request = .ok data ∧ decodeMessage data = .ok request

/-- A varbind that a reply can carry and that is read back. -/
structure Carries (varbind : VarBind) : Prop where
  writable : Writable varbind
  readable : Readable varbind.2
  carried : carriedVarbind varbind = varbind

theorem carries_empty {tag : UInt8} (hoid : ValidOid oid)
    (htag : tag = tagNull ∨ tag ∈ exceptionTags) (hsingle : tag &&& 0x1F ≠ 0x1F) :
    Carries (oid, { tag := tag }) := by
  refine ⟨⟨hoid, .empty htag _⟩, ⟨hsingle, fun i hi => by cases hi⟩, ?_⟩
  rw [carriedVarbind, carried, if_pos htag]

theorem carries_end (hoid : ValidOid oid) : Carries (oid, endOfMibView) :=
  carries_empty hoid (by decide) (by decide)

section FitsReply

variable {community : Bytes} {requestId : ℤ} {varbind : VarBind}

theorem FitsReply.carries (h : FitsReply community requestId varbind) : Carries varbind := by
  obtain ⟨encoded, hencode, hlen, hdecode⟩ := h
  have hread := readMessage_of_decodeMessage hdecode
  have hwrite := writable_of_encodeMessage hencode
  rw [encodeMessage_of_writable hwrite] at hencode
  cases hencode
  have hsize : messageSize (singleReply community requestId varbind) ≤ maxMessageBytes := by
    rw [← length_messageBytes]
    exact hlen.trans frame_le_datagram
  have hreadable : ∀ row ∈ (singleReply community requestId varbind).varbinds, Readable row.2 := by
    by_contra hunreadable
    obtain ⟨e, he⟩ := decodeMessage_of_unreadable hread.framed hsize hunreadable
    rw [hdecode] at he
    cases he
  rw [decodeMessage_of_readable hread.framed hsize hreadable] at hdecode
  have hmem : varbind ∈ (singleReply community requestId varbind).varbinds := List.mem_singleton_self _
  refine ⟨hwrite varbind hmem, hreadable varbind hmem, ?_⟩
  have hvarbinds := congrArg SnmpMessage.varbinds (Except.ok.inj hdecode)
  exact (List.cons.inj hvarbinds).1

theorem FitsReply.size (h : FitsReply community requestId varbind) :
    messageSize (singleReply community requestId varbind) ≤ maxResponseBytes := by
  obtain ⟨encoded, hencode, hlen, -⟩ := h
  rw [encodeMessage_of_writable (writable_of_encodeMessage hencode)] at hencode
  cases hencode
  rw [← length_messageBytes]
  exact hlen

theorem FitsReply.requestId_size (h : FitsReply community requestId varbind) :
    integerSize requestId ≤ maxIntegerBytes := by
  obtain ⟨encoded, -, -, hdecode⟩ := h
  exact (readMessage_of_decodeMessage hdecode).framed.requestId

theorem varbindsSize_singleton (varbind : VarBind) :
    varbindsSize [varbind] = varbindSize varbind := by
  simp [varbindsSize]

theorem varbindSize_empty_le (oid : Oid) {value other : SnmpValue} (h : valueSize value = 0) :
    varbindSize (oid, value) ≤ varbindSize (oid, other) := by
  have hvalue : tlvSize (valueSize value) ≤ tlvSize (valueSize other) :=
    tlvSize_mono (by rw [h]; exact Nat.zero_le _)
  exact tlvSize_mono (Nat.add_le_add_left hvalue _)

/-- The end of the table under a name fits where an entry of that name does. -/
theorem size_end_le (h : FitsReply community requestId varbind) :
    messageSize (singleReply community requestId (varbind.1, endOfMibView)) ≤
      maxResponseBytes := by
  refine le_trans ?_ h.size
  have hvarbind : varbindSize (varbind.1, endOfMibView) ≤ varbindSize varbind :=
    varbindSize_empty_le varbind.1 rfl
  have hlist := tlvSize_mono hvarbind
  have hpdu : pduSize (singleReply community requestId (varbind.1, endOfMibView)) ≤
      pduSize (singleReply community requestId varbind) := by
    simp only [pduSize, singleReply, varbindsSize_singleton]
    omega
  have htlv := tlvSize_mono hpdu
  apply tlvSize_mono
  simp only [bodySize]
  simp only [singleReply] at htlv ⊢
  omega

theorem FitsReply.toEnd (h : FitsReply community requestId varbind) :
    FitsReply community requestId (varbind.1, endOfMibView) := by
  have hcarries := carries_end h.carries.writable.1
  have hwrite : ∀ row ∈ [(varbind.1, endOfMibView)], Writable row := by
    intro row hmem
    rw [List.mem_singleton.mp hmem]
    exact hcarries.writable
  have hsize := size_end_le h
  have hframed : Framed (singleReply community requestId (varbind.1, endOfMibView)) :=
    ⟨rfl, show pduResponse ∈ knownPdus by decide, h.requestId_size,
      show integerSize 0 ≤ maxIntegerBytes by decide,
      show integerSize 0 ≤ maxIntegerBytes by decide, show 1 ≤ maxVarbinds by decide, hwrite⟩
  have hreadable : ∀ row ∈ [(varbind.1, endOfMibView)], Readable row.2 := by
    intro row hmem
    rw [List.mem_singleton.mp hmem]
    exact hcarries.readable
  refine ⟨_, encodeMessage_of_writable hwrite, by rw [length_messageBytes]; exact hsize, ?_⟩
  rw [decodeMessage_of_readable hframed (hsize.trans frame_le_datagram) hreadable]
  rfl

theorem tlvSize_le {n : ℕ} (h : n < 0x10000) : tlvSize n ≤ n + 4 := by
  have hlength := lengthSize_le_three h
  rw [tlvSize]
  omega

/-- **A name of the table can be asked for.** -/
theorem FitsReply.askable (h : FitsReply community requestId varbind) {request : SnmpMessage}
    (hversion : request.version = version2c) (hpdu : request.pduType ∈ knownPdus)
    (hcommunity : request.community = community) (hid : request.requestId = requestId)
    (hstatus : request.errorStatus = 0) (hindex : integerSize request.errorIndex ≤ maxIntegerBytes)
    (hvarbinds : request.varbinds = [(varbind.1, { tag := tagNull })]) : Askable request := by
  have hcarries : Carries (varbind.1, { tag := tagNull }) :=
    carries_empty h.carries.writable.1 (Or.inl rfl) (by decide)
  have hwrite : ∀ row ∈ request.varbinds, Writable row := by
    rw [hvarbinds]
    intro row hmem
    rw [List.mem_singleton.mp hmem]
    exact hcarries.writable
  have hreadable : ∀ row ∈ request.varbinds, Readable row.2 := by
    rw [hvarbinds]
    intro row hmem
    rw [List.mem_singleton.mp hmem]
    exact hcarries.readable
  have hframed : Framed request :=
    ⟨hversion, hpdu, hid ▸ h.requestId_size, hstatus ▸ by decide, hindex,
      by rw [hvarbinds]; show 1 ≤ maxVarbinds; decide, hwrite⟩
  have hsize : messageSize request ≤ maxMessageBytes := by
    have hmax : maxResponseBytes = 1400 := rfl
    have hmaxMessage : maxMessageBytes = 65507 := rfl
    have hmaxInteger : maxIntegerBytes = 8 := rfl
    have hfit := h.size
    have hlt := pduSize_lt (singleReply community requestId varbind)
    have hcommunityLt : community.length < messageSize (singleReply community requestId varbind) :=
      community_lt (singleReply community requestId varbind)
    have hvarbind : varbindSize (varbind.1, { tag := tagNull }) ≤ varbindSize varbind :=
      varbindSize_empty_le varbind.1 rfl
    have hlist := tlvSize_mono hvarbind
    have hzero : fieldSize 0 = 3 := rfl
    have hversionSize : fieldSize version2c = 3 := rfl
    have hindexField : fieldSize request.errorIndex ≤ 10 := by
      rw [fieldSize, tlvSize, lengthSize_of_lt (by omega)]
      omega
    have hpduSize : pduSize request ≤ pduSize (singleReply community requestId varbind) + 7 := by
      simp only [pduSize, singleReply, hvarbinds, hid, hstatus, varbindsSize_singleton, hzero]
      omega
    have hpduTlv := tlvSize_le (show pduSize request < 0x10000 by omega)
    have hcommunityTlv := tlvSize_le (show request.community.length < 0x10000 by
      rw [hcommunity]
      omega)
    have hbody : bodySize request ≤ 3000 := by
      rw [bodySize, hversion, hversionSize]
      rw [hcommunity] at hcommunityTlv ⊢
      omega
    have hall := tlvSize_le (show bodySize request < 0x10000 by omega)
    rw [messageSize]
    omega
  refine ⟨_, encodeMessage_of_writable hwrite, ?_⟩
  rw [decodeMessage_of_readable hframed hsize hreadable, carriedMessage, hvarbinds, List.map_cons,
    List.map_nil, hcarries.carried, ← hvarbinds]

end FitsReply

/-! ### One request -/

variable {request : SnmpMessage}

/-- **A reply of such varbinds is read back as it was made.** -/
theorem decodeMessage_response {rows : List VarBind}
    (hread : ReadMessage request) (hlen : rows.length ≤ maxVarbinds)
    (hcarries : ∀ row ∈ rows, Carries row) (hsize : FitsFrame request rows) :
    decodeMessage (messageBytes (response request rows errorNoError 0)) =
      .ok (response request rows errorNoError 0) := by
  have hframed : Framed (response request rows errorNoError 0) :=
    framed_response hread (by decide) (by decide) hlen (fun row hrow => (hcarries row hrow).writable)
  have hback : rows.map carriedVarbind = rows := by
    conv_rhs => rw [← List.map_id rows]
    exact List.map_congr_left (fun row hrow => (hcarries row hrow).carried)
  have hdatagram : messageSize (response request rows errorNoError 0) ≤ maxMessageBytes :=
    Nat.le_trans hsize frame_le_datagram
  rw [decodeMessage_of_readable hframed hdatagram (fun row hrow => (hcarries row hrow).readable),
    carriedMessage, response, hback]

/-- **A reading request that is answered without an error status is answered with what
is kept of the varbinds it wants.** -/
theorem ask_eq (hsorted : Ascending table)
    (hask : Askable request) (hpdu : request.pduType ∈ [pduGetnext, pduGetbulk])
    (hcarries : ∀ row ∈ wanted table request, Carries row) (hnil : FitsFrame request [])
    (hstatus : replyStatus request (wanted table request) = errorNoError) :
    ask table request = some (kept request (wanted table request)) := by
  obtain ⟨data, hencode, hdecode⟩ := hask
  have hread := readMessage_of_decodeMessage hdecode
  have hset : request.pduType ≠ pduSet := by
    intro hset
    rw [hset] at hpdu
    exact absurd hpdu (by decide)
  have hresponse : request.pduType ≠ pduResponse := by
    intro hresponse
    rw [hresponse] at hpdu
    exact absurd hpdu (by decide)
  have hrespond := respond_read hsorted hset (fun row hrow => (hcarries row hrow).writable)
  have hdecoded := decodeMessage_response hread
    ((length_kept_le _ _).trans (length_wanted_le hread.framed.varbinds))
    (fun row hrow => hcarries row (kept_subset _ _ hrow))
    (kept_fits hnil)
  rw [hstatus] at hrespond
  simp only [ask, hencode, handleRequest_of_accepted table {} hdecode hresponse, hrespond,
    Except.map, hdecoded]
  rfl

/-- The name under which a walk ends is the start or a name of the table. -/
theorem carries_walked (htable : ∀ row ∈ table, Carries row)
    (hstart : above table oid = [] → Carries (oid, endOfMibView)) :
    ∀ row ∈ walked table oid, Carries row := by
  intro row hmem
  rcases List.mem_append.mp hmem with habove | hend
  · exact htable row (mem_above.mp habove).1
  · rw [List.mem_singleton.mp hend]
    cases hlast : (above table oid).getLast? with
    | none => exact hstart (List.getLast?_eq_none_iff.mp hlast)
    | some last =>
      have hlastMem := (mem_above.mp (List.mem_of_getLast? hlast)).1
      exact carries_end (htable last hlastMem).writable.1

theorem fitsFrame_of_fitsReply (request : SnmpMessage)
    (h : FitsReply request.community request.requestId row) : FitsFrame request [row] := h.size

section Ask

variable {community : Bytes} {table : List VarBind} {requestId : ℤ} {oid : Oid}

/-- **A request for the next entry is answered with it.** -/
theorem ask_getNext (hsorted : Ascending table)
    (hask : Askable (getNextRequest community requestId oid))
    (hfits : FitsReply community requestId (successor table oid)) :
    ask table (getNextRequest community requestId oid) = some [successor table oid] := by
  let request := getNextRequest community requestId oid
  have hwanted : wanted table request = [successor table oid] := rfl
  have hframe : FitsFrame request (wanted table request) :=
    fitsFrame_of_fitsReply request hfits
  have hkept : kept request (wanted table request) = [successor table oid] := by
    rw [kept, if_pos hframe, hwanted]
  have hcarries : ∀ row ∈ wanted table request, Carries row := by
    intro row hmem
    rw [hwanted] at hmem
    rw [List.mem_singleton.mp hmem]
    exact hfits.carries
  rw [ask_eq hsorted hask (show pduGetnext ∈ [pduGetnext, pduGetbulk] by decide) hcarries
    (fitsFrame_nil hframe) (if_pos (Or.inl hframe)), hkept]

/-- **A bulk request is answered with a non-empty prefix of the walk.** -/
theorem ask_getBulk {maxRepetitions : ℤ} (hsorted : Ascending table) (hmax : 1 ≤ maxRepetitions)
    (hask : Askable (getBulkRequest community requestId maxRepetitions oid))
    (htable : ∀ row ∈ table, Carries row)
    (hfits : FitsReply community requestId (successor table oid)) :
    ∃ rows, ask table (getBulkRequest community requestId maxRepetitions oid) = some rows ∧
      rows ≠ [] ∧ rows <+: walked table oid := by
  let request := getBulkRequest community requestId maxRepetitions oid
  have hwanted : wanted table request =
      (bulkRows table maxRepetitions.toNat [oid]).take maxBulkVarbinds := rfl
  have hwalk : wanted table request <+: walked table oid :=
    (List.take_prefix _ _).trans (bulkRows_isPrefix hsorted _ oid)
  obtain ⟨repetitions, hrepetitions⟩ : ∃ n, maxRepetitions.toNat = n + 1 :=
    ⟨maxRepetitions.toNat - 1, by omega⟩
  have hone : (wanted table request).take 1 = [successor table oid] := by
    rw [hwanted, hrepetitions, List.take_take]
    exact bulkRows_head table repetitions oid
  have hpos : 0 < (wanted table request).length := by
    have hlen := congrArg List.length hone
    rw [List.length_take, List.length_singleton] at hlen
    omega
  have hsingle : FitsFrame request [successor table oid] :=
    fitsFrame_of_fitsReply request hfits
  have hstart : above table oid = [] → Carries (oid, endOfMibView) := by
    intro hnone
    rw [← successor_end hnone]
    exact hfits.carries
  have hcarries : ∀ row ∈ wanted table request, Carries row :=
    fun row hmem => carries_walked htable hstart row (hwalk.subset hmem)
  refine ⟨kept request (wanted table request),
    ask_eq hsorted hask (show pduGetbulk ∈ [pduGetnext, pduGetbulk] by decide) hcarries
      (fitsFrame_nil hsingle) (if_pos (Or.inr rfl)), ?_, ?_⟩
  · rw [kept]
    split_ifs with hall hcut
    · exact List.ne_nil_of_length_pos hpos
    · have hkeep : 0 < shrinkToFit (fun n => FitsFrame request ((wanted table request).take n))
          (wanted table request).length :=
        shrink_pos (by rw [hone]; exact decide_eq_true hsingle) hpos
      apply List.ne_nil_of_length_pos
      rw [List.length_take]
      omega
    · exact absurd rfl hcut
  · rw [kept]
    split_ifs with hall hcut
    · exact hwalk
    · exact (List.take_prefix _ _).trans hwalk
    · exact List.nil_prefix

end Ask

/-! ### Whole walks -/

section Walks

variable {community : Bytes} {table : List VarBind} {oid : Oid} {ids : ℕ → ℤ}

theorem fits_successor {i : ℕ} (hfits : ∀ i, ∀ row ∈ table, FitsReply community (ids i) row)
    (hstart : above table oid ≠ [] ∨ FitsReply community (ids i) (oid, endOfMibView)) :
    FitsReply community (ids i) (successor table oid) := by
  cases habove : above table oid with
  | nil =>
    rw [successor_end habove]
    exact hstart.resolve_left (not_not.mpr habove)
  | cons next others =>
    rw [successor_next habove]
    exact hfits i next (mem_of_above habove).1

/-- **Asking for the next entry again and again goes through the entries above the
start and then reaches the end.** -/
theorem getNextWalk_eq (hsorted : Ascending table) {fuel : ℕ}
    (hfits : ∀ i, ∀ row ∈ table, FitsReply community (ids i) row)
    (hask : Askable (getNextRequest community (ids 0) oid))
    (hstart : above table oid ≠ [] ∨ FitsReply community (ids 0) (oid, endOfMibView))
    (hfuel : (above table oid).length < fuel) :
    getNextWalk community table ids fuel oid = walked table oid := by
  induction fuel generalizing ids oid with
  | zero => omega
  | succ fuel ih =>
    rw [getNextWalk, ask_getNext hsorted hask (fits_successor hfits hstart)]
    cases habove : above table oid with
    | nil =>
      rw [successor_end habove, walked_end habove]
      simp
    | cons next others =>
      obtain ⟨hmem, hlt⟩ := mem_of_above habove
      have hnot : ¬ next = (oid, endOfMibView) := by
        rintro rfl
        exact lt_irrefl _ hlt
      have hrest := above_next hsorted habove
      rw [habove, List.length_cons] at hfuel
      rw [successor_next habove, walked_next hsorted habove]
      simp only
      rw [if_neg hnot, ih (fun i => hfits (i + 1)) _ (Or.inr (hfits 1 next hmem).toEnd)
        (by rw [hrest]; omega)]
      exact (hfits 1 next hmem).askable rfl (show pduGetnext ∈ knownPdus by decide) rfl rfl rfl
        (show integerSize 0 ≤ maxIntegerBytes by decide) rfl

/-- **Asking for runs of entries obtains the same walk.** -/
theorem getBulkWalk_eq (hsorted : Ascending table) {maxRepetitions : ℤ}
    (hmax : 1 ≤ maxRepetitions) {fuel : ℕ}
    (hfits : ∀ i, ∀ row ∈ table, FitsReply community (ids i) row)
    (hask : Askable (getBulkRequest community (ids 0) maxRepetitions oid))
    (hstart : above table oid ≠ [] ∨ FitsReply community (ids 0) (oid, endOfMibView))
    (hfuel : (above table oid).length < fuel) :
    getBulkWalk community table maxRepetitions ids fuel oid = walked table oid := by
  have hindex : integerSize maxRepetitions ≤ maxIntegerBytes := by
    obtain ⟨data, -, hdecode⟩ := hask
    exact (readMessage_of_decodeMessage hdecode).framed.errorIndex
  induction fuel generalizing ids oid with
  | zero => omega
  | succ fuel ih =>
    obtain ⟨rows, hrows, hne, hcut⟩ := ask_getBulk hsorted hmax hask
      (fun row hmem => (hfits 0 row hmem).carries) (fits_successor hfits hstart)
    rw [getBulkWalk, hrows]
    simp only
    rcases prefix_walked hsorted hcut hne with ⟨hall, hreach⟩ | ⟨last, hmem, hlast, hreach, hwalk, hlen⟩
    · obtain ⟨last, hlast⟩ := Option.isSome_iff_exists.mp (List.getLast?_isSome.mpr hne)
      rw [hlast]
      simp only
      rw [if_pos hreach, List.append_nil, hall]
    · rw [hlast]
      simp only
      rw [if_neg (by rw [hreach]; exact Bool.false_ne_true),
        ih (fun i => hfits (i + 1)) _ (Or.inr (hfits 1 last hmem).toEnd) (by omega), hwalk]
      exact (hfits 1 last hmem).askable rfl (show pduGetbulk ∈ knownPdus by decide) rfl rfl rfl
        hindex rfl

end Walks

/-- **A walk sees the whole table.** From any name that can be asked for, and that has
an entry above it or whose own end row fits a reply. -/
theorem walks_see_table {community : Bytes} {table : List VarBind} (hsorted : Ascending table)
    {maxRepetitions : ℤ} (hmax : 1 ≤ maxRepetitions) {ids : ℕ → ℤ} {oid : Oid}
    (hfits : ∀ i, ∀ row ∈ table, FitsReply community (ids i) row)
    (hnext : Askable (getNextRequest community (ids 0) oid))
    (hbulk : Askable (getBulkRequest community (ids 0) maxRepetitions oid))
    (hstart : above table oid ≠ [] ∨ FitsReply community (ids 0) (oid, endOfMibView)) :
    (∀ fuel, (above table oid).length < fuel →
        getNextWalk community table ids fuel oid = walked table oid ∧
          getBulkWalk community table maxRepetitions ids fuel oid = walked table oid) ∧
      ∃ rows, ask table (getBulkRequest community (ids 0) maxRepetitions oid) = some rows ∧
        rows ≠ [] ∧ rows <+: walked table oid := by
  constructor
  · intro fuel hfuel
    exact ⟨getNextWalk_eq hsorted hfits hnext hstart hfuel,
      getBulkWalk_eq hsorted hmax hfits hbulk hstart hfuel⟩
  · exact ask_getBulk hsorted hmax hbulk (fun row hmem => (hfits 0 row hmem).carries)
      (fits_successor hfits hstart)

theorem walks_see_table_smallTable :
    (∀ fuel, (above smallTable [1, 3]).length < fuel →
        getNextWalk publicCommunity smallTable (fun i => i % 3) fuel [1, 3] =
            walked smallTable [1, 3] ∧
          getBulkWalk publicCommunity smallTable 5 (fun i => i % 3) fuel [1, 3] =
            walked smallTable [1, 3]) ∧
      ∃ rows, ask smallTable (getBulkRequest publicCommunity 0 5 [1, 3]) = some rows ∧
        rows ≠ [] ∧ rows <+: walked smallTable [1, 3] := by
  have hsorted : Ascending smallTable := by
    unfold Ascending smallTable
    decide
  have hfits : ∀ i : ℕ, ∀ row ∈ smallTable, FitsReply publicCommunity ((i % 3 : ℕ) : ℤ) row := by
    have hall : ∀ j < 3, ∀ row ∈ smallTable, FitsReply publicCommunity ((j : ℕ) : ℤ) row := by
      intro j hj row hmem
      simp only [smallTable, List.mem_cons, List.not_mem_nil, or_false] at hmem
      interval_cases j <;> rcases hmem with rfl | rfl <;>
        exact ⟨_, rfl, by decide +kernel, by decide +kernel⟩
    exact fun i row hmem => hall (i % 3) (Nat.mod_lt i (by norm_num)) row hmem
  exact walks_see_table hsorted (by norm_num) (fun i => by exact_mod_cast hfits i)
    ⟨_, rfl, by decide +kernel⟩ ⟨_, rfl, by decide +kernel⟩ (Or.inl (by decide))

/-- A name of 1401 bytes: not even the end of the table fits a reply under it. -/
def longOid : Oid := 1 :: 3 :: List.replicate 1400 1

theorem validOid_longOid : ValidOid longOid := by
  refine ⟨by decide, by decide, by decide, by decide, ?_⟩
  intro subId hmem
  rw [List.eq_of_mem_replicate hmem]
  decide

theorem askable_longOid (h : Framed request)
    (hvarbinds : request.varbinds = [(longOid, { tag := tagNull })])
    (hsize : messageSize request ≤ maxMessageBytes) : Askable request := by
  have hcarries : Carries (longOid, { tag := tagNull }) :=
    carries_empty validOid_longOid (Or.inl rfl) (by decide)
  have hreadable : ∀ row ∈ request.varbinds, Readable row.2 := by
    rw [hvarbinds]
    intro row hmem
    rw [List.mem_singleton.mp hmem]
    exact hcarries.readable
  refine ⟨_, encodeMessage_of_writable h.writable, ?_⟩
  rw [decodeMessage_of_readable h hsize hreadable, carriedMessage, hvarbinds, List.map_cons,
    List.map_nil, hcarries.carried, ← hvarbinds]

theorem writable_longOid : ∀ row ∈ [(longOid, ({ tag := tagNull } : SnmpValue))], Writable row := by
  intro row hmem
  rw [List.mem_singleton.mp hmem]
  exact ⟨validOid_longOid, .empty (Or.inl rfl) _⟩

theorem framed_getNext_longOid : Framed (getNextRequest publicCommunity 0 longOid) :=
  ⟨rfl, show pduGetnext ∈ knownPdus by decide, show integerSize 0 ≤ maxIntegerBytes by decide,
    show integerSize 0 ≤ maxIntegerBytes by decide, show integerSize 0 ≤ maxIntegerBytes by decide,
    show 1 ≤ maxVarbinds by decide, writable_longOid⟩

theorem framed_getBulk_longOid : Framed (getBulkRequest publicCommunity 0 1 longOid) :=
  ⟨rfl, show pduGetbulk ∈ knownPdus by decide, show integerSize 0 ≤ maxIntegerBytes by decide,
    show integerSize 0 ≤ maxIntegerBytes by decide, show integerSize 1 ≤ maxIntegerBytes by decide,
    show 1 ≤ maxVarbinds by decide, writable_longOid⟩

theorem respond_longOid :
    respond (getNextRequest publicCommunity 0 longOid) [] =
      .ok (messageBytes (response (getNextRequest publicCommunity 0 longOid) [] errorTooBig 0)) := by
  have hwrite : ∀ row ∈ wanted [] (getNextRequest publicCommunity 0 longOid), Writable row := by
    intro row hmem
    rw [List.mem_singleton.mp hmem]
    exact (carries_end validOid_longOid).writable
  have hbig : ¬ FitsFrame (getNextRequest publicCommunity 0 longOid)
      (wanted [] (getNextRequest publicCommunity 0 longOid)) := by
    decide +kernel
  rw [respond_read List.Pairwise.nil (show pduGetnext ≠ pduSet by decide) hwrite, kept,
    if_neg hbig, if_neg (by decide +kernel), replyStatus, if_neg]
  intro hor
  rcases hor with hfits | hcut
  · exact hbig hfits
  · exact absurd hcut (by decide +kernel)

/-- From a name too long for a reply the agent answers that the answer is too big, not
that the table has ended. -/
theorem not_forall_walks_see_table :
    ¬ ∀ (community : Bytes) (table : List VarBind) (maxRepetitions : ℤ) (ids : ℕ → ℤ) (oid : Oid),
      Ascending table → 1 ≤ maxRepetitions →
        (∀ i, ∀ row ∈ table, FitsReply community (ids i) row) →
          Askable (getNextRequest community (ids 0) oid) →
            Askable (getBulkRequest community (ids 0) maxRepetitions oid) →
              ∀ fuel, (above table oid).length < fuel →
                getNextWalk community table ids fuel oid = walked table oid := by
  intro hall
  have hnext : Askable (getNextRequest publicCommunity 0 longOid) :=
    askable_longOid framed_getNext_longOid rfl (by decide +kernel)
  have hbulk : Askable (getBulkRequest publicCommunity 0 1 longOid) :=
    askable_longOid framed_getBulk_longOid rfl (by decide +kernel)
  have hwalk := hall publicCommunity [] 1 (fun _ => 0) longOid List.Pairwise.nil le_rfl (by simp)
    hnext hbulk 1 (by simp [above])
  have hnone : ask [] (getNextRequest publicCommunity 0 longOid) = none := by
    obtain ⟨data, hencode, hdecode⟩ := hnext
    have hread := readMessage_of_decodeMessage hdecode
    have hframed : Framed (response (getNextRequest publicCommunity 0 longOid) [] errorTooBig 0) :=
      framed_response hread (by decide) (by decide) (by decide) (by simp)
    have hdecoded := decodeMessage_of_readable hframed (by decide +kernel)
      (fun row hrow => by cases hrow)
    simp only [ask, hencode, handleRequest_of_accepted [] {} hdecode
      (show pduGetnext ≠ pduResponse by decide), respond_longOid, Except.map, hdecoded]
    rfl
  rw [getNextWalk, hnone] at hwalk
  exact absurd hwalk.symm (by simp [walked])

end RtfmEv.Snmp
