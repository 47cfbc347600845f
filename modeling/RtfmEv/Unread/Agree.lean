import Mathlib.Data.Rat.Floor

/-!
# What push, the unread count and chat hide

A stored incoming message is read three times: the push manager decides from its event whether
to notify, the unread query counts its row, and chat shows the sender that the text begins with.
The filters of the three are written apart, in Python, in SQL and in TypeScript.

Texts are lists of code points. Python and SQL count in code points, TypeScript in UTF-16 units.
-/

namespace RtfmEv.Unread

abbrev Text := List Char

/-! ### The sender in front of a text -/

/-- Where `needle` first is in a text. -/
def find (needle : Text) : Text → Option ℕ
  | [] => if needle = [] then some 0 else none
  | c :: rest =>
    if needle.isPrefixOf (c :: rest) then some 0 else (find needle rest).map (· + 1)

/-- `instr`: the position from one, or zero. -/
def instr (text needle : Text) : ℕ :=
  match find needle text with
  | some i => i + 1
  | none => 0

/-- `substr(text, 1, n)`. -/
def substrFromOne (text : Text) (n : ℕ) : Text := text.take n

/-- How many UTF-16 units a text has. -/
def utf16Length (text : Text) : ℕ := (text.map (fun c => if 0x10000 ≤ c.toNat then 2 else 1)).sum

/-- `indexOf` of the modelled page: the units in front of the first occurrence. -/
def indexOf (text needle : Text) : Option ℕ :=
  (find needle text).map (fun i => utf16Length (text.take i))

/-- `substring(0, n)`, where `n` units end at a code point. -/
def substringTo (text : Text) (n : ℕ) : Text :=
  match text with
  | [] => []
  | c :: rest =>
    let units := utf16Length [c]
    if n < units then [] else c :: substringTo rest (n - units)

def colonSpace : Text := [':', ' ']

/-- `channel_sender`: the sender of a stored channel row. -/
def channelSender (text : Text) : Option Text :=
  match find colonSpace text with
  | some colon =>
    if 0 < colon ∧ colon < 50 ∧ ':' ∉ text.take colon then some (text.take colon) else none
  | none => none

/-- `shown_sender` of the unread query, and the conditions it stands under. -/
def sqlSender (text : Text) : Option Text :=
  let shownSender := substrFromOne text (instr text colonSpace - 1)
  if 2 ≤ instr text colonSpace ∧ instr text colonSpace ≤ 50 ∧ instr shownSender [':'] = 0 then
    some shownSender
  else none

/-- `parseSenderFromText`, as far as the sender goes. -/
def parseSenderFromText (text : Text) : Option Text :=
  match indexOf text colonSpace with
  | some colonIndex =>
    if colonIndex > 0 ∧ colonIndex < 50 then
      let potentialSender := substringTo text colonIndex
      if ':' ∈ potentialSender then none else some potentialSender
    else none
  | none => none

/-! ### Rows and events -/

inductive MsgType
  | priv
  | chan
deriving DecidableEq

structure MessagePath where
  path : Text
  pathLen : Option ℤ

/-- A text that no change to lower case changes. -/
def Lower (text : Text) : Prop := text.map Char.toLower = text

/-- A stored message. The ingest stores keys of contacts in lower case. -/
structure Row where
  id : ℕ
  type : MsgType
  conversationKey : Text
  text : Text
  receivedAt : ℤ
  paths : Option (List MessagePath)
  txtType : Option ℤ
  senderKey : Option Text
  outgoing : Bool
  senderName : Option Text
  malformed : Bool
  nameFiltered : Bool
  spam : Bool
  radioSf : Option ℤ
  contactLower : type = .priv → Lower conversationKey
  senderLower : ∀ key, senderKey = some key → Lower key ∧ key ≠ []

/-- The payload of a message event. -/
structure Event where
  type : MsgType
  conversationKey : Text
  text : Text
  paths : Option (List MessagePath)
  txtType : ℤ
  senderKey : Option Text
  outgoing : Bool
  senderName : Option Text
  malformed : Bool
  nameFiltered : Bool
  spam : Bool
  /-- The spreading factor of the stamp. -/
  radioStamp : Option ℤ

/-- The event that is built from a row. -/
def Row.event (row : Row) : Event :=
  { type := row.type, conversationKey := row.conversationKey, text := row.text
    paths := row.paths, txtType := row.txtType.getD 0, senderKey := row.senderKey
    outgoing := row.outgoing, senderName := row.senderName, malformed := row.malformed
    nameFiltered := row.nameFiltered, spam := row.spam, radioStamp := row.radioSf }

/-- The filters, with the senders that `hidden_senders` gives. Blocked keys are kept in lower
case. -/
structure Settings where
  hiddenKeys : List Text
  hiddenNames : List Text
  hiddenHopWidths : List ℤ
  hiddenRadioSfs : List ℤ
  hideMalformed : Bool
  hideNameFiltered : Bool
  hideSpam : Bool
  keysLower : ∀ key ∈ hiddenKeys, Lower key

structure Channel where
  muted : Bool
  lastReadAt : Option ℤ
  lastReadMessageId : Option ℕ

structure Contact where
  lastReadAt : Option ℤ
  lastReadMessageId : Option ℕ

/-- What else is stored. -/
structure Store where
  pushConversations : List Text
  channels : Text → Option Channel
  contacts : Text → Option Contact

def txtTypeCliCommand : ℤ := 3

def meshcomodCommandContactPrefix : Text := "4d455348434d".toList

def isMeshcomodCommandContact (publicKey : Text) : Bool :=
  meshcomodCommandContactPrefix.isPrefixOf (publicKey.map Char.toLower)

def stateKey (type : MsgType) (conversationKey : Text) : Text :=
  match type with
  | .priv => "contact-".toList ++ conversationKey
  | .chan => "channel-".toList ++ conversationKey

/-! ### The push manager -/

def isBlocked (e : Event) (blockedKeys blockedNames : List Text) : Bool :=
  let keys := blockedKeys.map (·.map Char.toLower)
  let byKey :=
    match e.type, e.senderKey with
    | .priv, _ => decide (e.conversationKey.map Char.toLower ∈ keys)
    | .chan, some key => decide (key ≠ [] ∧ key.map Char.toLower ∈ keys)
    | .chan, none => false
  let named := e.senderName.filter (· ≠ [])
  let senderName := if named.isNone ∧ e.type = .chan then channelSender e.text else named
  byKey || senderName.any (fun name => decide (name ≠ [] ∧ name ∈ blockedNames))

def storedPathHopWidth (p : MessagePath) : Option ℤ :=
  match p.pathLen with
  | none => none
  | some pathLen =>
    if p.path = [] ∨ pathLen ≤ 0 then none
    else
      let charsPerHop := (p.path.length : ℤ) / pathLen
      if (p.path.length : ℤ) % pathLen ≠ 0 ∨ charsPerHop ∉ ([2, 4, 6] : List ℤ) then none
      else some (charsPerHop / 2)

def validWidths (widths : List ℤ) : List ℤ := widths.filter (· ∈ ([1, 2, 3] : List ℤ))

def messageHiddenByHopWidth (paths : Option (List MessagePath)) (hiddenHopWidths : List ℤ) :
    Bool :=
  match paths with
  | none => false
  | some paths =>
    paths.any (fun p => (storedPathHopWidth p).any (fun w => decide (w ∈ validWidths hiddenHopWidths)))

def cleanHiddenSfs (values : List ℤ) : List ℤ :=
  values.filter (· ∈ ([0, 5, 6, 7, 8, 9, 10, 11, 12] : List ℤ))

def messageHiddenByRadioSf (stamp : Option ℤ) (hiddenSfs : List ℤ) : Bool :=
  if cleanHiddenSfs hiddenSfs = [] then false else decide (stamp.getD 0 ∈ cleanHiddenSfs hiddenSfs)

/-- Whether `dispatch_message` gets to the subscriptions. -/
def dispatchPasses (db : Store) (s : Settings) (e : Event) : Bool :=
  if e.outgoing then false
  else if e.txtType = txtTypeCliCommand then false
  else if e.type = .priv ∧ isMeshcomodCommandContact e.conversationKey then false
  else if stateKey e.type e.conversationKey ∉ db.pushConversations then false
  else if isBlocked e s.hiddenKeys s.hiddenNames then false
  else if messageHiddenByHopWidth e.paths s.hiddenHopWidths then false
  else if messageHiddenByRadioSf e.radioStamp s.hiddenRadioSfs then false
  else if s.hideMalformed && e.malformed then false
  else if s.hideNameFiltered && e.nameFiltered then false
  else if s.hideSpam && e.spam then false
  else if e.type = .chan ∧ e.conversationKey ≠ [] ∧
    (db.channels e.conversationKey).any Channel.muted then false
  else true

/-! ### The unread query -/

/-- The matchers of `_build_blocked_incoming_clause`. -/
def sqlBlocked (row : Row) (blockedKeys blockedNames : List Text) : Bool :=
  decide (row.type = .priv ∧ row.conversationKey ∈ blockedKeys) ||
    decide (row.type = .chan) && row.senderKey.any (fun key => decide (key ∈ blockedKeys)) ||
    row.senderName.any (fun name => decide (name ∈ blockedNames)) ||
    decide (row.type = .chan ∧ row.senderName = none) &&
      (sqlSender row.text).any (fun name => decide (name ∈ blockedNames))

/-- The matcher of `_build_hidden_hop_width_clause`. -/
def sqlHiddenHopWidth (row : Row) (hiddenHopWidths : List ℤ) : Bool :=
  (row.paths.getD []).any (fun p =>
    match p.pathLen with
    | none => false
    | some pathLen => decide (pathLen > 0) &&
        (validWidths hiddenHopWidths).any (fun w => decide ((p.path.length : ℤ) = pathLen * (2 * w))))

/-- The matcher of `_build_hidden_radio_sf_clause`. -/
def sqlHiddenRadioSf (row : Row) (hiddenRadioSfs : List ℤ) : Bool :=
  decide (row.radioSf.getD 0 ∈ cleanHiddenSfs hiddenRadioSfs)

/-- The clauses that leave hidden traffic out of the count. -/
def sqlShown (s : Settings) (row : Row) : Bool :=
  !(!row.outgoing && sqlBlocked row s.hiddenKeys s.hiddenNames) &&
    !(!row.outgoing && sqlHiddenHopWidth row s.hiddenHopWidths) &&
    !(!row.outgoing && sqlHiddenRadioSf row s.hiddenRadioSfs) &&
    !(s.hideMalformed && (!row.outgoing && row.malformed)) &&
    !(s.hideNameFiltered && (!row.outgoing && row.nameFiltered)) &&
    !(s.hideSpam && (!row.outgoing && row.spam)) &&
    !(!row.outgoing && decide (row.txtType.getD 0 = txtTypeCliCommand))

/-- The row is behind the read cursor. -/
def beyondCursor (row : Row) (lastReadAt : Option ℤ) (lastReadMessageId : Option ℕ) : Bool :=
  decide (row.receivedAt > lastReadAt.getD 0 ∨
    row.receivedAt = lastReadAt.getD 0 ∧ row.id > lastReadMessageId.getD 0)

/-- The read cursor of a row's conversation is below it. -/
def unreadIn (db : Store) (row : Row) : Bool :=
  match row.type with
  | .chan =>
    (db.channels row.conversationKey).any (fun c =>
      beyondCursor row c.lastReadAt c.lastReadMessageId)
  | .priv =>
    match db.contacts row.conversationKey with
    | some c => beyondCursor row c.lastReadAt c.lastReadMessageId
    | none => beyondCursor row none none

/-- Whether `get_unread_counts` counts the row. -/
def counted (db : Store) (s : Settings) (row : Row) : Bool :=
  !row.outgoing && unreadIn db row &&
    (decide (row.type = .priv) || (db.channels row.conversationKey).any (fun c => !c.muted)) &&
    sqlShown s row

/-!
## Push, the unread count and chat agree

The filters agree clause by clause. What they do not share is the sender of a message: a row
with an empty sender name reads as one without a sender in Python and as one with a sender in
SQL, and the length of the prefix is counted in code points by the two and in UTF-16 units by
the page.
-/

/-! #### Positions in a text -/

theorem find_le {needle text : Text} {i : ℕ} (h : find needle text = some i) : i ≤ text.length := by
  induction text generalizing i with
  | nil =>
    rw [find] at h
    split_ifs at h
    cases h
    exact Nat.le_refl 0
  | cons c rest ih =>
    rw [find] at h
    split_ifs at h
    · cases h
      exact Nat.zero_le _
    · obtain ⟨j, hj, rfl⟩ := Option.map_eq_some_iff.mp h
      have hle := ih hj
      rw [List.length_cons]
      omega

variable (c : Char) (text : Text) {s : Settings} {row : Row} {db : Store}

theorem find_singleton : find [c] text = none ↔ c ∉ text := by
  induction text with
  | nil => simp [find]
  | cons d rest ih =>
    rw [find]
    by_cases hcd : c = d
    · subst hcd
      rw [if_pos (by simp)]
      simp
    · rw [if_neg (by simpa using hcd), Option.map_eq_none_iff, ih]
      simp [hcd]

theorem instr_singleton (c : Char) : instr text [c] = 0 ↔ c ∉ text := by
  rw [← find_singleton c text, instr]
  cases find [c] text <;> simp

theorem utf16Length_cons :
    utf16Length (c :: text) = utf16Length [c] + utf16Length text := by
  simp [utf16Length]

theorem utf16Length_singleton_pos : 0 < utf16Length [c] := by
  simp only [utf16Length, List.map_cons, List.map_nil, List.sum_cons, List.sum_nil]
  split_ifs <;> omega

theorem length_le_utf16Length : text.length ≤ utf16Length text := by
  induction text with
  | nil => exact Nat.le_refl 0
  | cons c rest ih =>
    have hpos := utf16Length_singleton_pos c
    rw [utf16Length_cons, List.length_cons]
    omega

theorem substringTo_append (a b : Text) : substringTo (a ++ b) (utf16Length a) = a := by
  induction a with
  | nil =>
    cases b with
    | nil => rfl
    | cons c rest =>
      show (if (0 : ℕ) < utf16Length [c] then [] else _) = _
      rw [if_pos (utf16Length_singleton_pos c)]
  | cons c rest ih =>
    rw [List.cons_append, substringTo, utf16Length_cons]
    rw [if_neg (by omega), Nat.add_sub_cancel_left, ih]

/-! #### The sender in front of a text -/

/-- **Python and SQL see the same sender.** -/
theorem channelSender_eq_sqlSender : channelSender text = sqlSender text := by
  rw [channelSender, sqlSender, instr]
  cases hfind : find colonSpace text with
  | none => rfl
  | some colon =>
    dsimp only
    have hcut : substrFromOne text (colon + 1 - 1) = text.take colon := rfl
    rw [hcut]
    refine if_congr ?_ rfl rfl
    rw [instr_singleton]
    constructor
    · rintro ⟨hpos, hlt, hno⟩
      exact ⟨by omega, by omega, hno⟩
    · rintro ⟨hpos, hlt, hno⟩
      exact ⟨by omega, by omega, hno⟩

/-- The sender that Python finds is short for the page as well. -/
def ShortSender (text : Text) : Prop :=
  ∀ name, channelSender text = some name → utf16Length name < 50

/-- **The page sees the same sender, where it is short.** -/
theorem channelSender_eq_parseSender :
    channelSender text = parseSenderFromText text ↔ ShortSender text := by
  unfold ShortSender
  rw [channelSender, parseSenderFromText, indexOf]
  cases hfind : find colonSpace text with
  | none => simp
  | some colon =>
    have hle := find_le hfind
    have hlen : (text.take colon).length = colon := by
      rw [List.length_take]
      omega
    have hunits := length_le_utf16Length (text.take colon)
    rw [hlen] at hunits
    have hcut : substringTo text (utf16Length (text.take colon)) = text.take colon := by
      have happ := substringTo_append (text.take colon) (text.drop colon)
      rw [List.take_append_drop] at happ
      exact happ
    have hzero : colon = 0 → utf16Length (text.take colon) = 0 := by
      rintro rfl
      rfl
    simp only [Option.map_some, hcut]
    by_cases hcolon : ':' ∈ text.take colon
    · simp [hcolon]
    · by_cases hpos : 0 < colon
      · by_cases hlt : colon < 50
        · by_cases hshort : utf16Length (text.take colon) < 50
          · have hgt : utf16Length (text.take colon) > 0 := by omega
            simp [hcolon, hpos, hlt, hshort, hgt]
          · simp [hcolon, hpos, hlt, hshort]
        · have hlong : ¬ utf16Length (text.take colon) < 50 := by omega
          simp [hlt, hlong]
      · have hnone : ¬ utf16Length (text.take colon) > 0 := by
          rw [hzero (by omega)]
          omega
        simp [hpos, hnone]

/-! #### The filters, one by one -/

/-- A path has the width `w` when its text is so many hops of that width. -/
theorem storedPathHopWidth_eq {p : MessagePath} {w : ℤ} (hw : w ∈ ([1, 2, 3] : List ℤ)) :
    storedPathHopWidth p = some w ↔
      ∃ pathLen, p.pathLen = some pathLen ∧ pathLen > 0 ∧
        (p.path.length : ℤ) = pathLen * (2 * w) := by
  have hpos : 0 < w ∧ w ≤ 3 := by
    simp only [List.mem_cons, List.not_mem_nil, or_false] at hw
    omega
  rw [storedPathHopWidth]
  cases hlen : p.pathLen with
  | none => simp
  | some pathLen =>
    dsimp only
    constructor
    · intro h
      split_ifs at h with hbad hodd
      have hbad' := not_or.mp hbad
      have hodd' := not_or.mp hodd
      refine ⟨pathLen, rfl, by omega, ?_⟩
      have hmod : (p.path.length : ℤ) % pathLen = 0 := not_not.mp hodd'.1
      have hdiv := Int.ediv_mul_add_emod (p.path.length : ℤ) pathLen
      have hwidth := Option.some.inj h
      have hcases := not_not.mp hodd'.2
      have hquot : (p.path.length : ℤ) / pathLen = 2 * w := by
        simp only [List.mem_cons, List.not_mem_nil, or_false] at hcases
        omega
      rw [hquot, hmod, Int.add_zero, Int.mul_comm] at hdiv
      exact hdiv.symm
    · rintro ⟨pathLen', heq, hgt, hmul⟩
      cases heq
      have hquot : (p.path.length : ℤ) / pathLen = 2 * w := by
        rw [hmul]
        exact Int.mul_ediv_cancel_left _ (by omega)
      have hrem : (p.path.length : ℤ) % pathLen = 0 := by
        rw [hmul]
        exact Int.mul_emod_right _ _
      have hne : ¬ (p.path = [] ∨ pathLen ≤ 0) := by
        rintro (hnil | hle)
        · rw [hnil] at hmul
          have hprod : 0 < pathLen * (2 * w) := Int.mul_pos hgt (by omega)
          rw [← hmul] at hprod
          exact absurd hprod (by decide)
        · omega
      have hok : ¬ ((p.path.length : ℤ) % pathLen ≠ 0 ∨
          (p.path.length : ℤ) / pathLen ∉ ([2, 4, 6] : List ℤ)) := by
        rw [hquot, hrem]
        simp only [List.mem_cons, List.not_mem_nil, or_false]
        omega
      rw [if_neg hne, if_neg hok, hquot]
      congr 1
      omega

/-- **The hop-size filter is the same.** -/
theorem hiddenByHopWidth_eq (row : Row) (widths : List ℤ) :
    messageHiddenByHopWidth row.paths widths = sqlHiddenHopWidth row widths := by
  unfold messageHiddenByHopWidth sqlHiddenHopWidth
  cases row.paths with
  | none => rfl
  | some paths =>
    rw [Option.getD_some]
    dsimp only
    congr 1
    funext p
    rw [Bool.eq_iff_iff]
    constructor
    · intro h
      obtain ⟨w, hw, hmem⟩ := (Option.any_eq_true _ _).mp h
      have hmem := of_decide_eq_true hmem
      have hvalid := of_decide_eq_true (List.mem_filter.mp hmem).2
      obtain ⟨pathLen, hlen, hgt, hmul⟩ := (storedPathHopWidth_eq hvalid).mp hw
      rw [hlen]
      exact Bool.and_eq_true_iff.mpr ⟨decide_eq_true hgt,
        List.any_eq_true.mpr ⟨w, hmem, decide_eq_true hmul⟩⟩
    · intro h
      cases hlen : p.pathLen with
      | none =>
        rw [hlen] at h
        cases h
      | some pathLen =>
        rw [hlen] at h
        obtain ⟨hgt, hany⟩ := Bool.and_eq_true_iff.mp h
        obtain ⟨w, hmem, hmul⟩ := List.any_eq_true.mp hany
        have hvalid := of_decide_eq_true (List.mem_filter.mp hmem).2
        have hwidth := (storedPathHopWidth_eq hvalid).mpr
          ⟨pathLen, hlen, of_decide_eq_true hgt, of_decide_eq_true hmul⟩
        rw [hwidth]
        exact decide_eq_true hmem

/-- **The filter by spreading factor is the same.** -/
theorem hiddenByRadioSf_eq (row : Row) (sfs : List ℤ) :
    messageHiddenByRadioSf row.radioSf sfs = sqlHiddenRadioSf row sfs := by
  rw [messageHiddenByRadioSf, sqlHiddenRadioSf]
  split_ifs with hnone
  · rw [hnone]
    rfl
  · rfl

/-- A key of the message is blocked. -/
def KeyBlocked (s : Settings) (row : Row) : Prop :=
  match row.type with
  | .priv => row.conversationKey ∈ s.hiddenKeys
  | .chan => ∃ key, row.senderKey = some key ∧ key ∈ s.hiddenKeys

/-- The sender that the text of a channel row begins with is blocked. -/
def PrefixBlocked (s : Settings) (row : Row) : Prop :=
  row.type = .chan ∧ ∃ name, channelSender row.text = some name ∧ name ∈ s.hiddenNames

/-- The keys of the settings and of the row are in lower case, so it does not matter that only
Python lowers them. -/
theorem mem_lowered {key : Text} (h : Lower key) :
    key.map Char.toLower ∈ s.hiddenKeys.map (·.map Char.toLower) ↔ key ∈ s.hiddenKeys := by
  have hsame : s.hiddenKeys.map (·.map Char.toLower) = s.hiddenKeys := by
    refine (List.map_congr_left (fun k hk => ?_)).trans (List.map_id _)
    exact s.keysLower k hk
  rw [hsame, h]

theorem channelSender_ne_nil {text name : Text} (h : channelSender text = some name) :
    name ≠ [] := by
  rw [channelSender] at h
  split at h
  · rename_i colon hfind
    split_ifs at h with hcut
    rw [← Option.some.inj h]
    intro hnil
    have hlen := congrArg List.length hnil
    have hle := find_le hfind
    rw [List.length_take, List.length_nil] at hlen
    omega
  · cases h

/-- The name part of the two block lists: a row's sender name, or the prefix of its text. -/
theorem isBlocked_iff (s : Settings) (row : Row) :
    isBlocked row.event s.hiddenKeys s.hiddenNames = true ↔
      KeyBlocked s row ∨ (∃ name, row.senderName = some name ∧ name ≠ [] ∧ name ∈ s.hiddenNames) ∨
        (row.senderName = none ∨ row.senderName = some []) ∧ PrefixBlocked s row := by
  -- the name part
  have hname : ((if (row.event.senderName.filter (· ≠ [])).isNone ∧ row.event.type = .chan then
      channelSender row.event.text else row.event.senderName.filter (· ≠ [])).any
        (fun name => decide (name ≠ [] ∧ name ∈ s.hiddenNames))) = true ↔
      (∃ name, row.senderName = some name ∧ name ≠ [] ∧ name ∈ s.hiddenNames) ∨
        (row.senderName = none ∨ row.senderName = some []) ∧ PrefixBlocked s row := by
    have hprefix : (∃ name, channelSender row.text = some name ∧ name ≠ [] ∧
        name ∈ s.hiddenNames) ↔ ∃ name, channelSender row.text = some name ∧
          name ∈ s.hiddenNames := by
      constructor
      · rintro ⟨name, hn, -, hmem⟩
        exact ⟨name, hn, hmem⟩
      · rintro ⟨name, hn, hmem⟩
        exact ⟨name, hn, channelSender_ne_nil hn, hmem⟩
    have hevent : row.event.senderName = row.senderName := rfl
    have htype : row.event.type = row.type := rfl
    have htext : row.event.text = row.text := rfl
    rw [hevent, htype, htext, PrefixBlocked, ← hprefix]
    cases row.senderName with
    | none => cases row.type <;> simp [Option.any_eq_true]
    | some name =>
      cases name with
      | nil => cases row.type <;> simp [Option.any_eq_true]
      | cons c rest => simp
  unfold isBlocked
  dsimp only
  rw [Bool.or_eq_true]
  refine or_congr ?_ hname
  -- the key part
  have hevent : row.event.type = row.type := rfl
  have hsender : row.event.senderKey = row.senderKey := rfl
  rw [hevent, hsender, KeyBlocked]
  cases htype : row.type with
  | priv =>
    dsimp only
    rw [decide_eq_true_iff]
    exact mem_lowered (row.contactLower htype)
  | chan =>
    cases hsk : row.senderKey with
    | none => simp
    | some key =>
      obtain ⟨hlower, hne⟩ := row.senderLower key hsk
      dsimp only
      rw [decide_eq_true_iff, mem_lowered hlower]
      simp [hne]

theorem sqlBlocked_iff (s : Settings) (row : Row) :
    sqlBlocked row s.hiddenKeys s.hiddenNames = true ↔
      KeyBlocked s row ∨ (∃ name, row.senderName = some name ∧ name ∈ s.hiddenNames) ∨
        row.senderName = none ∧ PrefixBlocked s row := by
  unfold sqlBlocked KeyBlocked PrefixBlocked
  rw [← channelSender_eq_sqlSender]
  cases row.type <;> cases row.senderName <;> cases row.senderKey <;>
    simp [Option.any_eq_true]

/-! #### Push and the count -/

/-- The message stands in an unmuted conversation that is enabled for push and is not the local
command contact, and the read cursor is below it. -/
structure Eligible (db : Store) (row : Row) : Prop where
  incoming : row.outgoing = false
  pushed : stateKey row.type row.conversationKey ∈ db.pushConversations
  chat : row.type = .priv → isMeshcomodCommandContact row.conversationKey = false
  unmuted : row.type = .chan → ∃ c, db.channels row.conversationKey = some c ∧ c.muted = false
  unread : unreadIn db row = true

/-- A filter other than the block lists hides the message. -/
def OtherHides (s : Settings) (row : Row) : Prop :=
  row.txtType.getD 0 = txtTypeCliCommand ∨
    messageHiddenByHopWidth row.paths s.hiddenHopWidths = true ∨
    messageHiddenByRadioSf row.radioSf s.hiddenRadioSfs = true ∨
    s.hideMalformed = true ∧ row.malformed = true ∨
    s.hideNameFiltered = true ∧ row.nameFiltered = true ∨ s.hideSpam = true ∧ row.spam = true

theorem dispatchPasses_iff (h : Eligible db row) :
    dispatchPasses db s row.event = true ↔
      ¬ (OtherHides s row ∨ isBlocked row.event s.hiddenKeys s.hiddenNames = true) := by
  have hin : row.event.outgoing = false := h.incoming
  have hpush : stateKey row.event.type row.event.conversationKey ∈ db.pushConversations := h.pushed
  have hchat : ¬ (row.event.type = .priv ∧
      isMeshcomodCommandContact row.event.conversationKey = true) := by
    rintro ⟨htype, hcmd⟩
    have hno := h.chat htype
    rw [show row.event.conversationKey = row.conversationKey from rfl, hno] at hcmd
    cases hcmd
  have hmuted : ¬ (row.event.type = .chan ∧ row.event.conversationKey ≠ [] ∧
      (db.channels row.event.conversationKey).any Channel.muted = true) := by
    rintro ⟨htype, -, hmute⟩
    obtain ⟨c, hc, hunmuted⟩ := h.unmuted htype
    rw [show row.event.conversationKey = row.conversationKey from rfl, hc] at hmute
    rw [Option.any_some, hunmuted] at hmute
    cases hmute
  rw [dispatchPasses, hin, if_neg Bool.false_ne_true, if_neg hchat, if_neg (not_not.mpr hpush),
    if_neg hmuted]
  unfold OtherHides
  show (if row.txtType.getD 0 = txtTypeCliCommand then false else _) = true ↔ _
  split_ifs <;> simp_all [Row.event]

theorem sqlShown_iff (hin : row.outgoing = false) :
    sqlShown s row = true ↔
      ¬ (OtherHides s row ∨ sqlBlocked row s.hiddenKeys s.hiddenNames = true) := by
  rw [sqlShown, ← hiddenByHopWidth_eq, ← hiddenByRadioSf_eq, hin, OtherHides]
  simp only [Bool.not_false, Bool.true_and, Bool.and_eq_true, Bool.not_eq_true', Bool.and_eq_false_iff,
    decide_eq_false_iff_not]
  simp only [← Bool.not_eq_true]
  tauto

theorem counted_iff (h : Eligible db row) :
    counted db s row = true ↔
      ¬ (OtherHides s row ∨ sqlBlocked row s.hiddenKeys s.hiddenNames = true) := by
  have hopen : (decide (row.type = .priv) ||
      (db.channels row.conversationKey).any (fun c => !c.muted)) = true := by
    cases htype : row.type with
    | priv => rfl
    | chan =>
      obtain ⟨c, hc, hunmuted⟩ := h.unmuted htype
      rw [hc, Option.any_some, hunmuted]
      rfl
  rw [← sqlShown_iff h.incoming, counted, h.incoming, h.unread, hopen]
  rfl

/-- **When the block lists treat a row alike.** The row has a sender name that is not empty, or
none; or the empty name is blocked just as the prefix of the text is; or another filter, or a
blocked key, hides the row. -/
def NamesAlike (s : Settings) (row : Row) : Prop :=
  row.senderName ≠ some [] ∨ ([] ∈ s.hiddenNames ↔ PrefixBlocked s row) ∨ OtherHides s row ∨
    KeyBlocked s row

/-- Push and the count agree on a message if the block lists treat its row alike. -/
theorem dispatchPasses_iff_counted (h : Eligible db row) :
    (dispatchPasses db s row.event = true ↔ counted db s row = true) ↔ NamesAlike s row := by
  rw [dispatchPasses_iff h, counted_iff h, isBlocked_iff, sqlBlocked_iff, NamesAlike]
  cases hname : row.senderName with
  | none => simp
  | some name =>
    cases name with
    | nil =>
      have hempty : (∃ name : Text, some ([] : Text) = some name ∧ name ≠ [] ∧
          name ∈ s.hiddenNames) ↔ False := by
        constructor
        · rintro ⟨name, hn, hne, -⟩
          exact hne (Option.some.inj hn).symm
        · exact False.elim
      have hblocked : (∃ name : Text, some ([] : Text) = some name ∧
          name ∈ s.hiddenNames) ↔ [] ∈ s.hiddenNames := by
        constructor
        · rintro ⟨name, hn, hmem⟩
          rw [Option.some.inj hn]
          exact hmem
        · exact fun hmem => ⟨[], rfl, hmem⟩
      rw [hempty, hblocked]
      simp only [reduceCtorEq, ne_eq, not_true_eq_false, false_or, true_and, or_true, false_and,
        or_false]
      tauto
    | cons c rest => simp

/-- **Push, the unread count and chat agree on a message and a text exactly when the block lists
treat the row alike and the sender of the text is short.** -/
theorem readers_agree {db : Store} {s : Settings} {row : Row} (h : Eligible db row) (text : Text) :
    ((dispatchPasses db s row.event = true ↔ counted db s row = true) ∧
      channelSender text = sqlSender text ∧ channelSender text = parseSenderFromText text) ↔
      NamesAlike s row ∧ ShortSender text := by
  rw [dispatchPasses_iff_counted h, channelSender_eq_parseSender]
  exact ⟨fun hall => ⟨hall.1, hall.2.2⟩,
    fun hall => ⟨hall.1, channelSender_eq_sqlSender text, hall.2⟩⟩

/-- A channel row of an unmuted channel, with nothing hidden. -/
theorem readers_agree_plain :
    let row : Row :=
      { id := 1, type := .chan, conversationKey := ['c'], text := "ann: hi".toList
        receivedAt := 1, paths := none, txtType := none, senderKey := none, outgoing := false
        senderName := some "ann".toList, malformed := false, nameFiltered := false, spam := false
        radioSf := none, contactLower := nofun, senderLower := nofun }
    let db : Store :=
      { pushConversations := ["channel-c".toList]
        channels := fun _ => some ⟨false, none, none⟩
        contacts := fun _ => none }
    let s : Settings := ⟨[], [], [], [], false, false, false, nofun⟩
    (dispatchPasses db s row.event = true ↔ counted db s row = true) ∧
      channelSender row.text = sqlSender row.text ∧
      channelSender row.text = parseSenderFromText row.text := by
  intro row db s
  have heligible : Eligible db row := by
    exact ⟨rfl, by decide, nofun, fun _ => ⟨_, rfl, rfl⟩, by decide⟩
  have hshort : ShortSender row.text := by
    intro name hname
    have hann : some "ann".toList = some name := hname
    rw [← Option.some.inj hann]
    decide
  exact (readers_agree (s := s) heligible row.text).mpr ⟨Or.inl (by decide), hshort⟩

/-- **The sender of a channel text need not be the same.** 25 emojis are 25 code points and 50
UTF-16 units. -/
theorem not_forall_readers_agree :
    ¬ ∀ text : Text, channelSender text = sqlSender text ∧
      channelSender text = parseSenderFromText text := by
  intro h
  have hsame := (h (List.replicate 25 (Char.ofNat 0x1F600) ++ ": hi".toList)).2
  revert hsame
  decide +kernel

end RtfmEv.Unread
