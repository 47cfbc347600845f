import Mathlib.Tactic.IntervalCases
import RtfmEv.Snmp.Agent

/-!
# What the reader makes of written values

Every reader is run at an offset of a longer string, in front of which it reads
nothing. A written tag, length and content is read back unless the tag would need a
second byte. An identifier that can be written is read back, and one that was read
can be written. A value that can be written is read back exactly when its integer is
in the reader's range.
-/

namespace RtfmEv.Snmp

open RtfmEv.Lib

/-! ### Results -/

section Results

variable {α β : Type}

@[simp] theorem ok_bind (a : α) (f : α → Except BerError β) :
    ((Except.ok a : Except BerError α) >>= f) = f a := rfl

@[simp] theorem error_bind (e : BerError) (f : α → Except BerError β) :
    ((Except.error e : Except BerError α) >>= f) = .error e := rfl

theorem return_eq (a : α) : (pure a : Except BerError α) = .ok a := rfl
theorem throw_eq (e : BerError) : (throw e : Except BerError α) = .error e := rfl

theorem bind_eq_ok {x : Except BerError α} {f : α → Except BerError β} {b : β} :
    (x >>= f) = .ok b ↔ ∃ a, x = .ok a ∧ f a = .ok b := by
  cases x with
  | error e => simp
  | ok a => simp

end Results

/-! ### Tag, length, content -/

/-- The number of bytes of a length. -/
def lengthSize (length : ℕ) : ℕ :=
  if length < 0x80 then 1 else 1 + (bitLength length + 7) / 8

/-- The number of bytes of a content with its tag and length. -/
def tlvSize (length : ℕ) : ℕ := 1 + lengthSize length + length

@[simp] theorem length_encodeLength (length : ℕ) :
    (encodeLength length).length = lengthSize length := by
  rw [encodeLength, lengthSize]
  split_ifs
  · rfl
  · rw [List.length_cons, length_toBytesBE]
    omega

@[simp] theorem length_encodeTlv (tag : UInt8) (content : Bytes) :
    (encodeTlv tag content).length = tlvSize content.length := by
  rw [encodeTlv, tlvSize, List.length_append, List.length_append, length_encodeLength]
  rfl

variable {n current m fuel x k : ℕ} (front : Bytes) {tag : UInt8} {subIds : List ℕ}
  {content : Bytes} {inSubId : Bool} {oid : Oid} {value : SnmpValue}

theorem lengthSize_mono (h : m ≤ n) : lengthSize m ≤ lengthSize n := by
  have hbits := bitLength_mono h
  rw [lengthSize, lengthSize]
  split_ifs <;> omega

theorem tlvSize_mono (h : m ≤ n) : tlvSize m ≤ tlvSize n := by
  have hsize := lengthSize_mono h
  rw [tlvSize, tlvSize]
  omega

theorem lt_tlvSize (n : ℕ) : n + 2 ≤ tlvSize n := by
  rw [tlvSize, lengthSize]
  split_ifs <;> omega

theorem lengthSize_of_lt (h : n < 0x80) : lengthSize n = 1 := if_pos h

theorem lengthSize_le_three (h : n < 0x10000) : lengthSize n ≤ 3 := by
  have hbits : bitLength n ≤ 16 := bitLength_le_iff.mpr h
  rw [lengthSize]
  split_ifs <;> omega

theorem three_le_lengthSize (h : 0x100 ≤ n) : 3 ≤ lengthSize n := by
  have hbits : ¬ bitLength n ≤ 8 := by
    rw [bitLength_le_iff]
    omega
  rw [lengthSize, if_neg (by omega)]
  omega

theorem slice_append_middle (a b c : Bytes) {i j : ℕ} (hi : i = a.length)
    (hj : j = a.length + b.length) : slice (a ++ (b ++ c)) i j = b := by
  subst hi hj
  rw [slice, List.drop_left, Nat.add_sub_cancel_left, List.take_left]

theorem count_of_long (k : ℕ) (hpos : 0 < k) (hle : k ≤ 4) :
    ¬ UInt8.ofNat (0x80 ||| k) < 0x80 ∧ (UInt8.ofNat (0x80 ||| k) &&& 0x7F).toNat = k := by
  interval_cases k <;> decide

theorem decodeTlv_short (content back : Bytes) {first : UInt8}
    (htag : tag &&& 0x1F ≠ 0x1F) (hfirst : first < 0x80) (hlen : first.toNat = content.length) :
    decodeTlv (front ++ (tag :: first :: (content ++ back))) front.length =
      .ok (tag, content, front.length + 2 + content.length) := by
  have hshape : front ++ tag :: first :: (content ++ back) =
      (front ++ [tag, first]) ++ (content ++ back) := by simp
  have hslice : slice (front ++ tag :: first :: (content ++ back)) (front.length + 2)
      (front.length + 2 + content.length) = content := by
    rw [hshape]
    exact slice_append_middle _ _ _ (by simp) (by simp)
  rw [decodeTlv, List.drop_left]
  simp only [if_neg htag, if_pos hfirst, hlen, hslice]
  rw [if_neg, return_eq]
  simp only [List.length_append, List.length_cons]
  omega

theorem decodeTlv_long (body content back : Bytes) {first : UInt8}
    (htag : tag &&& 0x1F ≠ 0x1F) (hfirst : ¬ first < 0x80)
    (hcount : (first &&& 0x7F).toNat = body.length) (hpos : 0 < body.length)
    (hle : body.length ≤ 4) (hlen : fromBytesBE body = content.length) :
    decodeTlv (front ++ (tag :: first :: (body ++ (content ++ back)))) front.length =
      .ok (tag, content, front.length + 2 + body.length + content.length) := by
  have hshape : front ++ tag :: first :: (body ++ (content ++ back)) =
      (front ++ [tag, first]) ++ (body ++ (content ++ back)) := by simp
  have hbody : slice (front ++ tag :: first :: (body ++ (content ++ back))) (front.length + 2)
      (front.length + 2 + body.length) = body := by
    rw [hshape]
    exact slice_append_middle _ _ _ (by simp) (by simp)
  have hcontent : slice (front ++ tag :: first :: (body ++ (content ++ back)))
      (front.length + 2 + body.length) (front.length + 2 + body.length + content.length) =
        content := by
    rw [hshape, ← List.append_assoc]
    exact slice_append_middle _ _ _ (by simp; omega) (by simp; omega)
  rw [decodeTlv, List.drop_left]
  simp only [if_neg htag, if_neg hfirst, hcount, hbody, hlen, hcontent]
  have hroom : front.length + 2 + body.length + content.length ≤
      (front ++ tag :: first :: (body ++ (content ++ back))).length := by
    simp only [List.length_append, List.length_cons]
    omega
  rw [if_neg (by omega), if_neg (by omega), if_neg (by omega), if_neg (by omega), return_eq]

/-- What is written under a single-byte tag is read back, wherever it stands. -/
theorem decodeTlv_encodeTlv (content back : Bytes)
    (htag : tag &&& 0x1F ≠ 0x1F) (hlen : content.length < 2 ^ 32) :
    decodeTlv (front ++ (encodeTlv tag content ++ back)) front.length =
      .ok (tag, content, front.length + tlvSize content.length) := by
  rw [encodeTlv, encodeLength, tlvSize, lengthSize]
  by_cases hshort : content.length < 0x80
  · have hfirst : (UInt8.ofNat content.length).toNat = content.length :=
      toNat_ofNat_of_lt (by omega)
    have hlt : UInt8.ofNat content.length < 0x80 := by
      rw [UInt8.lt_iff_toNat_lt, hfirst]
      exact hshort
    simp only [if_pos hshort, List.cons_append, List.nil_append]
    rw [decodeTlv_short front content back htag hlt hfirst]
    simp only [Except.ok.injEq, Prod.mk.injEq, true_and]
    omega
  · have hbits : bitLength content.length ≤ 32 := bitLength_le_iff.mpr hlen
    have hpos : 0 < bitLength content.length := bitLength_pos (by omega)
    have hk : 0 < (bitLength content.length + 7) / 8 ∧ (bitLength content.length + 7) / 8 ≤ 4 := by
      omega
    obtain ⟨hnot, hcount⟩ := count_of_long _ hk.1 hk.2
    have hread : fromBytesBE (toBytesBE ((bitLength content.length + 7) / 8) content.length) =
        content.length := by
      apply fromBytesBE_toBytesBE
      rw [pow_256]
      exact bitLength_le_iff.mp (by omega)
    simp only [if_neg hshort, List.cons_append, List.nil_append, List.append_assoc,
      length_toBytesBE]
    rw [decodeTlv_long front (toBytesBE _ _) content back htag hnot (by simpa using hcount)
      (by simpa using hk.1) (by simpa using hk.2) hread, length_toBytesBE]
    simp only [Except.ok.injEq, Prod.mk.injEq, true_and]
    omega

theorem decodeTlv_multiByte (content back : Bytes)
    (htag : tag &&& 0x1F = 0x1F) :
    ∃ e, decodeTlv (front ++ (encodeTlv tag content ++ back)) front.length = .error e := by
  have hne : encodeLength content.length ≠ [] := by
    rw [encodeLength]
    split_ifs <;> simp
  obtain ⟨first, rest, hfirst⟩ := List.exists_cons_of_ne_nil hne
  rw [decodeTlv, List.drop_left, encodeTlv, hfirst]
  simp only [List.cons_append, List.nil_append, if_pos htag, throw_eq]
  exact ⟨_, rfl⟩

/-! ### Object identifiers -/

/-- The number of bytes of a sub-identifier. -/
def subIdSize (subId : ℕ) : ℕ := 1 + (bitLength subId - 1) / 7

theorem bitLength_shiftRight (n : ℕ) : bitLength (n >>> 7) = bitLength n - 7 := by
  have hiff (k : ℕ) : bitLength (n >>> 7) ≤ k ↔ bitLength n ≤ k + 7 := by
    rw [bitLength_le_iff, bitLength_le_iff, Nat.shiftRight_eq_div_pow, pow_add]
    exact Nat.div_lt_iff_lt_mul (by norm_num)
  apply le_antisymm
  · rw [hiff]
    omega
  · have hself := (hiff _).mp le_rfl
    omega

theorem shiftLeft_seven_or {a b : ℕ} (h : b < 128) : a <<< 7 ||| b = 128 * a + b := by
  rw [← Nat.shiftLeft_add_eq_or_of_lt (show b < 2 ^ 7 from h), Nat.shiftLeft_eq]
  ring

theorem shiftRight_seven (n : ℕ) : n >>> 7 = n / 128 := Nat.shiftRight_eq_div_pow n 7

theorem and_127 (n : ℕ) : n &&& 0x7F = n % 128 := Nat.and_two_pow_sub_one_eq_mod n 7

theorem length_leadingGroups (h : n < 128 ^ fuel) :
    (leadingGroups fuel n).length = (bitLength n + 6) / 7 := by
  induction fuel generalizing n with
  | zero =>
    have hn : n = 0 := by simpa using h
    rw [hn]
    rfl
  | succ fuel ih =>
    rw [leadingGroups]
    split_ifs with hn
    · rw [hn]
      rfl
    · have hbits := bitLength_shiftRight n
      have hpos := bitLength_pos hn
      have hsmall : n >>> 7 < 128 ^ fuel := by
        rw [shiftRight_seven]
        rw [pow_succ] at h
        omega
      rw [List.length_append, ih hsmall, List.length_singleton, hbits]
      omega

theorem shiftRight_lt_fuel (n : ℕ) : n >>> 7 < 128 ^ bitLength n := by
  have hle : 2 ^ bitLength n ≤ 128 ^ bitLength n := Nat.pow_le_pow_left (by norm_num) _
  have hlt := lt_two_pow_bitLength n
  rw [shiftRight_seven]
  omega

@[simp] theorem length_encodeSubId (n : ℕ) : (encodeSubId n).length = subIdSize n := by
  rw [encodeSubId, List.length_append, length_leadingGroups (shiftRight_lt_fuel n),
    bitLength_shiftRight, List.length_singleton, subIdSize]
  omega

theorem more_byte (x : Fin 128) :
    (UInt8.ofNat (0x80 ||| x) &&& 0x7F).toNat = x ∧ UInt8.ofNat (0x80 ||| x) &&& 0x80 ≠ 0 ∧
      (UInt8.ofNat (0x80 ||| x) = 0x80 ↔ x = 0) := by
  revert x
  decide

theorem last_byte (x : Fin 128) :
    (UInt8.ofNat x &&& 0x7F).toNat = x ∧ UInt8.ofNat x &&& 0x80 = 0 ∧ UInt8.ofNat x ≠ 0x80 := by
  revert x
  decide

theorem decodeSubIds_more
    (hx : x < 128) (hstart : inSubId = false → x ≠ 0) (hmax : 128 * current + x ≤ maxSubId + 80) :
    decodeSubIds (UInt8.ofNat (0x80 ||| x) :: content) subIds current inSubId =
      decodeSubIds content subIds (128 * current + x) true := by
  obtain ⟨hlow, hhigh, hfirst⟩ := more_byte ⟨x, hx⟩
  have hne : ¬ ((!inSubId && decide (UInt8.ofNat (0x80 ||| x) = 0x80)) = true) := by
    intro h
    simp only [Bool.and_eq_true, Bool.not_eq_true', decide_eq_true_eq] at h
    have hzero := hfirst.mp h.2
    exact hstart h.1 (by simpa using congrArg Fin.val hzero)
  rw [decodeSubIds, if_neg hne]
  simp only at hlow hhigh
  rw [hlow, shiftLeft_seven_or hx, if_neg (by omega), if_pos hhigh]

theorem decodeSubIds_last (hx : x < 128) (hmax : 128 * current + x ≤ maxSubId + 80) :
    decodeSubIds (UInt8.ofNat x :: content) subIds current inSubId =
      decodeSubIds content (subIds ++ [128 * current + x]) 0 false := by
  obtain ⟨hlow, hhigh, hfirst⟩ := last_byte ⟨x, hx⟩
  have hne : ¬ ((!inSubId && decide (UInt8.ofNat x = 0x80)) = true) := by
    simp only at hfirst
    simp [hfirst]
  rw [decodeSubIds, if_neg hne]
  simp only at hlow hhigh
  rw [hlow, shiftLeft_seven_or hx, if_neg (by omega), if_neg (by simpa using hhigh)]

theorem decodeSubIds_leadingGroups (rest : Bytes) (subIds : List ℕ)
    (hfuel : n < 128 ^ fuel) (hmax : n ≤ maxSubId + 80) :
    decodeSubIds (leadingGroups fuel n ++ rest) subIds 0 false =
      decodeSubIds rest subIds n (decide (n ≠ 0)) := by
  induction fuel generalizing n rest with
  | zero =>
    have hn : n = 0 := by simpa using hfuel
    rw [hn]
    rfl
  | succ fuel ih =>
    rw [leadingGroups]
    split_ifs with hn
    · rw [hn]
      rfl
    · have hsmall : n >>> 7 < 128 ^ fuel := by
        rw [shiftRight_seven]
        rw [pow_succ] at hfuel
        omega
      have hmod : n % 128 < 128 := Nat.mod_lt n (by norm_num)
      have hsplit : 128 * (n >>> 7) + n % 128 = n := by
        rw [shiftRight_seven]
        omega
      rw [List.append_assoc, ih _ hsmall (by omega), and_127, List.singleton_append,
        decodeSubIds_more hmod _ (by omega), hsplit]
      · simp [hn]
      · intro hzero hmod
        simp only [ne_eq, decide_not, Bool.not_eq_false', decide_eq_true_eq] at hzero
        omega

/-- A sub-identifier is read back from between others. -/
theorem decodeSubIds_encodeSubId (rest : Bytes) (subIds : List ℕ)
    (hmax : n ≤ maxSubId + 80) :
    decodeSubIds (encodeSubId n ++ rest) subIds 0 false =
      decodeSubIds rest (subIds ++ [n]) 0 false := by
  have hmod : n % 128 < 128 := Nat.mod_lt n (by norm_num)
  have hsplit : 128 * (n >>> 7) + n % 128 = n := by
    rw [shiftRight_seven]
    omega
  rw [encodeSubId, List.append_assoc,
    decodeSubIds_leadingGroups _ _ (shiftRight_lt_fuel n) (by omega), and_127,
    List.singleton_append, decodeSubIds_last hmod (by omega), hsplit]

theorem decodeSubIds_flatMap (rest : List ℕ) (subIds : List ℕ)
    (hmax : ∀ subId ∈ rest, subId ≤ maxSubId) :
    decodeSubIds (rest.flatMap encodeSubId) subIds 0 false = .ok (subIds ++ rest) := by
  induction rest generalizing subIds with
  | nil => simp [decodeSubIds, return_eq]
  | cons subId rest ih =>
    have hhead : subId ≤ maxSubId := hmax subId (by simp)
    rw [List.flatMap_cons, decodeSubIds_encodeSubId _ _ (by omega),
      ih _ (fun other hother => hmax other (by simp [hother])), List.append_assoc,
      List.singleton_append]

/-- What was read so far stays, and no sub-identifier exceeds the first one's range. -/
theorem decodeSubIds_bound {result : List ℕ}
    (h : decodeSubIds content subIds current inSubId = .ok result) :
    (∀ subId ∈ subIds, subId ≤ maxSubId + 80) → ∀ subId ∈ result, subId ≤ maxSubId + 80 := by
  induction content generalizing subIds current inSubId with
  | nil =>
    rw [decodeSubIds] at h
    split_ifs at h
    cases h
    exact id
  | cons byte content ih =>
    intro hbound
    rw [decodeSubIds] at h
    simp only at h
    split_ifs at h with hshort hbig hmore
    · exact ih h hbound
    · apply ih h
      intro subId hmem
      rcases List.mem_append.mp hmem with hold | hnew
      · exact hbound subId hold
      · rw [List.mem_singleton.mp hnew]
        omega

/-- An identifier that can be written. -/
def ValidOid : Oid → Prop
  | first :: second :: rest =>
    first ∈ [0, 1, 2] ∧ 0 ≤ second ∧ (first < 2 → second ≤ 39) ∧ second ≤ maxSubId ∧
      ∀ subId ∈ rest, 0 ≤ subId ∧ subId ≤ maxSubId
  | _ => False

instance (oid : Oid) : Decidable (ValidOid oid) :=
  match oid with
  | [] => inferInstanceAs (Decidable False)
  | [_] => inferInstanceAs (Decidable False)
  | first :: second :: rest =>
    inferInstanceAs (Decidable (first ∈ [0, 1, 2] ∧ 0 ≤ second ∧ (first < 2 → second ≤ 39) ∧
      second ≤ maxSubId ∧ ∀ subId ∈ rest, 0 ≤ subId ∧ subId ≤ maxSubId))

/-- The written form of an identifier. -/
def oidContent : Oid → Bytes
  | first :: second :: rest =>
    encodeSubId (first * 40 + second).toNat ++
      (rest.map Int.toNat).flatMap encodeSubId
  | _ => []

/-- The number of bytes of an identifier. -/
def oidSize : Oid → ℕ
  | first :: second :: rest =>
    subIdSize (first * 40 + second).toNat +
      (rest.map (fun subId => subIdSize subId.toNat)).sum
  | _ => 0

@[simp] theorem length_oidContent (oid : Oid) : (oidContent oid).length = oidSize oid := by
  rcases oid with _ | ⟨first, _ | ⟨second, rest⟩⟩
  · rfl
  · rfl
  · rw [oidContent, oidSize, List.length_append, length_encodeSubId, List.length_flatMap,
      List.map_map]
    congr 2
    simp [Function.comp_def]

theorem encodeOid_of_valid (h : ValidOid oid) : encodeOid oid = .ok (oidContent oid) := by
  rcases oid with _ | ⟨first, _ | ⟨second, rest⟩⟩
  · cases h
  · cases h
  · obtain ⟨hfirst, hsecond, hsmall, hmax, hrest⟩ := h
    rw [encodeOid, if_neg, if_neg, return_eq, oidContent, List.flatMap_map]
    · push Not
      exact ⟨hmax, hrest⟩
    · push Not
      exact ⟨hfirst, hsecond, hsmall⟩

theorem encodeOid_of_not_valid (h : ¬ ValidOid oid) : ∃ e, encodeOid oid = .error e := by
  rcases oid with _ | ⟨first, _ | ⟨second, rest⟩⟩
  · exact ⟨_, rfl⟩
  · exact ⟨_, rfl⟩
  · rw [encodeOid]
    split_ifs with hfirst hrest
    · exact ⟨_, rfl⟩
    · exact ⟨_, rfl⟩
    · push Not at hfirst hrest
      exact absurd ⟨hfirst.1, hfirst.2.1, hfirst.2.2, hrest.1, hrest.2⟩ h

/-- **An identifier that can be written is read back.** -/
theorem decodeOid_oidContent (h : ValidOid oid) : decodeOid (oidContent oid) = .ok oid := by
  rcases oid with _ | ⟨first, _ | ⟨second, rest⟩⟩
  · cases h
  · cases h
  · obtain ⟨hfirst, hsecond, hsmall, hmax, hrest⟩ := h
    have hcases : first = 0 ∨ first = 1 ∨ first = 2 := by simpa using hfirst
    have hne : oidContent (first :: second :: rest) ≠ [] := by
      rw [oidContent, encodeSubId]
      simp
    have hbound : ∀ subId ∈ rest.map Int.toNat, subId ≤ maxSubId := by
      intro subId hmem
      obtain ⟨original, horiginal, hsub⟩ := List.mem_map.mp hmem
      have := hrest original horiginal
      omega
    have hback : (rest.map Int.toNat).map (fun subId : ℕ => (subId : ℤ)) = rest := by
      rw [List.map_map]
      conv_rhs => rw [← List.map_id rest]
      apply List.map_congr_left
      intro subId hmem
      exact Int.toNat_of_nonneg (hrest subId hmem).1
    rw [decodeOid, if_neg hne, oidContent, decodeSubIds_encodeSubId _ _ (by omega),
      decodeSubIds_flatMap _ _ hbound, ok_bind]
    simp only [List.nil_append, List.singleton_append]
    rw [if_neg, hback, return_eq]
    · congr 3 <;> omega
    · push Not
      exact hbound

/-- **An identifier that was read can be written.** -/
theorem valid_of_decodeOid (h : decodeOid content = .ok oid) :
    ValidOid oid := by
  rw [decodeOid] at h
  split_ifs at h with hempty
  obtain ⟨subIds, hread, h⟩ := bind_eq_ok.mp h
  have hbound := decodeSubIds_bound hread (by simp)
  rcases subIds with _ | ⟨joined, rest⟩
  · cases h
  · simp only at h
    split_ifs at h with hrest
    cases h
    have hjoined : joined ≤ maxSubId + 80 := hbound joined (by simp)
    have hmax : maxSubId = 0xFFFFFFFF := rfl
    push Not at hrest
    refine ⟨?_, ?_, ?_, ?_, ?_⟩
    · simp only [List.mem_cons, List.not_mem_nil, or_false]
      omega
    · omega
    · omega
    · omega
    · intro subId hmem
      obtain ⟨original, horiginal, hsub⟩ := List.mem_map.mp hmem
      have := hrest original horiginal
      omega

/-! ### Integers -/

theorem integerSize_le_iff {value : ℤ} :
    integerSize value ≤ k + 1 ↔ -2 ^ (8 * k + 7) ≤ value ∧ value < 2 ^ (8 * k + 7) := by
  have hpos : (0 : ℤ) < 2 ^ (8 * k + 7) := by positivity
  have hdiv (n : ℕ) : (n + 8) / 8 ≤ k + 1 ↔ n ≤ 8 * k + 7 := by omega
  rw [integerSize, hdiv, bitLength_le_iff]
  zify
  split_ifs with hsign
  · rw [abs_of_nonneg hsign]
    omega
  · rw [abs_of_nonpos (by omega)]
    omega

theorem integerSize_le_eight {value : ℤ} :
    integerSize value ≤ maxIntegerBytes ↔ -2 ^ 63 ≤ value ∧ value < 2 ^ 63 :=
  integerSize_le_iff (k := 7)

theorem integerSize_pos (value : ℤ) : 0 < integerSize value := by
  rw [integerSize]
  omega

theorem fromBytesSignedBE_encodeInteger (value : ℤ) :
    fromBytesSignedBE (encodeInteger value) = value := by
  obtain ⟨k, hk⟩ : ∃ k, integerSize value = k + 1 := ⟨integerSize value - 1, by
    have := integerSize_pos value
    omega⟩
  obtain ⟨hlow, hhigh⟩ := integerSize_le_iff.mp hk.le
  have hpow : (256 : ℤ) ^ (k + 1) = 2 * 2 ^ (8 * k + 7) := by
    rw [show (256 : ℤ) = 2 ^ 8 from rfl, ← pow_mul, ← pow_succ']
    congr 1
  rw [encodeInteger, hk]
  apply fromBytesSignedBE_toBytesSignedBE <;> rw [hpow] <;> omega

theorem unsignedSize_le_iff : unsignedSize n ≤ k + 1 ↔ n < 2 ^ (8 * k + 7) := by
  rw [unsignedSize, ← bitLength_le_iff]
  omega

theorem unsignedSize_le_nine : unsignedSize n ≤ maxUnsignedBytes ↔ n < 2 ^ 71 :=
  unsignedSize_le_iff (k := 8)

theorem unsignedSize_pos (n : ℕ) : 0 < unsignedSize n := by
  rw [unsignedSize]
  omega

theorem fromBytesBE_unsigned (n : ℕ) : fromBytesBE (toBytesBE (unsignedSize n) n) = n := by
  apply fromBytesBE_toBytesBE
  rw [pow_256, ← bitLength_le_iff, unsignedSize]
  omega

/-! ### Values -/

/-- A tag under which the content is any bytes. -/
def Plain (tag : UInt8) : Prop :=
  tag ≠ tagInteger ∧ tag ∉ unsignedTags ∧ tag ≠ tagOid ∧ ¬ (tag = tagNull ∨ tag ∈ exceptionTags)

/-- The values that can be written. -/
inductive Wellformed : SnmpValue → Prop where
  | integer (i : ℤ) : Wellformed ⟨tagInteger, .int i⟩
  | unsigned {tag : UInt8} (htag : tag ∈ unsignedTags) (n : ℕ) : Wellformed ⟨tag, .int n⟩
  | oid {oid : Oid} (hoid : ValidOid oid) : Wellformed ⟨tagOid, .oid oid⟩
  | empty {tag : UInt8} (htag : tag = tagNull ∨ tag ∈ exceptionTags) (content : Content) :
      Wellformed ⟨tag, content⟩
  | bytes {tag : UInt8} (htag : Plain tag) (b : Bytes) : Wellformed ⟨tag, .bytes b⟩

/-- The written content of a value. -/
def valueContent (value : SnmpValue) : Bytes :=
  if value.tag = tagNull ∨ value.tag ∈ exceptionTags then []
  else
    match value.value with
    | .int i =>
      if value.tag = tagInteger then encodeInteger i
      else toBytesBE (unsignedSize i.toNat) i.toNat
    | .oid oid => oidContent oid
    | .bytes b => b
    | _ => []

/-- The number of bytes of a value's content. -/
def valueSize (value : SnmpValue) : ℕ :=
  if value.tag = tagNull ∨ value.tag ∈ exceptionTags then 0
  else
    match value.value with
    | .int i => if value.tag = tagInteger then integerSize i else unsignedSize i.toNat
    | .oid oid => oidSize oid
    | .bytes b => b.length
    | _ => 0

@[simp] theorem length_valueContent (value : SnmpValue) :
    (valueContent value).length = valueSize value := by
  rw [valueContent, valueSize]
  by_cases hempty : value.tag = tagNull ∨ value.tag ∈ exceptionTags
  · rw [if_pos hempty, if_pos hempty]
    rfl
  · rw [if_neg hempty, if_neg hempty]
    cases value.value with
    | int i =>
      by_cases htag : value.tag = tagInteger
      · simp only [if_pos htag]
        exact length_toBytesSignedBE _ _
      · simp only [if_neg htag]
        exact length_toBytesBE _ _
    | oid oid => exact length_oidContent oid
    | bytes b => rfl
    | bool b => rfl
    | none => rfl

theorem unsigned_tag_ne (h : tag ∈ unsignedTags) :
    tag ≠ tagInteger ∧ tag ≠ tagOid ∧ ¬ (tag = tagNull ∨ tag ∈ exceptionTags) := by
  simp only [unsignedTags, List.mem_cons, List.not_mem_nil, or_false] at h
  rcases h with rfl | rfl | rfl | rfl <;> decide

theorem empty_tag_ne (h : tag = tagNull ∨ tag ∈ exceptionTags) :
    tag ≠ tagInteger ∧ tag ∉ unsignedTags ∧ tag ≠ tagOid := by
  simp only [exceptionTags, List.mem_cons, List.not_mem_nil, or_false] at h
  rcases h with rfl | rfl | rfl | rfl <;> decide

theorem encodeValue_of_wellformed (h : Wellformed value) :
    encodeValue value = .ok (encodeTlv value.tag (valueContent value)) := by
  cases h with
  | integer i => rfl
  | unsigned htag n =>
    obtain ⟨hint, hoid, hempty⟩ := unsigned_tag_ne htag
    simp only [encodeValue, valueContent, if_neg hint, if_pos htag, if_neg hempty, encodeUnsigned]
    rw [if_neg (by omega)]
    rfl
  | oid hoid =>
    simp only [encodeValue, encodeOid_of_valid hoid]
    rfl
  | empty htag content =>
    obtain ⟨hint, hunsigned, hoid⟩ := empty_tag_ne htag
    simp only [encodeValue, valueContent, if_neg hint, if_neg hunsigned, if_neg hoid, if_pos htag]
    rfl
  | bytes htag b =>
    obtain ⟨hint, hunsigned, hoid, hempty⟩ := htag
    simp only [encodeValue, valueContent, if_neg hint, if_neg hunsigned, if_neg hoid,
      if_neg hempty]
    rfl

theorem wellformed_of_encodeValue {written : Bytes}
    (h : encodeValue value = .ok written) : Wellformed value := by
  obtain ⟨tag, content⟩ := value
  simp only [encodeValue] at h
  split_ifs at h with hint hunsigned hoid hempty
  · subst hint
    cases content with
    | int i => exact .integer i
    | _ => cases h
  · cases content with
    | int i =>
      obtain ⟨bytes, hbytes, h⟩ := bind_eq_ok.mp h
      rw [encodeUnsigned] at hbytes
      split_ifs at hbytes with hneg
      obtain ⟨n, rfl⟩ := Int.eq_ofNat_of_zero_le (Int.not_lt.mp hneg)
      exact .unsigned hunsigned n
    | _ => cases h
  · subst hoid
    cases content with
    | oid oid =>
      obtain ⟨bytes, hbytes, h⟩ := bind_eq_ok.mp h
      by_cases hvalid : ValidOid oid
      · exact .oid hvalid
      · obtain ⟨e, he⟩ := encodeOid_of_not_valid hvalid
        rw [he] at hbytes
        cases hbytes
    | _ => cases h
  · exact .empty hempty content
  · cases content with
    | bytes b => exact .bytes ⟨hint, hunsigned, hoid, hempty⟩ b
    | _ => cases h

/-- A value in the reader's range: a single-byte tag, an INTEGER of eight bytes, an
unsigned integer of nine bytes with its top bit clear. -/
def Readable (value : SnmpValue) : Prop :=
  value.tag &&& 0x1F ≠ 0x1F ∧
    ∀ i, value.value = .int i →
      (value.tag = tagInteger → -2 ^ 63 ≤ i ∧ i < 2 ^ 63) ∧
        (value.tag ∈ unsignedTags → i < 2 ^ 71)

/-- What the reader makes of a written value: a value without content has none. -/
def carried (value : SnmpValue) : SnmpValue :=
  if value.tag = tagNull ∨ value.tag ∈ exceptionTags then { tag := value.tag } else value

/-- **A written value is read back if its integer is in range.** -/
theorem decodeValue_valueContent (hwell : Wellformed value)
    (hread : Readable value) :
    decodeValue value.tag (valueContent value) = .ok (carried value) := by
  cases hwell with
  | integer i =>
    obtain ⟨hlow, hhigh⟩ := (hread.2 i rfl).1 rfl
    have hsize : integerSize i ≤ maxIntegerBytes := integerSize_le_eight.mpr ⟨hlow, hhigh⟩
    have hpos := integerSize_pos i
    have hlen : (encodeInteger i).length = integerSize i := length_toBytesSignedBE _ _
    show decodeValue tagInteger (encodeInteger i) = .ok ⟨tagInteger, .int i⟩
    rw [decodeValue, if_pos rfl, if_neg, fromBytesSignedBE_encodeInteger, return_eq]
    rintro (hnil | hlong)
    · rw [hnil] at hlen
      simp only [List.length_nil] at hlen
      omega
    · omega
  | unsigned htag n =>
    obtain ⟨hint, hoid, hempty⟩ := unsigned_tag_ne htag
    have hmax := (hread.2 n rfl).2 htag
    have hsize : unsignedSize n ≤ maxUnsignedBytes :=
      unsignedSize_le_nine.mpr (by exact_mod_cast hmax)
    have hpos := unsignedSize_pos n
    simp only [decodeValue, valueContent, carried, if_neg hint, if_pos htag, if_neg hempty,
      Int.toNat_natCast, length_toBytesBE, fromBytesBE_unsigned]
    rw [if_neg, return_eq]
    rintro (hnil | hlong)
    · have hlen := congrArg List.length hnil
      rw [length_toBytesBE, List.length_nil] at hlen
      omega
    · omega
  | oid hoid =>
    show decodeValue tagOid (oidContent _) = .ok _
    simp only [decodeValue, decodeOid_oidContent hoid]
    rfl
  | empty htag content =>
    obtain ⟨hint, hunsigned, hoid⟩ := empty_tag_ne htag
    simp only [decodeValue, valueContent, carried, if_neg hint, if_neg hunsigned, if_neg hoid,
      if_pos htag]
    rfl
  | bytes htag b =>
    obtain ⟨hint, hunsigned, hoid, hempty⟩ := htag
    simp only [decodeValue, valueContent, carried, if_neg hint, if_neg hunsigned, if_neg hoid,
      if_neg hempty]
    rfl

theorem decodeValue_out_of_range (hwell : Wellformed value)
    (htag : value.tag &&& 0x1F ≠ 0x1F) (hread : ¬ Readable value) :
    ∃ e, decodeValue value.tag (valueContent value) = .error e := by
  cases hwell with
  | integer i =>
    have hsize : ¬ integerSize i ≤ maxIntegerBytes := by
      intro hle
      apply hread
      refine ⟨htag, fun j hj => ⟨fun _ => ?_, fun hmem => absurd rfl (unsigned_tag_ne hmem).1⟩⟩
      cases hj
      exact integerSize_le_eight.mp hle
    have hlen : (encodeInteger i).length = integerSize i := length_toBytesSignedBE _ _
    show ∃ e, decodeValue tagInteger (encodeInteger i) = .error e
    rw [decodeValue, if_pos rfl, if_pos (Or.inr (by omega))]
    exact ⟨_, rfl⟩
  | unsigned hmem n =>
    obtain ⟨hint, hoid, hempty⟩ := unsigned_tag_ne hmem
    have hsize : ¬ unsignedSize n ≤ maxUnsignedBytes := by
      intro hle
      apply hread
      refine ⟨htag, fun j hj => ⟨fun heq => absurd heq hint, fun _ => ?_⟩⟩
      cases hj
      exact_mod_cast unsignedSize_le_nine.mp hle
    simp only [decodeValue, valueContent, if_neg hint, if_pos hmem, if_neg hempty,
      Int.toNat_natCast, length_toBytesBE]
    rw [if_pos (Or.inr (by omega))]
    exact ⟨_, rfl⟩
  | oid hoid | bytes hplain b => exact absurd ⟨htag, fun j hj => by cases hj⟩ hread
  | empty hempty content =>
    obtain ⟨hint, hunsigned, hoid⟩ := empty_tag_ne hempty
    exact absurd ⟨htag, fun j _ => ⟨fun h => absurd h hint, fun h => absurd h hunsigned⟩⟩ hread

/-- A value that was read can be written, and it holds no more than its tag shows. -/
theorem wellformed_of_decodeValue
    (h : decodeValue tag content = .ok value) :
    Wellformed value ∧ value.tag = tag ∧ carried value = value ∧
      (value.tag = tagInteger → ∀ i, value.value = .int i → -2 ^ 63 ≤ i ∧ i < 2 ^ 63) := by
  rw [decodeValue] at h
  split_ifs at h with hint hlen hunsigned hlen hoid hempty hcontent
  · cases h
    subst hint
    refine ⟨.integer _, rfl, rfl, fun _ i hi => ?_⟩
    cases hi
    push Not at hlen
    have hbounds := fromBytesSignedBE_bounds content
    have hpow : (256 : ℤ) ^ content.length ≤ 256 ^ 8 := pow_le_pow_right₀ (by norm_num) hlen.2
    norm_num at hpow ⊢
    omega
  · cases h
    obtain ⟨-, -, hempty⟩ := unsigned_tag_ne hunsigned
    refine ⟨.unsigned hunsigned _, rfl, ?_, fun heq => absurd heq hint⟩
    rw [carried, if_neg hempty]
  · subst hoid
    obtain ⟨oid, hoid, h⟩ := bind_eq_ok.mp h
    cases h
    exact ⟨.oid (valid_of_decodeOid hoid), rfl, rfl, fun heq => absurd heq hint⟩
  · cases h
    refine ⟨.empty hempty _, rfl, ?_, fun heq => absurd heq hint⟩
    rw [carried, if_pos hempty]
  · cases h
    refine ⟨.bytes ⟨hint, hunsigned, hoid, hempty⟩ content, rfl, ?_, fun heq => absurd heq hint⟩
    rw [carried, if_neg hempty]

end RtfmEv.Snmp
