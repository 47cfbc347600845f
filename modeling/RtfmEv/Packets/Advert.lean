import RtfmEv.Lib.Utf8
import RtfmEv.Primitives

/-!
# What of an advert is signed (`parse_advertisement`, `verify_advert_signature`)

The signature covers the public key, the timestamp and at most 32 bytes of app data. The parser
reads the name to the end of the payload. Where the app data is longer than what is signed, the
name goes on past it, unless it ended before.
-/

namespace RtfmEv.Decoder

open RtfmEv.Lib RtfmEv.Lib.Utf8

/-! ### The source -/

structure ParsedAdvertisement where
  publicKey : List Char
  timestamp : ℕ
  name : Option (List Char)
  lat : Option ℚ
  lon : Option ℚ
  deviceRole : ℕ
  deriving DecidableEq

/-- A signed little-endian integer of four bytes. -/
def fromBytesSigned (b : Bytes) : ℤ :=
  if fromBytesLE b < 2 ^ 31 then fromBytesLE b else fromBytesLE b - 2 ^ 32

def isValidAdvertLocation (lat lon : ℚ) : Bool :=
  -90 ≤ lat && lat ≤ 90 && -180 ≤ lon && lon ≤ 180

def stripText (s : List Char) : List Char := (lstripChars (lstripChars s).reverse).reverse

/-- `str.isalnum`, for one character: ASCII letters and digits, and what the Unicode tables say of
the others. -/
def isAlnum (otherAlnum : Char → Bool) (c : Char) : Bool := c.isAlphanum || otherAlnum c

/-- The name in the bytes behind the other fields. -/
def parseName (otherAlnum : Char → Bool) (nameBytes : Bytes) : Option (List Char) :=
  let name := decodeIgnore nameBytes
  let name := name.takeWhile (fun c => c != Char.ofNat 0)
  let name := stripText (name.filter (fun c => 32 ≤ c.toNat || c = '\t'))
  if name = [] || !name.any (isAlnum otherAlnum) then none else some name

/-- The place behind the location and the two features. -/
def nameOffset (flags : ℕ) : ℕ :=
  101 + (if flags &&& 0x10 ≠ 0 then 8 else 0) + (if flags &&& 0x20 ≠ 0 then 2 else 0) +
    (if flags &&& 0x40 ≠ 0 then 2 else 0)

def parseAdvertisement (otherAlnum : Char → Bool) (payload : Bytes) :
    Option ParsedAdvertisement :=
  match payload[100]? with
  | none => none
  | some b =>
    let publicKey := toHex (slice payload 0 32)
    let timestamp := fromBytesLE (slice payload 32 36)
    let flags := b.toNat
    let deviceRole := if flags &&& 0x0F > 4 then 0 else flags &&& 0x0F
    let hasLocation := flags &&& 0x10 ≠ 0
    let hasName := flags &&& 0x80 ≠ 0
    if hasLocation ∧ payload.length < 101 + 8 then
      some ⟨publicKey, timestamp, none, none, none, deviceRole⟩
    else
      let lat := (fromBytesSigned (slice payload 101 105) : ℚ) / 1000000
      let lon := (fromBytesSigned (slice payload 105 109) : ℚ) / 1000000
      let located := decide hasLocation && isValidAdvertLocation lat lon
      let offset := nameOffset flags
      let name :=
        if hasName ∧ offset < payload.length then parseName otherAlnum (payload.drop offset)
        else none
      some ⟨publicKey, timestamp, name, if located then some lat else none,
        if located then some lon else none, deviceRole⟩

def advertMaxAppDataSize : ℕ := 32

def advertHeaderSize : ℕ := 100

/-- The message that the signature is checked over. -/
def signedMessage (payload : Bytes) : Bytes :=
  let appDataLen := min (payload.length - advertHeaderSize) advertMaxAppDataSize
  slice payload 0 36 ++ slice payload advertHeaderSize (advertHeaderSize + appDataLen)

def advertSignature (payload : Bytes) : Bytes := slice payload 36 advertHeaderSize

def verifyAdvertSignature (P : Primitives) (payload : Bytes) : Bool :=
  if payload.length < advertHeaderSize then false
  else P.verifyKey (slice payload 0 32) (signedMessage payload) (advertSignature payload)

/-! ### Adverts over one signed message -/

/-- Two payloads for which the same signature is checked over the same message. -/
structure SignedAlike (p q : Bytes) : Prop where
  checked : advertHeaderSize ≤ p.length
  checked' : advertHeaderSize ≤ q.length
  message : signedMessage p = signedMessage q
  signature : advertSignature p = advertSignature q

/-- The contact in an advert is fixed by what is signed of it. -/
def FixedBySignature (otherAlnum : Char → Bool) (p : Bytes) : Prop :=
  ∀ q, SignedAlike p q → parseAdvertisement otherAlnum p = parseAdvertisement otherAlnum q

/-- The app data is shorter than what can be signed, or the advert has no name, or the name has
ended before the signed part does. -/
def NameIsSigned (p : Bytes) : Prop :=
  p.length < advertHeaderSize + advertMaxAppDataSize ∨
    ∀ b, p[100]? = some b → b.toNat &&& 0x80 = 0 ∨
      (0 : UInt8) ∈ slice p (nameOffset b.toNat) (advertHeaderSize + advertMaxAppDataSize)

/-! ### The signed bytes -/

variable {α : Type*} (otherAlnum : Char → Bool) {p q s : Bytes}

theorem slice_eq_take (b : List α) (i n : ℕ) :
    slice b i (i + min (b.length - i) n) = (b.drop i).take n := by
  rw [slice, Nat.add_sub_cancel_left, ← List.length_drop, List.take_eq_take_iff]
  omega

theorem signedAlike_iff :
    SignedAlike p q ↔ 100 ≤ p.length ∧ 100 ≤ q.length ∧ p.take 132 = q.take 132 := by
  have hmessage : ∀ b : Bytes, signedMessage b = b.take 36 ++ (b.drop 100).take 32 := by
    intro b
    rw [signedMessage, advertHeaderSize, advertMaxAppDataSize, slice_eq_take]
    rfl
  have hsplit : ∀ b : Bytes, b.take 132 = b.take 36 ++ (b.drop 36).take 64 ++ (b.drop 100).take 32 := by
    intro b
    rw [show 132 = 100 + 32 from rfl, List.take_add, show 100 = 36 + 64 from rfl, List.take_add]
  have hlength : ∀ b : Bytes, 100 ≤ b.length →
      (b.take 36).length = 36 ∧ ((b.drop 36).take 64).length = 64 := by
    intro b hb
    rw [List.length_take, List.length_take, List.length_drop]
    omega
  constructor
  · rintro ⟨hp, hq, hsame, hsignature⟩
    refine ⟨hp, hq, ?_⟩
    rw [hmessage, hmessage] at hsame
    obtain ⟨hhead, happ⟩ := List.append_inj hsame
      ((hlength p hp).1.trans (hlength q hq).1.symm)
    have hmiddle : (p.drop 36).take 64 = (q.drop 36).take 64 := hsignature
    rw [hsplit, hsplit, hhead, happ, hmiddle]
  · rintro ⟨hp, hq, hsame⟩
    rw [hsplit, hsplit] at hsame
    obtain ⟨hfront, happ⟩ := List.append_inj hsame (by
      rw [List.length_append, List.length_append, (hlength p hp).1, (hlength p hp).2,
        (hlength q hq).1, (hlength q hq).2])
    obtain ⟨hhead, hmiddle⟩ := List.append_inj hfront
      ((hlength p hp).1.trans (hlength q hq).1.symm)
    refine ⟨hp, hq, ?_, hmiddle⟩
    rw [hmessage, hmessage, hhead, happ]

/-- Where the app data is shorter than what can be signed, all of it is. -/
theorem eq_of_signedAlike (h : SignedAlike p q) (hshort : p.length < 132) : q = p := by
  obtain ⟨-, -, hsame⟩ := signedAlike_iff.mp h
  rw [List.take_of_length_le hshort.le] at hsame
  have hlength := congrArg List.length hsame
  rw [List.length_take] at hlength
  rw [hsame, List.take_of_length_le (by omega)]

/-! ### The name -/

theorem nameOffset_le (flags : ℕ) : nameOffset flags ≤ 113 := by
  unfold nameOffset
  split_ifs <;> omega

/-- What an advert says whose app data is as long as can be signed. -/
def signedContact (x : Bytes) (name : Option (List Char)) (flags : ℕ) : ParsedAdvertisement :=
  let lat := (fromBytesSigned (slice x 101 105) : ℚ) / 1000000
  let lon := (fromBytesSigned (slice x 105 109) : ℚ) / 1000000
  let located := decide (flags &&& 0x10 ≠ 0) && isValidAdvertLocation lat lon
  ⟨toHex (slice x 0 32), fromBytesLE (slice x 32 36), name, if located then some lat else none,
    if located then some lon else none, if flags &&& 0x0F > 4 then 0 else flags &&& 0x0F⟩

theorem slice_append_left {a : List α} (b : List α) {i j : ℕ} (hj : j ≤ a.length) :
    slice (a ++ b) i j = slice a i j := by
  by_cases hi : i ≤ a.length
  · rw [slice, slice, List.drop_append_of_le_length hi,
      List.take_append_of_le_length (by rw [List.length_drop]; omega)]
  · have hnone : j - i = 0 := by omega
    rw [slice, slice, hnone, List.take_zero, List.take_zero]

/-- **Behind the signed bytes there is only the rest of the name.** -/
theorem parseAdvertisement_append {x : Bytes} (hx : x.length = 132)
    {b : UInt8} (hb : x[100]? = some b) (t : Bytes) :
    parseAdvertisement otherAlnum (x ++ t) =
      some (signedContact x (if b.toNat &&& 0x80 ≠ 0 then
        parseName otherAlnum (x.drop (nameOffset b.toNat) ++ t) else none) b.toNat) := by
  have hflags : (x ++ t)[100]? = some b := by
    rw [List.getElem?_append_left (by omega), hb]
  have hoffset := nameOffset_le b.toNat
  have hdrop : (x ++ t).drop (nameOffset b.toNat) = x.drop (nameOffset b.toNat) ++ t :=
    List.drop_append_of_le_length (by omega)
  have hlong : (x ++ t).length = 132 + t.length := by rw [List.length_append, hx]
  have hname : (b.toNat &&& 0x80 ≠ 0 ∧ nameOffset b.toNat < (x ++ t).length) ↔
      b.toNat &&& 0x80 ≠ 0 := ⟨fun h => h.1, fun h => ⟨h, by omega⟩⟩
  unfold parseAdvertisement
  rw [hflags]
  simp only
  rw [if_neg (by omega), hdrop]
  simp only [hname]
  rw [slice_append_left t (by omega), slice_append_left t (by omega),
    slice_append_left t (by omega), slice_append_left t (by omega)]
  rfl

theorem parseName_of_zero (hs : (0 : UInt8) ∈ s)
    (t t' : Bytes) : parseName otherAlnum (s ++ t) = parseName otherAlnum (s ++ t') := by
  obtain ⟨before, after, rfl⟩ := List.append_of_mem hs
  have hcut : ∀ t : Bytes, (decodeIgnore (before ++ 0 :: after ++ t)).takeWhile
      (fun c => c != Char.ofNat 0) =
        (decodeIgnore before).takeWhile (fun c => c != Char.ofNat 0) := by
    intro t
    rw [List.append_assoc, List.cons_append, decodeIgnore_append (by decide)]
    refine takeWhile_append_of_head (fun c hc => ?_) _
    obtain rfl := Option.some.inj hc
    rfl
  unfold parseName
  simp only [hcut]

theorem dropWhile_append_singleton {p : α → Bool} {a : α} (ha : p a = false)
    (l : List α) : ∃ l', (l ++ [a]).dropWhile p = l' ++ [a] := by
  induction l with
  | nil => exact ⟨[], by simp [ha]⟩
  | cons b l ih =>
    cases hb : p b with
    | true =>
      obtain ⟨l', hl'⟩ := ih
      exact ⟨l', by rw [List.cons_append, List.dropWhile_cons_of_pos hb, hl']⟩
    | false => exact ⟨b :: l, by simp [hb]⟩

theorem stripText_append {c : Char} (hc : isSpaceChar c = false) (l : List Char) :
    ∃ l', stripText (l ++ [c]) = l' ++ [c] := by
  obtain ⟨l', hl'⟩ := dropWhile_append_singleton hc l
  refine ⟨l', ?_⟩
  have hleft : lstripChars (l ++ [c]) = l' ++ [c] := hl'
  rw [stripText, hleft, List.reverse_append, List.reverse_singleton, List.singleton_append,
    lstripChars, List.dropWhile_cons_of_neg (by simp [hc]), List.reverse_cons,
    List.reverse_reverse]

/-- A letter behind a name without NUL is the last of the name. -/
theorem parseName_append (hs : (0 : UInt8) ∉ s) {a : UInt8}
    (hascii : a.toNat < 0x80) (hletter : (Char.ofNat a.toNat).isAlphanum = true)
    (hspace : isSpaceChar (Char.ofNat a.toNat) = false) (hcontrol : 32 ≤ (Char.ofNat a.toNat).toNat)
    (hnul : Char.ofNat a.toNat ≠ Char.ofNat 0) :
    ∃ l, parseName otherAlnum (s ++ [a]) = some (l ++ [Char.ofNat a.toNat]) := by
  have hdecoded : decodeIgnore (s ++ [a]) = decodeIgnore s ++ [Char.ofNat a.toNat] :=
    decodeIgnore_append hascii s []
  have hwhole : (decodeIgnore (s ++ [a])).takeWhile (fun c => c != Char.ofNat 0) =
      decodeIgnore s ++ [Char.ofNat a.toNat] := by
    rw [hdecoded]
    refine List.takeWhile_eq_self_iff.mpr ?_
    intro c hc
    rw [bne_iff_ne]
    rcases List.mem_append.mp hc with hc | hc
    · rintro rfl
      exact nul_not_mem_decodeIgnore hs hc
    · rw [List.mem_singleton.mp hc]
      exact hnul
  obtain ⟨l, hl⟩ := stripText_append hspace
    ((decodeIgnore s).filter (fun c => 32 ≤ c.toNat || c = '\t'))
  refine ⟨l, ?_⟩
  unfold parseName
  simp only [hwhole, List.filter_append]
  rw [List.filter_cons_of_pos (by simp [hcontrol]), List.filter_nil, hl, if_neg]
  simp [isAlnum, hletter]

/-! ### Which adverts are fixed -/

/-- **What is stored of an advert is fixed by what is signed of it** exactly where its name is
signed. -/
theorem fixedBySignature_iff (otherAlnum : Char → Bool) (p : Bytes) :
    FixedBySignature otherAlnum p ↔ NameIsSigned p := by
  have hmax : advertHeaderSize + advertMaxAppDataSize = 132 := rfl
  unfold NameIsSigned
  rw [hmax]
  by_cases hshort : p.length < 132
  · refine iff_of_true ?_ (Or.inl hshort)
    intro q hq
    rw [eq_of_signedAlike hq hshort]
  · simp only [hshort, false_or]
    have hx : (p.take 132).length = 132 := by
      rw [List.length_take]
      omega
    obtain ⟨b, hb⟩ : ∃ b, (p.take 132)[100]? = some b :=
      ⟨_, List.getElem?_eq_getElem (by omega)⟩
    have hflags : p[100]? = some b := by
      rw [List.getElem?_take_of_lt (by omega)] at hb
      exact hb
    have hwhole : p = p.take 132 ++ p.drop 132 := (List.take_append_drop 132 p).symm
    have hsigned : slice p (nameOffset b.toNat) 132 = (p.take 132).drop (nameOffset b.toNat) := by
      rw [slice, List.drop_take]
    constructor
    · intro hfixed b' hb'
      obtain rfl := Option.some.inj (hflags.symm.trans hb')
      by_contra hneither
      obtain ⟨hname, hzero⟩ := not_or.mp hneither
      rw [hsigned] at hzero
      have halike : ∀ t, SignedAlike p (p.take 132 ++ t) := by
        intro t
        refine signedAlike_iff.mpr ⟨by omega, by rw [List.length_append]; omega, ?_⟩
        rw [List.take_append_of_le_length hx.ge, List.take_of_length_le hx.le]
      -- two letters behind the signed bytes give two names
      have hsame := (hfixed _ (halike [0x41])).symm.trans (hfixed _ (halike [0x42]))
      rw [parseAdvertisement_append otherAlnum hx hb, parseAdvertisement_append otherAlnum hx hb,
        if_pos hname, if_pos hname] at hsame
      have hnames := congrArg ParsedAdvertisement.name (Option.some.inj hsame)
      obtain ⟨l, hl⟩ := parseName_append otherAlnum hzero (a := 0x41) (by decide) (by decide)
        (by decide) (by decide) (by decide)
      obtain ⟨l', hl'⟩ := parseName_append otherAlnum hzero (a := 0x42) (by decide) (by decide)
        (by decide) (by decide) (by decide)
      have hends : l ++ [Char.ofNat (0x41 : UInt8).toNat] = l' ++ [Char.ofNat (0x42 : UInt8).toNat] :=
        Option.some.inj (hl.symm.trans (hnames.trans hl'))
      have hlast := congrArg List.getLast? hends
      rw [List.getLast?_concat, List.getLast?_concat] at hlast
      exact absurd (Option.some.inj hlast) (by decide)
    · intro hname q hq
      obtain ⟨-, hlong, hsame⟩ := signedAlike_iff.mp hq
      have hp := parseAdvertisement_append otherAlnum hx hb (p.drop 132)
      have hqparse := parseAdvertisement_append otherAlnum hx hb (q.drop 132)
      rw [List.take_append_drop] at hp
      rw [hsame, List.take_append_drop, ← hsame] at hqparse
      rw [hp, hqparse]
      rcases hname b hflags with hnone | hzero
      · rw [if_neg (not_not.mpr hnone), if_neg (not_not.mpr hnone)]
      · rw [hsigned] at hzero
        rw [parseName_of_zero otherAlnum hzero (p.drop 132) (q.drop 132)]

/-- An advert of a chat node with a name of 31 letters in the signed part, and one byte more. -/
def longAdvert (last : UInt8) : Bytes :=
  List.replicate 100 0 ++ 0x81 :: List.replicate 31 0x61 ++ [last]

/-- The byte behind what is signed changes the name. -/
theorem not_forall_fixedBySignature :
    ¬∀ (otherAlnum : Char → Bool) (p q : Bytes), SignedAlike p q →
      parseAdvertisement otherAlnum p = parseAdvertisement otherAlnum q := by
  intro hall
  have halike : SignedAlike (longAdvert 0x41) (longAdvert 0x42) :=
    ⟨by decide +kernel, by decide +kernel, by decide +kernel, by decide +kernel⟩
  have hsame := hall (fun _ => false) _ _ halike
  revert hsame
  decide +kernel

end RtfmEv.Decoder
