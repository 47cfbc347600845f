import RtfmEv.Lib.Base64
import RtfmEv.Reactions.RoundTrip
import RtfmEv.Smaz.Codec

/-!
# Compressed message bodies (`app/smaz.py`)

A body that begins with `s:` is decoded when what follows is base64 of a stream that the
encoder writes for a longer text. The decoder of the base64 takes more spellings than the
encoder writes: space around it, both alphabets in one body, a part of the padding, and
any bits in the last character that no byte takes.

A text is a list of code points. Whether padding may follow complete fours of characters
is different in versions of the language, and a parameter.
-/

namespace RtfmEv.Smaz

open RtfmEv.Lib RtfmEv.Unread RtfmEv.Reactions

/-- `str.encode("utf-8")` -/
def utf8 (u : Text) : Bytes := (String.ofList u).toByteArray.data.toList

/-- `bytes.decode("utf-8")` -/
def decodeUtf8 (raw : Bytes) : Option Text :=
  (String.fromUTF8? (ByteArray.mk raw.toArray)).map String.toList

/-- The characters of the second alphabet that differ, as those of the first. -/
def fromUrlSafe (c : Char) : Char := if c = '-' then '+' else if c = '_' then '/' else c

def toUrlSafe (c : Char) : Char := if c = '+' then '-' else if c = '/' then '_' else c

/-- The second attempt: the first alphabet, and padding up to a multiple of four. -/
def normalizeBase64 (trimmed : Text) : Text :=
  trimmed.map fromUrlSafe ++ List.replicate ((4 - trimmed.length % 4) % 4) '='

variable (excess : Bool) {u data body text : Text}

def decodeBase64Flexible (encoded : Text) : Option Bytes :=
  match a2bBase64 excess (stripText encoded) with
  | some packed => some packed
  | none => a2bBase64 excess (normalizeBase64 (stripText encoded))

/-- What follows `s:` in a text, without the space in front. -/
def bodyOf (text : Text) : Option Text :=
  match lstripChars text with
  | 's' :: ':' :: body => some body
  | _ => none

def tryDecodePrefixed (text : Text) : Option Text :=
  match bodyOf text with
  | none => none
  | some [] => none
  | some body =>
    match decodeBase64Flexible excess body with
    | none => none
    | some [] => none
    | some packed =>
      match decompress packed with
      | none => none
      | some raw =>
        match decodeUtf8 raw with
        | none => none
        | some decoded =>
          if compress raw ≠ packed then none
          else if raw.length ≤ 2 + (b64encode packed).length then none
          else some decoded

def decodeMessageText (text : Text) : Text := (tryDecodePrefixed excess text).getD text

/-! ### Spellings -/

/-- Standard base64, or base64url with or without padding. -/
def Spells (body : Text) (packed : Bytes) : Prop :=
  body = b64encode packed ∨ body = (b64encode packed).map toUrlSafe ∨
    body = (base64Data packed).map toUrlSafe

/-- So much padding is taken after so many characters. -/
def loosePadding (chars pads : ℕ) : Bool :=
  match chars % 4 with
  | 0 => pads = 0 || (excess && chars ≠ 0)
  | 2 => pads ≤ 2
  | 3 => pads ≤ 1
  | _ => false

/-- **The spellings that are taken**: with space around, of both alphabets, with a part of the
padding, and with the bytes of its groups whatever the last bits are. -/
def LooselySpells (body : Text) (packed : Bytes) : Prop :=
  ∃ data pads, stripText body = data ++ List.replicate pads '=' ∧
    (∀ c ∈ data, isBase64 (fromUrlSafe c) = true) ∧ loosePadding excess data.length pads = true ∧
    ofSextets ((data.map fromUrlSafe).filterMap base64Value) = packed

/-- The text is what stands for a longer text when it is sent compressed, in one of the three
spellings. -/
def Encodes (text u : Text) : Prop :=
  ∃ body, bodyOf text = some body ∧ Spells body (compress (utf8 u)) ∧
    2 + (b64encode (compress (utf8 u))).length < (utf8 u).length

/-! ### Texts and bytes -/

/-- **Decoding inverts encoding**, and only that. -/
theorem decodeUtf8_eq_some_iff {raw : Bytes} : decodeUtf8 raw = some u ↔ raw = utf8 u := by
  unfold decodeUtf8 String.fromUTF8? utf8
  constructor
  · intro h
    obtain ⟨t, ht, rfl⟩ := Option.map_eq_some_iff.mp h
    obtain ⟨hvalid, heq⟩ := Option.dite_none_right_eq_some.mp ht
    rw [← Option.some.inj heq, String.ofList_toList]
    rfl
  · intro h
    have hbytes : ByteArray.mk raw.toArray = (String.ofList u).toByteArray := by
      rw [h]
    rw [hbytes, dif_pos (String.ofList u).isValidUTF8]
    show some (String.ofList u).toList = some u
    rw [String.toList_ofList]

/-! ### What the two attempts take -/

theorem fromUrlSafe_of_isBase64 {c : Char} (h : isBase64 c = true) : fromUrlSafe c = c := by
  have hdash : c ≠ '-' := by
    rintro rfl
    revert h
    decide
  have hunder : c ≠ '_' := by
    rintro rfl
    revert h
    decide
  rw [fromUrlSafe, if_neg hdash, if_neg hunder]

theorem fromUrlSafe_eq_pad {c : Char} (h : fromUrlSafe c = '=') : c = '=' := by
  unfold fromUrlSafe at h
  split at h
  · exact absurd h (by decide)
  · split at h
    · exact absurd h (by decide)
    · exact h

theorem mod_four_cases (n : ℕ) : n % 4 = 0 ∨ n % 4 = 1 ∨ n % 4 = 2 ∨ n % 4 = 3 := by omega

variable {excess} {packed : Bytes}

theorem loosePadding_of_closes {chars pads : ℕ} (h : closesBase64 excess chars pads = true) :
    loosePadding excess chars pads = true := by
  unfold closesBase64 at h
  unfold loosePadding
  rcases mod_four_cases chars with hmod | hmod | hmod | hmod
  · rw [hmod] at h ⊢
    exact h
  · rw [hmod] at h
    cases h
  · rw [hmod] at h ⊢
    simp only [decide_eq_true_eq] at h ⊢
    omega
  · rw [hmod] at h ⊢
    simp only [decide_eq_true_eq] at h ⊢
    omega

/-- The padding that is added makes up for what was left out, and for no more. -/
theorem closes_normalized (chars pads : ℕ) :
    closesBase64 excess chars (pads + (4 - (chars + pads) % 4) % 4) =
      loosePadding excess chars pads := by
  unfold closesBase64 loosePadding
  rcases mod_four_cases chars with hmod | hmod | hmod | hmod
  · rw [hmod]
    have hzero : pads + (4 - (chars + pads) % 4) % 4 = 0 ↔ pads = 0 := by omega
    simp only [hzero]
  · rw [hmod]
    rfl
  · rw [hmod]
    have htwo : pads + (4 - (chars + pads) % 4) % 4 = 2 ↔ pads ≤ 2 := by omega
    simp only [htwo]
  · rw [hmod]
    have hone : pads + (4 - (chars + pads) % 4) % 4 = 1 ↔ pads ≤ 1 := by omega
    simp only [hone]

theorem map_fromUrlSafe (h : ∀ c ∈ data, isBase64 c = true) : data.map fromUrlSafe = data := by
  have hmap := List.map_congr_left (f := fromUrlSafe) (g := id) (l := data)
    (fun c hc => fromUrlSafe_of_isBase64 (h c hc))
  rw [hmap, List.map_id]

theorem data_eq_of_pads {data' : Text} {pads pads' : ℕ} (h : '=' ∉ data) (h' : '=' ∉ data')
    (heq : data ++ List.replicate pads '=' = data' ++ List.replicate pads' '=') : data = data' := by
  have hne : ∀ {l : Text}, '=' ∉ l → ∀ c ∈ l, (c != '=') = true := by
    intro l hl c hc
    rw [bne_iff_ne]
    rintro rfl
    exact hl hc
  have htake := (takeWhile_pad (hne h) (by decide) pads).1
  rw [heq, (takeWhile_pad (hne h') (by decide) pads').1] at htake
  exact htake.symm

/-- The second attempt takes what is spelled loosely. -/
theorem a2bBase64_normalizeBase64 {pads : ℕ} (hdata : ∀ c ∈ data, isBase64 (fromUrlSafe c) = true)
    (hpads : loosePadding excess data.length pads = true) :
    a2bBase64 excess (normalizeBase64 (data ++ List.replicate pads '=')) =
      some (ofSextets ((data.map fromUrlSafe).filterMap base64Value)) := by
  rw [a2bBase64_eq_some_iff]
  refine ⟨data.map fromUrlSafe, pads + (4 - (data.length + pads) % 4) % 4, ?_, ?_, ?_, rfl⟩
  · have hpad : (List.replicate pads '=').map fromUrlSafe = List.replicate pads '=' := by
      rw [List.map_replicate]
      rfl
    rw [normalizeBase64, List.map_append, hpad, List.length_append, List.length_replicate,
      List.append_assoc, ← List.replicate_add]
  · intro c hc
    obtain ⟨c, hmem, rfl⟩ := List.mem_map.mp hc
    exact hdata c hmem
  · rw [List.length_map, closes_normalized]
    exact hpads

/-- Nothing else is taken by the second attempt. -/
theorem looselySpells_of_normalized {s : Text}
    (h : a2bBase64 excess (normalizeBase64 s) = some packed) :
    ∃ data pads, s = data ++ List.replicate pads '=' ∧
      (∀ c ∈ data, isBase64 (fromUrlSafe c) = true) ∧ loosePadding excess data.length pads = true ∧
      ofSextets ((data.map fromUrlSafe).filterMap base64Value) = packed := by
  obtain ⟨data', pads', hs, hdata', hcloses, hof⟩ := a2bBase64_eq_some_iff.mp h
  -- the padding that is added stands behind the whole text
  have hcut : ∃ bs, s.map fromUrlSafe = data' ++ bs ∧
      List.replicate pads' '=' = bs ++ List.replicate ((4 - s.length % 4) % 4) '=' := by
    rcases List.append_eq_append_iff.mp hs with ⟨as, hdata, hpads⟩ | hcut
    · have hnil : as = [] := by
        rw [List.eq_nil_iff_forall_not_mem]
        intro c hc
        have hpad : c ∈ List.replicate ((4 - s.length % 4) % 4) '=' := by
          rw [hpads]
          exact List.mem_append_left _ hc
        have hbase := hdata' c (by rw [hdata]; exact List.mem_append_right _ hc)
        rw [List.eq_of_mem_replicate hpad, isBase64_pad] at hbase
        cases hbase
      refine ⟨[], ?_, ?_⟩
      · rw [hdata, hnil, List.append_nil, List.append_nil]
      · rw [hpads, hnil]
        rfl
    · exact hcut
  obtain ⟨bs, hmap, hpads⟩ := hcut
  obtain ⟨data, rest, rfl, rfl, rfl⟩ := List.map_eq_append_iff.mp hmap
  have hrest : rest = List.replicate rest.length '=' := by
    rw [List.eq_replicate_iff]
    refine ⟨rfl, ?_⟩
    intro c hc
    have hpad : fromUrlSafe c ∈ List.replicate pads' '=' := by
      rw [hpads]
      exact List.mem_append_left _ (List.mem_map_of_mem hc)
    exact fromUrlSafe_eq_pad (List.eq_of_mem_replicate hpad)
  have hlength := congrArg List.length hpads
  rw [List.length_replicate, List.length_append, List.length_map, List.length_replicate,
    List.length_append] at hlength
  refine ⟨data, rest.length, by rw [← hrest], ?_, ?_, hof⟩
  · intro c hc
    exact hdata' _ (List.mem_map_of_mem hc)
  · rw [← closes_normalized, ← hlength]
    rwa [List.length_map] at hcloses

/-- **What is taken are the loose spellings.** -/
theorem decodeBase64Flexible_iff :
    decodeBase64Flexible excess body = some packed ↔ LooselySpells excess body packed := by
  unfold decodeBase64Flexible
  constructor
  · intro h
    split at h
    · rename_i packed' hfirst
      cases h
      obtain ⟨data, pads, hs, hdata, hcloses, hof⟩ := a2bBase64_eq_some_iff.mp hfirst
      refine ⟨data, pads, hs, ?_, loosePadding_of_closes hcloses, ?_⟩
      · intro c hc
        rw [fromUrlSafe_of_isBase64 (hdata c hc)]
        exact hdata c hc
      · rw [map_fromUrlSafe hdata, hof]
    · exact looselySpells_of_normalized h
  · rintro ⟨data, pads, hs, hdata, hpads, hof⟩
    have hno : '=' ∉ data := by
      intro hin
      have hbase := hdata _ hin
      revert hbase
      decide
    split
    · rename_i packed' hfirst
      obtain ⟨data', pads', hs', hdata', -, hof'⟩ := a2bBase64_eq_some_iff.mp hfirst
      have hno' : '=' ∉ data' := by
        intro hin
        have hbase := hdata' _ hin
        revert hbase
        decide
      rw [data_eq_of_pads hno hno' (hs.symm.trans hs'), map_fromUrlSafe hdata', hof'] at hof
      rw [hof]
    · rw [hs, a2bBase64_normalizeBase64 hdata hpads, hof]

/-! ### The encodings -/

theorem fromUrlSafe_toUrlSafe : ∀ n < 64,
    fromUrlSafe (toUrlSafe (base64Char n)) = base64Char n ∧
      fromUrlSafe (base64Char n) = base64Char n ∧ isSpaceChar (base64Char n) = false ∧
      isSpaceChar (toUrlSafe (base64Char n)) = false := by
  decide +kernel

/-- The data of an encoding in either alphabet. -/
theorem urlSafe_base64Data (packed : Bytes) :
    (base64Data packed).map fromUrlSafe = base64Data packed ∧
      ((base64Data packed).map toUrlSafe).map fromUrlSafe = base64Data packed ∧
      (∀ c ∈ base64Data packed, isSpaceChar c = false) ∧
      ∀ c ∈ (base64Data packed).map toUrlSafe, isSpaceChar c = false := by
  have hlt := sextets_lt packed
  unfold base64Data
  refine ⟨?_, ?_, ?_, ?_⟩
  · rw [List.map_map]
    exact List.map_congr_left fun n hn => (fromUrlSafe_toUrlSafe n (hlt n hn)).2.1
  · rw [List.map_map, List.map_map]
    exact List.map_congr_left fun n hn => (fromUrlSafe_toUrlSafe n (hlt n hn)).1
  · intro c hc
    obtain ⟨n, hn, rfl⟩ := List.mem_map.mp hc
    exact (fromUrlSafe_toUrlSafe n (hlt n hn)).2.2.1
  · intro c hc
    obtain ⟨d, hd, rfl⟩ := List.mem_map.mp hc
    obtain ⟨n, hn, rfl⟩ := List.mem_map.mp hd
    exact (fromUrlSafe_toUrlSafe n (hlt n hn)).2.2.2

/-- The padding of an encoding may stand or be left out. -/
theorem loosePadding_base64Data (packed : Bytes) :
    loosePadding excess (base64Data packed).length ((3 - packed.length % 3) % 3) = true ∧
      loosePadding excess (base64Data packed).length 0 = true := by
  have hlength := length_sextets packed
  rw [base64Data, List.length_map]
  have hcases : packed.length % 3 = 0 ∨ packed.length % 3 = 1 ∨ packed.length % 3 = 2 := by omega
  unfold loosePadding
  rcases hcases with hmod | hmod | hmod
  · rw [hlength, hmod]
    exact ⟨rfl, rfl⟩
  · rw [hlength, hmod]
    exact ⟨rfl, rfl⟩
  · rw [hlength, hmod]
    exact ⟨rfl, rfl⟩

/-- **The encodings are taken.** -/
theorem looselySpells_of_spells (h : Spells body packed) : LooselySpells excess body packed := by
  obtain ⟨hstd, hurl, hspace, hspaceUrl⟩ := urlSafe_base64Data packed
  have ⟨hpads, hnone⟩ : loosePadding excess (base64Data packed).length
      ((3 - packed.length % 3) % 3) = true ∧ loosePadding excess (base64Data packed).length 0 = true :=
    loosePadding_base64Data packed
  have hread : ofSextets ((base64Data packed).filterMap base64Value) = packed := by
    rw [filterMap_base64Data, ofSextets_sextets]
  have hmem : ∀ {data : Text}, data.map fromUrlSafe = base64Data packed →
      ∀ c ∈ data, isBase64 (fromUrlSafe c) = true := by
    intro data hdata c hc
    exact isBase64_base64Data packed _ (hdata ▸ List.mem_map_of_mem hc)
  have hstrip : ∀ {data : Text} (n : ℕ), (∀ c ∈ data, isSpaceChar c = false) →
      stripText (data ++ List.replicate n '=') = data ++ List.replicate n '=' := by
    intro data n hdata
    apply stripText_of_forall
    intro c hc
    rcases List.mem_append.mp hc with hin | hpad
    · exact hdata c hin
    · rw [List.eq_of_mem_replicate hpad]
      decide
  rcases h with rfl | rfl | rfl
  · exact ⟨base64Data packed, _, hstrip _ hspace, hmem hstd, hpads, by rw [hstd, hread]⟩
  · have hpadUrl : (b64encode packed).map toUrlSafe = (base64Data packed).map toUrlSafe ++
        List.replicate ((3 - packed.length % 3) % 3) '=' := by
      rw [b64encode, List.map_append, List.map_replicate]
      rfl
    rw [hpadUrl]
    exact ⟨_, _, hstrip _ hspaceUrl, hmem hurl, by rw [List.length_map]; exact hpads,
      by rw [hurl, hread]⟩
  · refine ⟨(base64Data packed).map toUrlSafe, 0, ?_, hmem hurl, ?_, by rw [hurl, hread]⟩
    · have hzero := hstrip 0 hspaceUrl
      rwa [List.replicate_zero, List.append_nil] at hzero ⊢
    · rw [List.length_map]
      exact hnone

/-! ### Bodies -/

/-- The encoder writes nothing only for nothing. -/
theorem compress_ne_nil {d : Bytes} (h : d ≠ []) : compress d ≠ [] := by
  intro hnil
  have hround := decompress_compress d
  rw [hnil] at hround
  exact h (Option.some.inj hround).symm

/-- **A body is decoded** exactly if it spells, loosely, what stands for a longer text. -/
theorem tryDecodePrefixed_iff :
    tryDecodePrefixed excess text = some u ↔ ∃ body, bodyOf text = some body ∧
      LooselySpells excess body (compress (utf8 u)) ∧
      2 + (b64encode (compress (utf8 u))).length < (utf8 u).length := by
  unfold tryDecodePrefixed
  constructor
  · intro h
    split at h
    · cases h
    · cases h
    rename_i body _ hbody
    split at h
    · cases h
    · cases h
    rename_i packed _ hpacked
    split at h
    · cases h
    rename_i raw hraw
    split at h
    · cases h
    rename_i decoded hdecoded
    split at h
    · cases h
    rename_i hcompress
    split at h
    · cases h
    rename_i hlong
    cases h
    rw [decodeUtf8_eq_some_iff] at hdecoded
    subst hdecoded
    rw [not_not] at hcompress
    refine ⟨body, hbody, ?_, ?_⟩
    · rw [hcompress]
      exact decodeBase64Flexible_iff.mp hpacked
    · rw [hcompress]
      omega
  · rintro ⟨body, hbody, hspells, hlong⟩
    have hraw : utf8 u ≠ [] := by
      intro hnil
      rw [hnil] at hlong
      cases hlong
    have hpacked := decodeBase64Flexible_iff.mpr hspells
    have hne := compress_ne_nil hraw
    have hbodyne : body ≠ [] := by
      rintro rfl
      have hempty : decodeBase64Flexible excess [] = some [] := by
        cases excess with
        | false => decide
        | true => decide
      rw [hempty] at hpacked
      exact hne (Option.some.inj hpacked).symm
    obtain ⟨c, rest, hcons⟩ := List.exists_cons_of_ne_nil hbodyne
    obtain ⟨b, bs, hbytes⟩ := List.exists_cons_of_ne_nil hne
    have hdecoded : decodeUtf8 (utf8 u) = some u := decodeUtf8_eq_some_iff.mpr rfl
    have hround : decompress (b :: bs) = some (utf8 u) := by
      rw [← hbytes]
      exact decompress_compress (utf8 u)
    subst hcons
    rw [hbytes] at hpacked hlong
    rw [hbody]
    simp only [hpacked, hround, hdecoded]
    rw [if_neg (not_not.mpr hbytes), if_neg (by omega)]

/-- The text is left as the claim has it. -/
structure DecodesExactly (excess : Bool) (text : Text) : Prop where
  decoded : ∀ u, tryDecodePrefixed excess text = some u ↔ Encodes text u
  sent : ∀ u, Encodes text u → decodeMessageText excess text = u
  other : (∀ u, ¬ Encodes text u) → decodeMessageText excess text = text

/-- A body that stands for a longer text is spelled as one of the encodings. -/
def SpelledExactly (excess : Bool) (text : Text) : Prop :=
  ∀ body u, bodyOf text = some body → LooselySpells excess body (compress (utf8 u)) →
    2 + (b64encode (compress (utf8 u))).length < (utf8 u).length →
    Spells body (compress (utf8 u))

theorem tryDecodePrefixed_of_encodes (h : Encodes text u) :
    tryDecodePrefixed excess text = some u := by
  obtain ⟨body, hbody, hspells, hlong⟩ := h
  exact tryDecodePrefixed_iff.mpr ⟨body, hbody, looselySpells_of_spells hspells, hlong⟩

/-- **SMAZ bodies.** What is compressed is read back, every encoding is decoded, and a text is
decoded as the encodings have it exactly if it is no other spelling of one of them. -/
theorem smaz_bodies (excess : Bool) : (∀ d, decompress (compress d) = some d) ∧
    (∀ text u, Encodes text u → decodeMessageText excess text = u) ∧
    ∀ text, DecodesExactly excess text ↔ SpelledExactly excess text := by
  have hsent : ∀ text u, Encodes text u → decodeMessageText excess text = u := by
    intro text u hu
    rw [decodeMessageText, tryDecodePrefixed_of_encodes hu]
    rfl
  refine ⟨decompress_compress, hsent, ?_⟩
  intro text
  constructor
  · intro h body u hbody hspells hlong
    obtain ⟨body', hbody', hexact, -⟩ :=
      (h.decoded u).mp (tryDecodePrefixed_iff.mpr ⟨body, hbody, hspells, hlong⟩)
    rw [hbody] at hbody'
    cases hbody'
    exact hexact
  · intro h
    have hdecoded : ∀ u, tryDecodePrefixed excess text = some u ↔ Encodes text u := by
      intro u
      rw [tryDecodePrefixed_iff]
      constructor
      · rintro ⟨body, hbody, hspells, hlong⟩
        exact ⟨body, hbody, h body u hbody hspells hlong, hlong⟩
      · rintro ⟨body, hbody, hspells, hlong⟩
        exact ⟨body, hbody, looselySpells_of_spells hspells, hlong⟩
    refine ⟨hdecoded, hsent text, ?_⟩
    · intro hno
      rw [decodeMessageText]
      cases htry : tryDecodePrefixed excess text with
      | none => rfl
      | some u => exact absurd ((hdecoded u).mp htry) (hno u)

/-- Eleven times the first word of the codebook. -/
def elevenWords : Text := (List.replicate 11 "the".toList).flatten

/-- The last character `F` stands for the same bytes as the `E` that the encoder writes. -/
theorem not_forall_decodesExactly : ¬ ∃ excess, ∀ text, DecodesExactly excess text := by
  rintro ⟨excess, hall⟩
  have hpacked : compress (utf8 elevenWords) = List.replicate 11 1 := by decide +kernel
  have hspells : LooselySpells excess "AQEBAQEBAQEBAQF=".toList (compress (utf8 elevenWords)) := by
    rw [hpacked]
    refine ⟨"AQEBAQEBAQEBAQF".toList, 1, by decide +kernel, List.all_eq_true.mp (by decide +kernel),
      ?_, by decide +kernel⟩
    cases excess with
    | false => decide
    | true => decide
  have hbody : bodyOf "s:AQEBAQEBAQEBAQF=".toList = some "AQEBAQEBAQEBAQF=".toList := by
    decide +kernel
  obtain ⟨body, hbody', hexact, -⟩ := ((hall "s:AQEBAQEBAQEBAQF=".toList).decoded elevenWords).mp
    (tryDecodePrefixed_iff.mpr ⟨_, hbody, hspells, by rw [hpacked]; decide +kernel⟩)
  rw [hbody] at hbody'
  cases hbody'
  rw [hpacked] at hexact
  rcases hexact with h | h | h
  · revert h
    decide +kernel
  · revert h
    decide +kernel
  · revert h
    decide +kernel

end RtfmEv.Smaz
