import RtfmEv.Lib.JsonText

/-!
# A JSON text is read back as its value

What `dumps` writes, `loads` reads as the same value, for a value without NaN whose objects
have each key once. The reader is followed over the text of a value with something after it,
which begins with a comma or a closing bracket.
-/

namespace RtfmEv.Lib

/-! ### What comes after a value -/

/-- A text that may follow a value inside another one. -/
def Closes (rest : List Char) : Prop := ∀ c ∈ rest.head?, c = ',' ∨ c = ']' ∨ c = '}'

theorem closes_nil : Closes [] := by
  intro c hc
  cases hc

variable {c : Char} {rest s t i : List Char} {n : ℕ}

theorem closes_cons (rest : List Char) (h : c = ',' ∨ c = ']' ∨ c = '}') : Closes (c :: rest) := by
  intro d hd
  obtain rfl : c = d := Option.some.inj hd
  exact h

theorem Closes.not_digit (h : Closes rest) : ∀ c ∈ rest.head?, c.isDigit = false := by
  intro c hc
  rcases h c hc with rfl | rfl | rfl
  · rfl
  · rfl
  · rfl

/-! ### The number pattern -/

theorem matchNatural_append (h : matchNatural s = some (i, t))
    (hr : Closes rest) : matchNatural (s ++ rest) = some (i, t ++ rest) := by
  cases s with
  | nil => exact absurd h (by simp [matchNatural])
  | cons c s =>
    rw [List.cons_append]
    rw [matchNatural] at h ⊢
    by_cases h0 : c = '0'
    · rw [if_pos h0] at h ⊢
      obtain ⟨rfl, rfl⟩ := Prod.mk.inj (Option.some.inj h)
      rfl
    · rw [if_neg h0] at h ⊢
      by_cases hd : c.isDigit = true
      · rw [if_pos hd] at h ⊢
        obtain ⟨rfl, rfl⟩ := Prod.mk.inj (Option.some.inj h)
        rw [takeWhile_append_of_head hr.not_digit, dropWhile_append_of_head hr.not_digit]
      · simp [if_neg hd] at h

theorem matchInteger_append (h : matchInteger s = some (i, t))
    (hr : Closes rest) : matchInteger (s ++ rest) = some (i, t ++ rest) := by
  cases s with
  | nil => exact absurd h (by simp [matchInteger])
  | cons c s =>
    rw [List.cons_append]
    rw [matchInteger] at h ⊢
    by_cases hc : c = '-'
    · rw [if_pos hc] at h ⊢
      obtain ⟨m, hm, hi⟩ := Option.map_eq_some_iff.mp h
      obtain ⟨rfl, rfl⟩ := Prod.mk.inj hi
      rw [matchNatural_append hm hr]
      rfl
    · rw [if_neg hc] at h ⊢
      exact matchNatural_append h hr

theorem matchFrac_of_closes (hr : Closes rest) : matchFrac rest = ([], rest) := by
  cases rest with
  | nil => rfl
  | cons c rest =>
    have hc : c ≠ '.' := by
      rcases hr c rfl with rfl | rfl | rfl
      · decide
      · decide
      · decide
    rw [matchFrac, if_neg (fun h => hc h.1)]

theorem matchFrac_append (hr : Closes rest) (s : List Char) :
    matchFrac (s ++ rest) = ((matchFrac s).1, (matchFrac s).2 ++ rest) := by
  cases s with
  | nil => exact matchFrac_of_closes hr
  | cons c s =>
    simp only [List.cons_append, matchFrac, takeWhile_append_of_head hr.not_digit,
      dropWhile_append_of_head hr.not_digit]
    by_cases h : c = '.' ∧ s.takeWhile Char.isDigit ≠ []
    · rw [if_pos h, if_pos h]
    · rw [if_neg h, if_neg h]
      rfl

theorem matchSign_of_closes (hr : Closes rest) : matchSign rest = ([], rest) := by
  cases rest with
  | nil => rfl
  | cons c rest =>
    have hc : ¬(c = '-' ∨ c = '+') := by
      rcases hr c rfl with rfl | rfl | rfl
      · decide
      · decide
      · decide
    rw [matchSign, if_neg hc]

theorem matchSign_append (hr : Closes rest) (s : List Char) :
    matchSign (s ++ rest) = ((matchSign s).1, (matchSign s).2 ++ rest) := by
  cases s with
  | nil => exact matchSign_of_closes hr
  | cons c s =>
    simp only [List.cons_append, matchSign]
    by_cases h : c = '-' ∨ c = '+'
    · rw [if_pos h, if_pos h]
    · rw [if_neg h, if_neg h]
      rfl

theorem matchExp_of_closes (hr : Closes rest) : matchExp rest = ([], rest) := by
  cases rest with
  | nil => rfl
  | cons c rest =>
    have hc : ¬(c = 'e' ∨ c = 'E') := by
      rcases hr c rfl with rfl | rfl | rfl
      · decide
      · decide
      · decide
    rw [matchExp, if_neg (fun h => hc h.1)]

theorem matchExp_append (hr : Closes rest) (s : List Char) :
    matchExp (s ++ rest) = ((matchExp s).1, (matchExp s).2 ++ rest) := by
  cases s with
  | nil => exact matchExp_of_closes hr
  | cons c s =>
    simp only [List.cons_append, matchExp, matchSign_append hr,
      takeWhile_append_of_head hr.not_digit, dropWhile_append_of_head hr.not_digit]
    by_cases h : (c = 'e' ∨ c = 'E') ∧ (matchSign s).2.takeWhile Char.isDigit ≠ []
    · rw [if_pos h, if_pos h]
    · rw [if_neg h, if_neg h]
      rfl

/-- A number ends where something follows that may follow a value. -/
theorem matchNumber_append {m : NumberMatch} (h : matchNumber s = some (m, [])) (hr : Closes rest) :
    matchNumber (s ++ rest) = some (m, rest) := by
  unfold matchNumber at h ⊢
  obtain ⟨i, hi, hm⟩ := Option.map_eq_some_iff.mp h
  obtain ⟨rfl, htail⟩ := Prod.mk.inj hm
  rw [matchInteger_append hi hr, Option.map_some]
  simp only [matchFrac_append hr, matchExp_append hr, htail, List.nil_append]

theorem append_of_matchNatural (h : matchNatural s = some (i, t)) : i ++ t = s := by
  cases s with
  | nil => exact absurd h (by simp [matchNatural])
  | cons c s =>
    rw [matchNatural] at h
    by_cases h0 : c = '0'
    · rw [if_pos h0] at h
      obtain ⟨rfl, rfl⟩ := Prod.mk.inj (Option.some.inj h)
      rw [h0]
      rfl
    · rw [if_neg h0] at h
      by_cases hd : c.isDigit = true
      · rw [if_pos hd] at h
        obtain ⟨rfl, rfl⟩ := Prod.mk.inj (Option.some.inj h)
        rw [List.cons_append, List.takeWhile_append_dropWhile]
      · simp [if_neg hd] at h

theorem append_of_matchInteger (h : matchInteger s = some (i, t)) : i ++ t = s := by
  cases s with
  | nil => exact absurd h (by simp [matchInteger])
  | cons c s =>
    rw [matchInteger] at h
    by_cases hc : c = '-'
    · rw [if_pos hc] at h
      obtain ⟨m, hm, hi⟩ := Option.map_eq_some_iff.mp h
      obtain ⟨rfl, rfl⟩ := Prod.mk.inj hi
      rw [List.cons_append, append_of_matchNatural hm, hc]
    · rw [if_neg hc] at h
      exact append_of_matchNatural h

theorem append_matchFrac (s : List Char) : (matchFrac s).1 ++ (matchFrac s).2 = s := by
  cases s with
  | nil => rfl
  | cons c s =>
    rw [matchFrac]
    by_cases h : c = '.' ∧ s.takeWhile Char.isDigit ≠ []
    · rw [if_pos h, List.cons_append, List.takeWhile_append_dropWhile, h.1]
    · rw [if_neg h]
      rfl

theorem append_matchSign (s : List Char) : (matchSign s).1 ++ (matchSign s).2 = s := by
  cases s with
  | nil => rfl
  | cons c s =>
    rw [matchSign]
    by_cases h : c = '-' ∨ c = '+'
    · rw [if_pos h]
      rfl
    · rw [if_neg h]
      rfl

theorem append_matchExp (s : List Char) : (matchExp s).1 ++ (matchExp s).2 = s := by
  cases s with
  | nil => rfl
  | cons c s =>
    rw [matchExp]
    by_cases h : (c = 'e' ∨ c = 'E') ∧ (matchSign s).2.takeWhile Char.isDigit ≠ []
    · rw [if_pos h, List.cons_append, List.cons_append, List.append_assoc,
        List.takeWhile_append_dropWhile, append_matchSign]
    · rw [if_neg h]
      rfl

theorem text_of_matchNumber {m : NumberMatch} (h : matchNumber s = some (m, [])) : m.text = s := by
  unfold matchNumber at h
  obtain ⟨i, hi, hm⟩ := Option.map_eq_some_iff.mp h
  obtain ⟨rfl, htail⟩ := Prod.mk.inj hm
  have hexp := append_matchExp (matchFrac i.2).2
  rw [htail, List.append_nil] at hexp
  show i.1 ++ (matchFrac i.2).1 ++ (matchExp (matchFrac i.2).2).1 = s
  rw [hexp, List.append_assoc, append_matchFrac, append_of_matchInteger hi]

/-- What a number begins with. -/
def NumberHead (s : List Char) : Prop :=
  (∃ c t, s = c :: t ∧ c.isDigit = true) ∨
    ∃ c t, s = '-' :: c :: t ∧ c.isDigit = true

theorem digit_of_matchNatural {r : List Char × List Char}
    (h : matchNatural s = some r) : ∃ c t, s = c :: t ∧ c.isDigit = true := by
  cases s with
  | nil => exact absurd h (by simp [matchNatural])
  | cons c s =>
    refine ⟨c, s, rfl, ?_⟩
    rw [matchNatural] at h
    by_cases h0 : c = '0'
    · rw [h0]
      rfl
    · rw [if_neg h0] at h
      by_cases hd : c.isDigit = true
      · exact hd
      · simp [if_neg hd] at h

theorem numberHead_of_matchNumber {r : NumberMatch × List Char}
    (h : matchNumber s = some r) : NumberHead s := by
  obtain ⟨i, hi, -⟩ := Option.map_eq_some_iff.mp h
  cases s with
  | nil => exact absurd hi (by simp [matchInteger])
  | cons c s =>
    rw [matchInteger] at hi
    by_cases hc : c = '-'
    · rw [if_pos hc] at hi
      obtain ⟨m, hm, -⟩ := Option.map_eq_some_iff.mp hi
      obtain ⟨d, t, rfl, hd⟩ := digit_of_matchNatural hm
      exact .inr ⟨d, t, by rw [hc], hd⟩
    · rw [if_neg hc] at hi
      exact .inl (digit_of_matchNatural hi)

/-! ### Integers -/

theorem digitChar_ne_zero : ∀ n < 10, 0 < n → Nat.digitChar n ≠ '0' := by decide

theorem head_naturalText (hn : 0 < n) : ∃ c s, naturalText n = c :: s ∧ c ≠ '0' := by
  induction n using Nat.strongRecOn with
  | _ n ih =>
    unfold naturalText at ih ⊢
    rw [Nat.toDigits_eq_if (by omega)]
    by_cases hlt : n < 10
    · rw [if_pos hlt]
      exact ⟨n.digitChar, [], rfl, digitChar_ne_zero n hlt hn⟩
    · rw [if_neg hlt]
      obtain ⟨c, s, hs, hc⟩ := ih (n / 10) (by omega) (by omega)
      exact ⟨c, s ++ [(n % 10).digitChar], by rw [hs]; rfl, hc⟩

theorem isDigit_of_mem_naturalText (h : c ∈ naturalText n) : c.isDigit = true :=
  Nat.isDigit_of_mem_toDigits (by omega) (by omega) h

theorem matchNatural_naturalText (n : ℕ) :
    matchNatural (naturalText n) = some (naturalText n, []) := by
  rcases Nat.eq_zero_or_pos n with rfl | hn
  · rfl
  · obtain ⟨c, s, hs, hc⟩ := head_naturalText hn
    have hdigits : ∀ d ∈ c :: s, d.isDigit = true := by
      intro d hd
      rw [← hs] at hd
      exact isDigit_of_mem_naturalText hd
    rw [hs]
    rw [matchNatural]
    rw [if_neg hc, if_pos (hdigits c List.mem_cons_self)]
    have hs' : ∀ d ∈ s, d.isDigit = true := fun d hd => hdigits d (List.mem_cons_of_mem _ hd)
    rw [List.takeWhile_eq_self_iff.mpr hs', List.dropWhile_eq_nil_iff.mpr hs']

theorem head_naturalText_ne_minus (n : ℕ) :
    ∃ c s, naturalText n = c :: s ∧ c ≠ '-' := by
  obtain ⟨c, s, hs, hc⟩ := digit_of_matchNatural (matchNatural_naturalText n)
  refine ⟨c, s, hs, ?_⟩
  rintro rfl
  exact absurd hc (by decide)

theorem matchNumber_integerText (n : ℤ) :
    matchNumber (integerText n) = some (⟨integerText n, [], []⟩, []) := by
  have hi : matchInteger (integerText n) = some (integerText n, []) := by
    unfold integerText
    by_cases hn : n < 0
    · rw [if_pos hn]
      rw [matchInteger]
      rw [if_pos rfl, matchNatural_naturalText]
      rfl
    · rw [if_neg hn]
      obtain ⟨c, s, hs, hc⟩ := head_naturalText_ne_minus n.natAbs
      have hm := matchNatural_naturalText n.natAbs
      rw [hs] at hm ⊢
      rw [matchInteger]
      rw [if_neg hc]
      exact hm
  unfold matchNumber
  rw [hi]
  rfl

/-- The text of an integer is read as the integer, if it is short enough. -/
theorem integerOfText_integerText {n : ℤ}
    (h : (naturalText n.natAbs).length ≤ maxStrDigits) :
    integerOfText (integerText n) = some n := by
  have hvalue : Nat.ofDigitChars 10 (naturalText n.natAbs) 0 = n.natAbs :=
    Nat.ofDigitChars_ten_toDigits
  unfold integerText
  by_cases hn : n < 0
  · rw [if_pos hn]
    rw [integerOfText]
    rw [if_pos rfl, if_neg (by omega), if_pos rfl, hvalue]
    congr 1
    omega
  · rw [if_neg hn]
    obtain ⟨c, s, hs, hc⟩ := head_naturalText_ne_minus n.natAbs
    rw [hs] at h hvalue ⊢
    rw [integerOfText]
    rw [if_neg hc, if_neg (by omega), if_neg hc, hvalue]
    congr 1
    omega

/-! ### Strings -/

theorem hexValue_hexDigit : ∀ n < 16, hexValue (hexDigit n) = some n := by decide

theorem hexFour_hexEscape (hn : n < 0x10000) (rest : List Char) :
    hexFour ((hexEscape n).drop 2 ++ rest) = some (n, rest) := by
  show hexFour (hexDigit (n / 4096) :: hexDigit (n / 256 % 16) :: hexDigit (n / 16 % 16) ::
    hexDigit (n % 16) :: rest) = some (n, rest)
  unfold hexFour
  simp only [hexValue_hexDigit (n / 4096) (by omega), hexValue_hexDigit (n / 256 % 16) (by omega),
    hexValue_hexDigit (n / 16 % 16) (by omega), hexValue_hexDigit (n % 16) (by omega)]
  congr 2
  omega

theorem toNat_not_surrogate (c : Char) : c.toNat < 0xd800 ∨ 0xdfff < c.toNat := by
  rcases c.valid with h | h
  · exact .inl h
  · exact .inr h.1

theorem toNat_lt (c : Char) : c.toNat < 0x110000 := by
  rcases c.valid with h | h
  · exact lt_trans h (by decide)
  · exact h.2

theorem scanUnicode_of_low (h : hexFour s = some (n, t))
    (hn : n < 0xd800 ∨ 0xdfff < n) : scanUnicode s = some (Char.ofNat n, t) := by
  unfold scanUnicode
  simp only [h]
  rw [if_neg (by omega), if_neg (by omega)]

theorem scanUnicode_of_high (h : hexFour s = some (n, t))
    (hn : 0xd800 ≤ n ∧ n ≤ 0xdbff) : scanUnicode s = scanLowSurrogate n t := by
  unfold scanUnicode
  simp only [h]
  rw [if_pos hn]

theorem scanLowSurrogate_of_low {low : ℕ} (high : ℕ)
    (h : hexFour s = some (low, t)) (hlow : 0xdc00 ≤ low ∧ low ≤ 0xdfff) :
    scanLowSurrogate high ('\\' :: 'u' :: s) =
      some (Char.ofNat (0x10000 + (high - 0xd800) * 0x400 + (low - 0xdc00)), t) := by
  unfold scanLowSurrogate
  simp only [h]
  rw [if_pos hlow]

theorem hexEscape_append (n : ℕ) (rest : List Char) :
    hexEscape n ++ rest = '\\' :: 'u' :: ((hexEscape n).drop 2 ++ rest) := rfl

theorem scanUnicode_plane (h : c.toNat < 0x10000) (rest : List Char) :
    scanUnicode ((hexEscape c.toNat).drop 2 ++ rest) = some (c, rest) := by
  rw [scanUnicode_of_low (hexFour_hexEscape h rest) (toNat_not_surrogate c), Char.ofNat_toNat]

theorem scanUnicode_pair (h : ¬c.toNat < 0x10000) (rest : List Char) :
    scanUnicode ((hexEscape (0xd800 + (c.toNat - 0x10000) / 0x400)).drop 2 ++
      (hexEscape (0xdc00 + (c.toNat - 0x10000) % 0x400) ++ rest)) = some (c, rest) := by
  have hlt := toNat_lt c
  have hvalue : 0x10000 + (0xd800 + (c.toNat - 0x10000) / 0x400 - 0xd800) * 0x400 +
      (0xdc00 + (c.toNat - 0x10000) % 0x400 - 0xdc00) = c.toNat := by omega
  rw [scanUnicode_of_high (hexFour_hexEscape (by omega) _) (by omega), hexEscape_append,
    scanLowSurrogate_of_low _ (hexFour_hexEscape (by omega) rest) (by omega), hvalue,
    Char.ofNat_toNat]

theorem scanEscape_backslash : ∀ e ∈ backslashEscapes,
    e.1 ≠ 'u' ∧ e.1 ≠ '/' ∧ backslashEscapes.lookup e.1 = some e.2 := by decide

theorem scanChar_escapeChar (c : Char) (rest : List Char) :
    scanChar (escapeChar c ++ rest) = some (some c, rest) := by
  have hq : ('\\' : Char) ≠ '"' := by decide
  unfold escapeChar
  cases hfind : backslashEscapes.find? (fun e => e.2 == c) with
  | some e =>
    have he := List.mem_of_find?_eq_some hfind
    have hfound := List.find?_some hfind
    have hc : e.2 = c := beq_iff_eq.mp hfound
    obtain ⟨hu, hslash, hlookup⟩ := scanEscape_backslash e he
    show scanChar ('\\' :: e.1 :: rest) = some (some c, rest)
    rw [scanChar, if_neg hq, if_pos rfl, scanEscape, if_neg hu, if_neg hslash, hlookup, hc]
    rfl
  | none =>
    have hne : ∀ e ∈ backslashEscapes, e.2 ≠ c := by
      intro e he heq
      have := List.find?_eq_none.mp hfind e he
      exact this (beq_iff_eq.mpr heq)
    have hquote : c ≠ '"' := fun h => hne ('"', '"') (by decide) h.symm
    have hback : c ≠ '\\' := fun h => hne ('\\', '\\') (by decide) h.symm
    by_cases hplain : 0x20 ≤ c.toNat ∧ c.toNat ≤ 0x7e
    · simp only [if_pos hplain]
      show scanChar (c :: rest) = some (some c, rest)
      rw [scanChar, if_neg hquote, if_neg hback, if_neg (by omega)]
    · simp only [if_neg hplain]
      by_cases hplane : c.toNat < 0x10000
      · rw [if_pos hplane]
        rw [hexEscape_append, scanChar, if_neg hq, if_pos rfl, scanEscape, if_pos rfl,
          scanUnicode_plane hplane]
        rfl
      · rw [if_neg hplane, List.append_assoc, hexEscape_append, scanChar, if_neg hq, if_pos rfl,
          scanEscape, if_pos rfl, scanUnicode_pair hplane]
        rfl

theorem scanChars_escape (t rest : List Char) :
    ∀ n, t.length < n → scanChars n (t.flatMap escapeChar ++ '"' :: rest) = some (t, rest) := by
  induction t with
  | nil =>
    intro n hn
    obtain ⟨n, rfl⟩ : ∃ m, n = m + 1 := ⟨n - 1, by simp only [List.length_nil] at hn; omega⟩
    rfl
  | cons c t ih =>
    intro n hn
    rw [List.length_cons] at hn
    obtain ⟨n, rfl⟩ : ∃ m, n = m + 1 := ⟨n - 1, by omega⟩
    rw [List.flatMap_cons, List.append_assoc]
    unfold scanChars
    rw [scanChar_escapeChar]
    show (scanChars n (t.flatMap escapeChar ++ '"' :: rest)).map _ = _
    rw [ih n (by omega)]
    rfl

theorem escapeChar_ne_nil (c : Char) : 0 < (escapeChar c).length := by
  have h := scanChar_escapeChar c []
  cases hc : escapeChar c with
  | nil =>
    rw [hc] at h
    cases h
  | cons a s => exact Nat.succ_pos _

theorem length_le_flatMap_escapeChar (t : List Char) :
    t.length ≤ (t.flatMap escapeChar).length := by
  induction t with
  | nil => exact Nat.le_refl 0
  | cons c t ih =>
    rw [List.flatMap_cons, List.length_append, List.length_cons]
    have := escapeChar_ne_nil c
    omega

theorem scanString_quote (s : String) (rest : List Char) :
    scanString (s.toList.flatMap escapeChar ++ '"' :: rest) = some (s, rest) := by
  unfold scanString
  rw [scanChars_escape, Option.map_some, String.ofList_toList]
  have := length_le_flatMap_escapeChar s.toList
  rw [List.length_append]
  omega

namespace JsonValue

variable {D : Type*} {s t rest u : List Char} (fmt : FloatFormat D) {n : ℕ} {v : JsonValue D}
  {fs : List (String × JsonValue D)} {vs : List (JsonValue D)}

/-! ### Objects and what is inside a value -/

theorem assign_of_not_mem {k : String} (v : JsonValue D)
    (h : k ∉ fs.map Prod.fst) : assign k v fs = fs ++ [(k, v)] := by
  induction fs with
  | nil => rfl
  | cons f fs ih =>
    rw [List.map_cons, List.mem_cons, not_or] at h
    unfold assign
    rw [if_neg (fun hk => h.1 hk.symm), ih h.2]
    rfl

theorem foldl_assign (pairs : List (String × JsonValue D)) :
    ∀ fs, ((fs ++ pairs).map Prod.fst).Nodup →
      pairs.foldl (fun d p => assign p.1 p.2 d) fs = fs ++ pairs := by
  induction pairs with
  | nil =>
    intro fs _
    rw [List.append_nil]
    rfl
  | cons p pairs ih =>
    intro fs h
    have hp : p.1 ∉ fs.map Prod.fst := by
      rw [List.map_append, List.map_cons, List.nodup_append] at h
      intro hmem
      exact h.2.2 p.1 hmem p.1 List.mem_cons_self rfl
    rw [List.foldl_cons, assign_of_not_mem p.2 hp, ih, List.append_assoc]
    · rfl
    · rw [List.append_assoc]
      exact h

theorem dictOf_of_nodup (h : (fs.map Prod.fst).Nodup) : dictOf fs = fs :=
  foldl_assign fs [] h

/-- What the text of a value has to be free of to be read back. -/
def readable (v : JsonValue D) : Bool := v.distinctKeys && v.notNaN && v.convertible

mutual

theorem every_and (p q : JsonValue D → Bool) : ∀ v : JsonValue D,
    v.every (fun w => p w && q w) = (v.every p && v.every q)
  | .null => by rw [every, every, every]
  | .bool _ => by rw [every, every, every]
  | .int _ => by rw [every, every, every]
  | .float _ => by rw [every, every, every]
  | .str _ => by rw [every, every, every]
  | .arr xs => by
    rw [every, every, every, everyItem_and p q xs]
    ac_rfl
  | .obj fs => by
    rw [every, every, every, everyField_and p q fs]
    ac_rfl

theorem everyItem_and (p q : JsonValue D → Bool) : ∀ xs : List (JsonValue D),
    everyItem (fun w => p w && q w) xs = (everyItem p xs && everyItem q xs)
  | [] => by rw [everyItem, everyItem, everyItem]; rfl
  | x :: xs => by
    rw [everyItem, everyItem, everyItem, every_and p q x, everyItem_and p q xs]
    ac_rfl

theorem everyField_and (p q : JsonValue D → Bool) : ∀ fs : List (String × JsonValue D),
    everyField (fun w => p w && q w) fs = (everyField p fs && everyField q fs)
  | [] => by rw [everyField, everyField, everyField]; rfl
  | (_, v) :: fs => by
    rw [everyField, everyField, everyField, every_and p q v, everyField_and p q fs]
    ac_rfl

end

/-! ### What a value begins with -/

/-- A text begins as a value may: with no space, and nothing that closes a bracket or marks the
order of bytes. -/
def ValueHead (s : List Char) : Prop :=
  ∃ c t, s = c :: t ∧ isJsonSpace c = false ∧ c ≠ ']' ∧ c ≠ '}' ∧ c ≠ '\ufeff'

theorem valueHead_of_cons {c : Char} (t : List Char)
    (h : (isJsonSpace c || c == ']' || c == '}' || c == '\ufeff') = false) :
    ValueHead (c :: t) := by
  rw [Bool.or_eq_false_iff, Bool.or_eq_false_iff, Bool.or_eq_false_iff] at h
  exact ⟨c, t, rfl, h.1.1.1, ne_of_beq_false h.1.1.2, ne_of_beq_false h.1.2,
    ne_of_beq_false h.2⟩

theorem not_special_of_digit {c : Char} (h : c.isDigit = true) :
    c ≠ ' ' ∧ c ≠ '\t' ∧ c ≠ '\n' ∧ c ≠ '\x0d' ∧ c ≠ ']' ∧ c ≠ '}' ∧ c ≠ '"' ∧ c ≠ '{' ∧ c ≠ '[' ∧
      c ≠ 'n' ∧ c ≠ 't' ∧ c ≠ 'f' ∧ c ≠ 'N' ∧ c ≠ 'I' ∧ c ≠ '-' ∧ c ≠ '\ufeff' := by
  refine ⟨?_, ?_, ?_, ?_, ?_, ?_, ?_, ?_, ?_, ?_, ?_, ?_, ?_, ?_, ?_, ?_⟩ <;>
    (rintro rfl; exact absurd h (by decide))

theorem valueHead_of_numberHead (h : NumberHead s) : ValueHead s := by
  rcases h with ⟨c, t, rfl, hc⟩ | ⟨c, t, rfl, -⟩
  · obtain ⟨h1, h2, h3, h4, h5, h6, -, -, -, -, -, -, -, -, -, h7⟩ := not_special_of_digit hc
    refine valueHead_of_cons t ?_
    simp only [isJsonSpace, beq_false_of_ne h1, beq_false_of_ne h2, beq_false_of_ne h3,
      beq_false_of_ne h4, beq_false_of_ne h5, beq_false_of_ne h6,
      beq_false_of_ne h7, Bool.or_false]
  · exact valueHead_of_cons _ rfl

theorem valueHead_append (h : ValueHead s) (rest : List Char) : ValueHead (s ++ rest) := by
  obtain ⟨c, t, rfl, hc⟩ := h
  exact ⟨c, t ++ rest, rfl, hc⟩

theorem skipSpaces_of_valueHead (h : ValueHead s) : skipSpaces s = s := by
  obtain ⟨c, t, rfl, hc, -⟩ := h
  unfold skipSpaces
  rw [List.dropWhile_cons, hc]
  rfl

theorem scanWord_of_numberHead (h : NumberHead s) : scanWord (D := D) s = none := by
  have hwords : ∀ w ∈ words (D := D), w.1.isPrefixOf s = true →
      s.head? ∈ [some 'n', some 't', some 'f', some 'N', some 'I'] ∨
        ['-', 'I'].isPrefixOf s = true := by
    intro w hw hs
    rw [List.isPrefixOf_iff_prefix] at hs
    obtain ⟨t, rfl⟩ := hs
    simp only [words, List.mem_cons, List.not_mem_nil, or_false] at hw
    rcases hw with rfl | rfl | rfl | rfl | rfl | rfl
    · exact .inl (.head _)
    · exact .inl (.tail _ (.head _))
    · exact .inl (.tail _ (.tail _ (.head _)))
    · exact .inl (.tail _ (.tail _ (.tail _ (.head _))))
    · exact .inl (.tail _ (.tail _ (.tail _ (.tail _ (.head _)))))
    · exact .inr rfl
  unfold scanWord
  rw [Option.map_eq_none_iff, List.find?_eq_none]
  intro w hw hs
  rcases h with ⟨c, t, rfl, hc⟩ | ⟨c, t, rfl, hc⟩
  · obtain ⟨-, -, -, -, -, -, -, -, -, h1, h2, h3, h4, h5, h6, -⟩ := not_special_of_digit hc
    rcases hwords w hw hs with hhead | hminus
    · simp only [List.head?_cons, List.mem_cons, Option.some.injEq, List.not_mem_nil,
        or_false] at hhead
      rcases hhead with rfl | rfl | rfl | rfl | rfl
      · exact h1 rfl
      · exact h2 rfl
      · exact h3 rfl
      · exact h4 rfl
      · exact h5 rfl
    · rw [List.isPrefixOf_cons_cons, Bool.and_eq_true] at hminus
      exact h6 (beq_iff_eq.mp hminus.1).symm
  · rcases hwords w hw hs with hhead | hminus
    · exact absurd hhead (by simp)
    · rw [List.isPrefixOf_cons_cons, List.isPrefixOf_cons_cons, Bool.and_eq_true, Bool.and_eq_true]
        at hminus
      obtain rfl := beq_iff_eq.mp hminus.2.1
      exact absurd hc (by decide)

theorem numberHead_integerText (n : ℤ) : NumberHead (integerText n) :=
  numberHead_of_matchNumber (matchNumber_integerText n)

theorem numberHead_repr (d : D) : NumberHead (fmt.repr d) := by
  obtain ⟨m, hm, -⟩ := fmt.matchNumber_repr d
  exact numberHead_of_matchNumber hm

theorem valueHead_text (v : JsonValue D) : ValueHead (v.text fmt) := by
  cases v with
  | null | str s | arr xs | obj fs => rw [text]; exact valueHead_of_cons _ rfl
  | bool b =>
    cases b with
    | true | false => rw [text]; exact valueHead_of_cons _ rfl
  | int n => rw [text]; exact valueHead_of_numberHead (numberHead_integerText n)
  | float x =>
    rw [text]
    cases x with
    | nan | infinity | negInfinity => exact valueHead_of_cons _ rfl
    | finite d => exact valueHead_of_numberHead (numberHead_repr fmt d)

theorem skipSpaces_text (v : JsonValue D) (rest : List Char) :
    skipSpaces (v.text fmt ++ rest) = v.text fmt ++ rest :=
  skipSpaces_of_valueHead (valueHead_append (valueHead_text fmt v) rest)

theorem length_text_pos (v : JsonValue D) : 0 < (v.text fmt).length := by
  obtain ⟨c, t, h, -⟩ := valueHead_text fmt v
  rw [h]
  exact Nat.succ_pos _

/-! ### Reading values that hold no others -/

theorem scanOnce_of_numberHead (h : NumberHead s) (n : ℕ) :
    scanOnce fmt (n + 1) s = scanNumber fmt s := by
  have hword := scanWord_of_numberHead (D := D) h
  rcases h with ⟨c, t, rfl, hc⟩ | ⟨c, t, rfl, -⟩
  · obtain ⟨-, -, -, -, -, -, h1, h2, h3, -⟩ := not_special_of_digit hc
    rw [scanOnce, if_neg h1, if_neg h2, if_neg h3, hword]
    rfl
  · rw [scanOnce, if_neg (by decide), if_neg (by decide), if_neg (by decide), hword]
    rfl

theorem numberHead_append (h : NumberHead s) (rest : List Char) : NumberHead (s ++ rest) := by
  rcases h with ⟨c, t, rfl, hc⟩ | ⟨c, t, rfl, hc⟩
  · exact .inl ⟨c, t ++ rest, rfl, hc⟩
  · exact .inr ⟨c, t ++ rest, rfl, hc⟩

theorem scanOnce_integerText {k : ℤ} (h : (naturalText k.natAbs).length ≤ maxStrDigits) (n : ℕ) (hr : Closes rest) :
    scanOnce fmt (n + 1) (integerText k ++ rest) = some (.int k, rest) := by
  rw [scanOnce_of_numberHead fmt (numberHead_append (numberHead_integerText k) rest)]
  unfold scanNumber
  rw [matchNumber_append (matchNumber_integerText k) hr]
  show (integerOfText (integerText k)).map _ = _
  rw [integerOfText_integerText h]
  rfl

theorem scanOnce_repr (d : D) (n : ℕ) (hr : Closes rest) :
    scanOnce fmt (n + 1) (fmt.repr d ++ rest) = some (.float (.finite d), rest) := by
  obtain ⟨m, hm, hfloat⟩ := fmt.matchNumber_repr d
  rw [scanOnce_of_numberHead fmt (numberHead_append (numberHead_repr fmt d) rest)]
  unfold scanNumber
  rw [matchNumber_append hm hr]
  show (if m.isFloat = true then _ else _) = _
  rw [if_pos hfloat, text_of_matchNumber hm, fmt.ofText_repr]

/-! ### Reading a value -/

theorem scanItems_last
    (h : scanOnce fmt n s = some (v, ']' :: t)) : scanItems fmt (n + 1) s = some ([v], t) := by
  rw [scanItems, h]
  rfl

theorem scanItems_more (h : scanOnce fmt n s = some (v, ',' :: t))
    (hs : scanItems fmt n (skipSpaces t) = some (vs, u)) :
    scanItems fmt (n + 1) s = some (v :: vs, u) := by
  rw [scanItems, h]
  show (scanItems fmt n (skipSpaces t)).map _ = _
  rw [hs]
  rfl

theorem scanString_quote_tail (k : String) (s : List Char) :
    quote k ++ ": ".toList ++ s =
      '"' :: (k.toList.flatMap escapeChar ++ '"' :: ':' :: ' ' :: s) := by
  show '"' :: (k.toList.flatMap escapeChar ++ ['"'] ++ [':', ' '] ++ s) = _
  rw [List.append_assoc, List.append_assoc]
  rfl

theorem skipSpaces_space (s : List Char) : skipSpaces (' ' :: s) = skipSpaces s := rfl

theorem scanFields_last (k : String) {v : JsonValue D}
    (hs : skipSpaces s = s) (h : scanOnce fmt n s = some (v, '}' :: t)) :
    scanFields fmt (n + 1) (quote k ++ ": ".toList ++ s) = some ([(k, v)], t) := by
  have hcolon : skipSpaces (':' :: ' ' :: s) = ':' :: ' ' :: s := rfl
  have hclose : skipSpaces ('}' :: t) = '}' :: t := rfl
  rw [scanString_quote_tail, scanFields, if_pos rfl]
  simp only [scanString_quote, hcolon, skipSpaces_space, hs, h, hclose]

theorem scanFields_more (k : String) {v : JsonValue D}
    (hs : skipSpaces s = s) (h : scanOnce fmt n s = some (v, ',' :: t))
    (hf : scanFields fmt n (skipSpaces t) = some (fs, u)) :
    scanFields fmt (n + 1) (quote k ++ ": ".toList ++ s) = some ((k, v) :: fs, u) := by
  have hcolon : skipSpaces (':' :: ' ' :: s) = ':' :: ' ' :: s := rfl
  have hcomma : skipSpaces (',' :: t) = ',' :: t := rfl
  rw [scanString_quote_tail, scanFields, if_pos rfl]
  simp only [scanString_quote, hcolon, skipSpaces_space, hs, h, hcomma, hf, Option.map_some]

/-! ### Arrays and objects -/

theorem valueHead_itemsText (xs : List (JsonValue D)) (h : xs ≠ []) :
    ValueHead (itemsText fmt xs) := by
  cases xs with
  | nil => exact absurd rfl h
  | cons x xs =>
    cases xs with
    | nil => rw [itemsText]; exact valueHead_text fmt x
    | cons y xs =>
      rw [itemsText, List.append_assoc]
      exact valueHead_append (valueHead_text fmt x) _

theorem valueHead_fieldsText (fs : List (String × JsonValue D)) (h : fs ≠ []) :
    ValueHead (fieldsText fmt fs) := by
  cases fs with
  | nil => exact absurd rfl h
  | cons f fs =>
    obtain ⟨k, v⟩ := f
    cases fs with
    | nil | cons g fs => rw [fieldsText]; exact valueHead_of_cons _ rfl

theorem scanOnce_arr (hs : ValueHead s) (h : scanItems fmt n s = some (vs, t)) :
    scanOnce fmt (n + 1) ('[' :: s) = some (.arr vs, t) := by
  have hskip := skipSpaces_of_valueHead hs
  obtain ⟨c, u, rfl, -, hc, -⟩ := hs
  rw [scanOnce, if_neg (by decide), if_neg (by decide), if_pos rfl, hskip]
  split
  · rename_i heq
    exact absurd (List.cons.inj heq).1 hc
  · rw [h]
    rfl

theorem scanOnce_obj (hs : ValueHead s) (h : scanFields fmt n s = some (fs, t)) :
    scanOnce fmt (n + 1) ('{' :: s) = some (.obj (dictOf fs), t) := by
  have hskip := skipSpaces_of_valueHead hs
  obtain ⟨c, u, rfl, -, -, hc, -⟩ := hs
  rw [scanOnce, if_neg (by decide), if_pos rfl, hskip]
  split
  · rename_i heq
    exact absurd (List.cons.inj heq).1 hc
  · rw [h]
    rfl

theorem length_comma_space : (", ".toList).length = 2 := rfl

mutual

/-- **The text of a value is read as the value**, whatever follows it. -/
theorem scanOnce_text : ∀ v : JsonValue D, v.every readable = true →
    ∀ n rest, (v.text fmt).length ≤ n → Closes rest →
      scanOnce fmt n (v.text fmt ++ rest) = some (v, rest)
  | v, hv, 0, _, hn, _ => absurd hn (Nat.not_le_of_gt (length_text_pos fmt v))
  | .null, _, n + 1, rest, _, _ => by rw [text]; rfl
  | .bool true, _, n + 1, rest, _, _ => by rw [text]; rfl
  | .bool false, _, n + 1, rest, _, _ => by rw [text]; rfl
  | .int k, hv, n + 1, rest, _, hr => by
    rw [text]
    rw [every] at hv
    exact scanOnce_integerText fmt (of_decide_eq_true (Bool.and_eq_true _ _ ▸ hv).2) n hr
  | .float .nan, hv, n + 1, rest, _, _ => by rw [every] at hv; cases hv
  | .float .infinity, _, n + 1, rest, _, _ => by rw [text]; rfl
  | .float .negInfinity, _, n + 1, rest, _, _ => by rw [text]; rfl
  | .float (.finite d), _, n + 1, rest, _, hr => by rw [text]; exact scanOnce_repr fmt d n hr
  | .str s, _, n + 1, rest, _, _ => by
    have hq : quote s ++ rest = '"' :: (s.toList.flatMap escapeChar ++ '"' :: rest) := by
      show '"' :: (s.toList.flatMap escapeChar ++ ['"'] ++ rest) = _
      rw [List.append_assoc]
      rfl
    rw [text, hq, scanOnce, if_pos rfl, scanString_quote]
    rfl
  | .arr [], _, n + 1, rest, _, _ => by rw [text, itemsText]; rfl
  | .arr (x :: xs), hv, n + 1, rest, hn, _ => by
    rw [text] at hn ⊢
    rw [every] at hv
    have hitems := scanItems_itemsText (x :: xs) (Bool.and_eq_true _ _ ▸ hv).2 (by simp) n rest
      (by simp only [List.length_append, List.length_cons] at hn; omega)
    rw [List.append_assoc]
    exact scanOnce_arr fmt (valueHead_append (valueHead_itemsText fmt (x :: xs) (by simp)) _) hitems
  | .obj [], _, n + 1, rest, _, _ => by rw [text, fieldsText]; rfl
  | .obj (f :: fs), hv, n + 1, rest, hn, _ => by
    rw [text] at hn ⊢
    rw [every] at hv
    obtain ⟨hself, hinside⟩ := Bool.and_eq_true_iff.mp hv
    have hkeys : ((f :: fs).map Prod.fst).Nodup := by
      unfold readable at hself
      rw [Bool.and_eq_true, Bool.and_eq_true] at hself
      exact of_decide_eq_true hself.1.1
    have hfields := scanFields_fieldsText (f :: fs) hinside (by simp) n rest
      (by simp only [List.length_append, List.length_cons] at hn; omega)
    rw [List.append_assoc]
    have hread := scanOnce_obj fmt (valueHead_append (valueHead_fieldsText fmt (f :: fs) (by simp)) _)
      hfields
    rw [dictOf_of_nodup hkeys] at hread
    exact hread

theorem scanItems_itemsText : ∀ xs : List (JsonValue D), everyItem readable xs = true →
    xs ≠ [] → ∀ n rest, (itemsText fmt xs).length < n →
      scanItems fmt n (itemsText fmt xs ++ ']' :: rest) = some (xs, rest)
  | [], _, h, _, _, _ => absurd rfl h
  | _, _, _, 0, _, hn => absurd hn (Nat.not_lt_zero _)
  | [x], hv, _, n + 1, rest, hn => by
    rw [itemsText] at hn ⊢
    rw [everyItem] at hv
    exact scanItems_last fmt (scanOnce_text x (Bool.and_eq_true _ _ ▸ hv).1 n (']' :: rest)
      (by omega) (closes_cons rest (.inr (.inl rfl))))
  | x :: y :: xs, hv, _, n + 1, rest, hn => by
    rw [itemsText] at hn ⊢
    rw [everyItem] at hv
    obtain ⟨hx, hxs⟩ := Bool.and_eq_true_iff.mp hv
    simp only [List.length_append] at hn
    have hlen := length_comma_space
    have hfirst := scanOnce_text x hx n
      (',' :: ' ' :: (itemsText fmt (y :: xs) ++ ']' :: rest)) (by omega)
      (closes_cons _ (.inl rfl))
    have hmore := scanItems_itemsText (y :: xs) hxs (by simp) n rest (by omega)
    have hskip := skipSpaces_of_valueHead
      (valueHead_append (valueHead_itemsText fmt (y :: xs) (by simp)) (']' :: rest))
    rw [List.append_assoc, List.append_assoc]
    exact scanItems_more fmt hfirst (by rw [skipSpaces_space, hskip]; exact hmore)

theorem scanFields_fieldsText : ∀ fs : List (String × JsonValue D), everyField readable fs = true →
    fs ≠ [] → ∀ n rest, (fieldsText fmt fs).length < n →
      scanFields fmt n (fieldsText fmt fs ++ '}' :: rest) = some (fs, rest)
  | [], _, h, _, _, _ => absurd rfl h
  | _, _, _, 0, _, hn => absurd hn (Nat.not_lt_zero _)
  | [(k, v)], hv, _, n + 1, rest, hn => by
    rw [fieldsText] at hn ⊢
    rw [everyField] at hv
    simp only [List.length_append] at hn
    have hfirst := scanOnce_text v (Bool.and_eq_true_iff.mp hv).1 n ('}' :: rest) (by omega)
      (closes_cons rest (.inr (.inr rfl)))
    rw [List.append_assoc]
    exact scanFields_last fmt k (skipSpaces_text fmt v _) hfirst
  | (k, v) :: f :: fs, hv, _, n + 1, rest, hn => by
    rw [fieldsText] at hn ⊢
    rw [everyField] at hv
    obtain ⟨hv, hfs⟩ := Bool.and_eq_true_iff.mp hv
    simp only [List.length_append] at hn
    have hlen := length_comma_space
    have hfirst := scanOnce_text v hv n
      (',' :: ' ' :: (fieldsText fmt (f :: fs) ++ '}' :: rest)) (by omega)
      (closes_cons _ (.inl rfl))
    have hmore := scanFields_fieldsText (f :: fs) hfs (by simp) n rest (by omega)
    have hskip := skipSpaces_of_valueHead
      (valueHead_append (valueHead_fieldsText fmt (f :: fs) (by simp)) ('}' :: rest))
    rw [List.append_assoc, List.append_assoc, List.append_assoc]
    exact scanFields_more fmt k (skipSpaces_text fmt v _) hfirst
      (by rw [skipSpaces_space, hskip]; exact hmore)

end

/-- **What `dumps` writes, `loads` reads back**, for a value without NaN whose objects have each
key once. -/
theorem loads_of_dumps {t : String} (hkeys : v.every distinctKeys = true)
    (hnan : v.every notNaN = true) (h : v.dumps fmt = some t) : loads fmt t = some v := by
  unfold dumps at h
  by_cases hc : v.every convertible = true
  · rw [if_pos hc] at h
    obtain rfl := Option.some.inj h
    have hread : v.every readable = true := by
      have hand : v.every (fun w => (w.distinctKeys && w.notNaN) && w.convertible) = true := by
        rw [every_and (fun w => w.distinctKeys && w.notNaN) convertible v,
          every_and distinctKeys notNaN v, hkeys, hnan, hc]
        rfl
      exact hand
    have hscan := scanOnce_text fmt v hread ((v.text fmt).length + 1) [] (by omega) closes_nil
    rw [List.append_nil] at hscan
    have hskip := skipSpaces_text fmt v []
    rw [List.append_nil] at hskip
    obtain ⟨c, s, hs, -, -, -, hbom⟩ := valueHead_text fmt v
    unfold loads
    rw [String.toList_ofList]
    split
    · rename_i heq
      rw [hs] at heq
      exact absurd (List.cons.inj heq).1 hbom
    · rw [hskip, hscan]
      rfl
  · rw [if_neg hc] at h
    cases h

end JsonValue

end RtfmEv.Lib
