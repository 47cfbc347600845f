import RtfmEv.Lib.Bytes

/-!
# Reading UTF-8 that may be broken (`bytes.decode("utf-8", errors="ignore")`)

Bytes that start no character are left out. What an unfinished character leaves behind are
continuation bytes, which start none either, so one byte at a time is left out. An ASCII byte is
always read as itself, and nothing before it changes what comes after.
-/

namespace RtfmEv.Lib.Utf8

/-- A continuation byte. -/
def isCont (b : UInt8) : Bool := 0x80 ≤ b.toNat && b.toNat ≤ 0xBF

def twoBytes (a b : UInt8) : Bool := 0xC2 ≤ a.toNat && a.toNat ≤ 0xDF && isCont b

/-- No overlong form and no surrogate. -/
def threeBytes (a b c : UInt8) : Bool :=
  0xE0 ≤ a.toNat && a.toNat ≤ 0xEF && isCont b && isCont c &&
    (a.toNat != 0xE0 || 0xA0 ≤ b.toNat) && (a.toNat != 0xED || b.toNat ≤ 0x9F)

/-- No overlong form and nothing past the last code point. -/
def fourBytes (a b c d : UInt8) : Bool :=
  0xF0 ≤ a.toNat && a.toNat ≤ 0xF4 && isCont b && isCont c && isCont d &&
    (a.toNat != 0xF0 || 0x90 ≤ b.toNat) && (a.toNat != 0xF4 || b.toNat ≤ 0x8F)

def codeTwo (a b : UInt8) : ℕ := (a.toNat - 0xC0) * 64 + (b.toNat - 0x80)

def codeThree (a b c : UInt8) : ℕ :=
  (a.toNat - 0xE0) * 4096 + (b.toNat - 0x80) * 64 + (c.toNat - 0x80)

def codeFour (a b c d : UInt8) : ℕ :=
  (a.toNat - 0xF0) * 262144 + (b.toNat - 0x80) * 4096 + (c.toNat - 0x80) * 64 + (d.toNat - 0x80)

/-- The character at the start of some bytes, and how many bytes it takes after the first. -/
def firstChar : Bytes → Option (Char × ℕ)
  | [] => none
  | a :: rest =>
    if a.toNat < 0x80 then some (Char.ofNat a.toNat, 0)
    else
      match rest with
      | [] => none
      | [b] => if twoBytes a b then some (Char.ofNat (codeTwo a b), 1) else none
      | [b, c] =>
        if twoBytes a b then some (Char.ofNat (codeTwo a b), 1)
        else if threeBytes a b c then some (Char.ofNat (codeThree a b c), 2)
        else none
      | b :: c :: d :: _ =>
        if twoBytes a b then some (Char.ofNat (codeTwo a b), 1)
        else if threeBytes a b c then some (Char.ofNat (codeThree a b c), 2)
        else if fourBytes a b c d then some (Char.ofNat (codeFour a b c d), 3)
        else none

/-- Reading on, after some bytes that belong to the last character. -/
def decodeAfter : ℕ → Bytes → List Char
  | _, [] => []
  | skip + 1, _ :: rest => decodeAfter skip rest
  | 0, a :: rest =>
    match firstChar (a :: rest) with
    | some (c, more) => c :: decodeAfter more rest
    | none => decodeAfter 0 rest

/-- `bytes.decode("utf-8", errors="ignore")` -/
def decodeIgnore (s : Bytes) : List Char := decodeAfter 0 s

example : decodeIgnore [0xE2, 0x82, 0xAC, 0xE2, 0x41, 0xC3] = ['€', 'A'] := by decide

/-! ### ASCII bytes -/

variable {a : UInt8} {more : ℕ} {rest : Bytes} {c : Char} {b : UInt8}

theorem isCont_of_ascii (ha : a.toNat < 0x80) : isCont a = false := by
  rw [isCont, Bool.and_eq_false_iff]
  exact Or.inl (decide_eq_false (by omega))

/-- A character is read from one to four bytes. -/
theorem firstChar_cases
    (h : firstChar (a :: rest) = some (c, more)) :
    (a.toNat < 0x80 ∧ c = Char.ofNat a.toNat ∧ more = 0) ∨
    (∃ b r, rest = b :: r ∧ twoBytes a b = true ∧ c = Char.ofNat (codeTwo a b) ∧ more = 1) ∨
    (∃ b d r, rest = b :: d :: r ∧ threeBytes a b d = true ∧ c = Char.ofNat (codeThree a b d) ∧
      more = 2) ∨
    (∃ b d e r, rest = b :: d :: e :: r ∧ fourBytes a b d e = true ∧
      c = Char.ofNat (codeFour a b d e) ∧ more = 3) := by
  by_cases ha : a.toNat < 0x80
  · simp only [firstChar, ha, if_true, Option.some.injEq, Prod.mk.injEq] at h
    exact Or.inl ⟨ha, h.1.symm, h.2.symm⟩
  · right
    match rest with
    | [] => simp [firstChar, ha] at h
    | [b] =>
      simp only [firstChar, ha, if_false] at h
      split_ifs at h with h2
      obtain ⟨rfl, rfl⟩ := Prod.mk.inj (Option.some.inj h)
      exact Or.inl ⟨b, [], rfl, h2, rfl, rfl⟩
    | [b, d] =>
      simp only [firstChar, ha, if_false] at h
      split_ifs at h with h2 h3
      · obtain ⟨rfl, rfl⟩ := Prod.mk.inj (Option.some.inj h)
        exact Or.inl ⟨b, [d], rfl, h2, rfl, rfl⟩
      · obtain ⟨rfl, rfl⟩ := Prod.mk.inj (Option.some.inj h)
        exact Or.inr (Or.inl ⟨b, d, [], rfl, h3, rfl, rfl⟩)
    | b :: d :: e :: r =>
      simp only [firstChar, ha, if_false] at h
      split_ifs at h with h2 h3 h4
      · obtain ⟨rfl, rfl⟩ := Prod.mk.inj (Option.some.inj h)
        exact Or.inl ⟨b, d :: e :: r, rfl, h2, rfl, rfl⟩
      · obtain ⟨rfl, rfl⟩ := Prod.mk.inj (Option.some.inj h)
        exact Or.inr (Or.inl ⟨b, d, e :: r, rfl, h3, rfl, rfl⟩)
      · obtain ⟨rfl, rfl⟩ := Prod.mk.inj (Option.some.inj h)
        exact Or.inr (Or.inr ⟨b, d, e, r, rfl, h4, rfl, rfl⟩)

theorem firstChar_more
    (h : firstChar (a :: rest) = some (c, more)) : more ≤ rest.length := by
  rcases firstChar_cases h with ⟨-, -, rfl⟩ | ⟨b, r, rfl, -, -, rfl⟩ | ⟨b, d, r, rfl, -, -, rfl⟩ |
    ⟨b, d, e, r, rfl, -, -, rfl⟩
  · exact Nat.zero_le _
  · simp
  · simp
  · simp

theorem firstChar_append {x : UInt8} (xs : Bytes) (ha : a.toNat < 0x80) (t : Bytes) :
    firstChar (x :: xs ++ a :: t) = firstChar (x :: xs) := by
  have hcont := isCont_of_ascii ha
  by_cases hx : x.toNat < 0x80
  · simp [firstChar, hx]
  · match xs, t with
    | [], [] => simp [firstChar, hx, twoBytes, hcont]
    | [], [_] => simp [firstChar, hx, twoBytes, threeBytes, hcont]
    | [], _ :: _ :: _ => simp [firstChar, hx, twoBytes, threeBytes, fourBytes, hcont]
    | [_], [] => simp [firstChar, hx, threeBytes, hcont]
    | [_], _ :: _ => simp [firstChar, hx, threeBytes, fourBytes, hcont]
    | [_, _], _ => simp [firstChar, hx, fourBytes, hcont]
    | _ :: _ :: _ :: _, _ => simp [firstChar, hx]

theorem decodeAfter_append (ha : a.toNat < 0x80) (t : Bytes) (xs : Bytes) (skip : ℕ)
    (hskip : skip ≤ xs.length) :
    decodeAfter skip (xs ++ a :: t) = decodeAfter skip xs ++ Char.ofNat a.toNat :: decodeIgnore t := by
  induction xs generalizing skip with
  | nil =>
    obtain rfl : skip = 0 := Nat.le_zero.mp hskip
    simp [decodeAfter, firstChar, ha, decodeIgnore]
  | cons x xs ih =>
    cases skip with
    | succ skip => exact ih skip (Nat.le_of_succ_le_succ hskip)
    | zero =>
      rw [List.cons_append, decodeAfter, ← List.cons_append, firstChar_append xs ha t,
        decodeAfter]
      cases hfirst : firstChar (x :: xs) with
      | none => exact ih 0 (Nat.zero_le _)
      | some read =>
        obtain ⟨c, more⟩ := read
        simp only [List.cons_append, ih more (firstChar_more hfirst)]

/-- **An ASCII byte is read as itself**, whatever stands before it. -/
theorem decodeIgnore_append (ha : a.toNat < 0x80) (xs t : Bytes) :
    decodeIgnore (xs ++ a :: t) = decodeIgnore xs ++ Char.ofNat a.toNat :: decodeIgnore t :=
  decodeAfter_append ha t xs 0 (Nat.zero_le _)

/-! ### The character NUL -/

theorem ofNat_ne_nul {n : ℕ} (hn : 0 < n) (hvalid : n < 0xD800 ∨ 0xDFFF < n ∧ n < 0x110000) :
    Char.ofNat n ≠ Char.ofNat 0 := by
  intro h
  have htoNat := congrArg Char.toNat h
  rw [Char.ofNat, dif_pos (show n.isValidChar from hvalid)] at htoNat
  have hzero : n = 0 := htoNat
  omega

theorem codeTwo_range (h : twoBytes a b = true) :
    0 < codeTwo a b ∧ codeTwo a b < 0xD800 := by
  simp only [twoBytes, isCont, Bool.and_eq_true, decide_eq_true_eq] at h
  unfold codeTwo
  omega

theorem codeThree_range {c : UInt8} (h : threeBytes a b c = true) :
    0 < codeThree a b c ∧
      (codeThree a b c < 0xD800 ∨ 0xDFFF < codeThree a b c ∧ codeThree a b c < 0x110000) := by
  simp only [threeBytes, isCont, Bool.and_eq_true, Bool.or_eq_true, bne_iff_ne,
    decide_eq_true_eq] at h
  unfold codeThree
  omega

theorem codeFour_range {c d : UInt8} (h : fourBytes a b c d = true) :
    0xDFFF < codeFour a b c d ∧ codeFour a b c d < 0x110000 := by
  simp only [fourBytes, isCont, Bool.and_eq_true, Bool.or_eq_true, bne_iff_ne,
    decide_eq_true_eq] at h
  unfold codeFour
  omega

/-- A character that starts with a byte other than zero is not NUL. -/
theorem firstChar_ne_nul
    (h : firstChar (a :: rest) = some (c, more)) (ha : a.toNat ≠ 0) : c ≠ Char.ofNat 0 := by
  rcases firstChar_cases h with ⟨hascii, hc, -⟩ | ⟨b, r, -, htwo, hc, -⟩ |
    ⟨b, d, r, -, hthree, hc, -⟩ | ⟨b, d, e, r, -, hfour, hc, -⟩
  · rw [hc]
    exact ofNat_ne_nul (by omega) (by omega)
  · rw [hc]
    exact ofNat_ne_nul (codeTwo_range htwo).1 (Or.inl (codeTwo_range htwo).2)
  · rw [hc]
    exact ofNat_ne_nul (codeThree_range hthree).1 (codeThree_range hthree).2
  · rw [hc]
    have hrange := codeFour_range hfour
    exact ofNat_ne_nul (by omega) (Or.inr hrange)

theorem nul_not_mem_decodeAfter {s : Bytes} (hs : (0 : UInt8) ∉ s) (skip : ℕ) :
    Char.ofNat 0 ∉ decodeAfter skip s := by
  induction s generalizing skip with
  | nil =>
    cases skip <;> exact List.not_mem_nil
  | cons a rest ih =>
    have hrest : (0 : UInt8) ∉ rest := fun hmem => hs (List.mem_cons_of_mem _ hmem)
    cases skip with
    | succ skip => exact ih hrest skip
    | zero =>
      rw [decodeAfter]
      cases hfirst : firstChar (a :: rest) with
      | none => exact ih hrest 0
      | some read =>
        obtain ⟨c, more⟩ := read
        have hzero : a.toNat ≠ 0 := by
          intro h
          have hbyte : a = 0 := UInt8.toNat_inj.mp h
          exact hs (hbyte ▸ List.mem_cons_self)
        simp only
        intro hmem
        rcases List.mem_cons.mp hmem with heq | hmem
        · exact firstChar_ne_nul hfirst hzero heq.symm
        · exact ih hrest more hmem

theorem nul_not_mem_decodeIgnore {s : Bytes} (hs : (0 : UInt8) ∉ s) :
    Char.ofNat 0 ∉ decodeIgnore s := nul_not_mem_decodeAfter hs 0

end RtfmEv.Lib.Utf8
