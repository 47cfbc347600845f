import Mathlib.Data.List.Infix
import Mathlib.Data.List.TakeWhile

/-!
# Text operations

The string operations of the modelled language that its settings and rules use,
on lists of code points. Changing the case covers the ASCII letters, which is all
that matters where hexadecimal digits and truth words are compared.
-/

namespace RtfmEv.Lib

/-- White space as `str.strip` and `str.isspace` see it. -/
def isSpaceChar (c : Char) : Bool :=
  let n := c.toNat
  (9 ≤ n && n ≤ 13) || (28 ≤ n && n ≤ 32) || n == 0x85 || n == 0xA0 || n == 0x1680 ||
    (0x2000 ≤ n && n ≤ 0x200A) || n == 0x2028 || n == 0x2029 || n == 0x202F || n == 0x205F ||
    n == 0x3000

/-- Drop white space on the left. -/
def lstripChars (s : List Char) : List Char := s.dropWhile isSpaceChar

def rstripChars (s : List Char) : List Char := (lstripChars s.reverse).reverse

def stripChars (s : List Char) : List Char := rstripChars (lstripChars s)

variable {s : List Char} {α : Type*} {p : α → Bool} {rest : List α}

theorem lstripChars_eq (h : ∀ c ∈ s.head?, isSpaceChar c = false) : lstripChars s = s := by
  cases s with
  | nil => rfl
  | cons c s => exact List.dropWhile_cons_of_neg (by simp [h c rfl])

theorem rstripChars_eq (h : ∀ c ∈ s.getLast?, isSpaceChar c = false) : rstripChars s = s := by
  rw [rstripChars, lstripChars_eq (by rwa [List.head?_reverse]), List.reverse_reverse]

theorem stripChars_eq (hhead : ∀ c ∈ s.head?, isSpaceChar c = false)
    (hlast : ∀ c ∈ s.getLast?, isSpaceChar c = false) : stripChars s = s := by
  rw [stripChars, lstripChars_eq hhead, rstripChars_eq hlast]

theorem takeWhile_append_of_head (h : ∀ c ∈ rest.head?, p c = false) (s : List α) :
    (s ++ rest).takeWhile p = s.takeWhile p := by
  induction s with
  | nil =>
    cases rest with
    | nil => rfl
    | cons c rest =>
      rw [List.nil_append, List.takeWhile_cons, h c rfl]
      rfl
  | cons a s ih =>
    rw [List.cons_append, List.takeWhile_cons, List.takeWhile_cons, ih]

theorem dropWhile_append_of_head (h : ∀ c ∈ rest.head?, p c = false) (s : List α) :
    (s ++ rest).dropWhile p = s.dropWhile p ++ rest := by
  induction s with
  | nil =>
    cases rest with
    | nil => rfl
    | cons c rest =>
      rw [List.nil_append, List.dropWhile_cons, h c rfl]
      rfl
  | cons a s ih =>
    rw [List.cons_append, List.dropWhile_cons, List.dropWhile_cons, ih]
    cases p a with
    | true => rfl
    | false => rfl

theorem span_append {s : List α} (hs : ∀ c ∈ s, p c = true) (h : ∀ c ∈ rest.head?, p c = false) :
    (s ++ rest).takeWhile p = s ∧ (s ++ rest).dropWhile p = rest := by
  rw [takeWhile_append_of_head h, dropWhile_append_of_head h, List.takeWhile_eq_self_iff.mpr hs,
    List.dropWhile_eq_nil_iff.mpr hs]
  exact ⟨rfl, rfl⟩

theorem span_ne {c : Char} (h : c ∉ s) (rest : List Char) :
    (s ++ c :: rest).takeWhile (fun d => d != c) = s ∧
      (s ++ c :: rest).dropWhile (fun d => d != c) = c :: rest := by
  refine span_append (fun d hd => ?_) (fun d hd => ?_)
  · rw [bne_iff_ne]
    rintro rfl
    exact h hd
  · rw [← Option.some.inj hd]
    exact bne_self_eq_false c

def strip (s : String) : String :=
  String.ofList (lstripChars (lstripChars s.toList).reverse).reverse

def lowerAscii (s : String) : String := String.ofList (s.toList.map Char.toLower)

def upperAscii (s : String) : String := String.ofList (s.toList.map Char.toUpper)

theorem toNat_toUpper (c : Char) :
    c.toUpper.toNat = if 97 ≤ c.toNat ∧ c.toNat ≤ 122 then c.toNat - 32 else c.toNat := by
  unfold Char.toUpper
  have ha : 'a'.val.toNat = 97 := rfl
  have hz : 'z'.val.toNat = 122 := rfl
  have hn : c.val.toNat = c.toNat := rfl
  split
  · rename_i h
    rw [UInt32.le_iff_toNat_le, UInt32.le_iff_toNat_le, ha, hz, hn] at h
    rw [if_pos h]
    show (c.val + ('A'.val - 'a'.val)).toNat = _
    rw [UInt32.toNat_add, hn]
    have hd : ('A'.val - 'a'.val).toNat = 2 ^ 32 - 32 := rfl
    rw [hd]
    omega
  · rename_i h
    rw [UInt32.le_iff_toNat_le, UInt32.le_iff_toNat_le, ha, hz, hn] at h
    rw [if_neg h]

theorem toUpper_toUpper (c : Char) : c.toUpper.toUpper = c.toUpper := by
  apply Char.toNat_inj.mp
  rw [toNat_toUpper, toNat_toUpper]
  split_ifs <;> omega

@[simp] theorem upperAscii_upperAscii (s : String) : upperAscii (upperAscii s) = upperAscii s := by
  simp only [upperAscii, String.toList_ofList, List.map_map]
  congr 1
  apply List.map_congr_left
  intro c _
  exact toUpper_toUpper c

/-- `s.startswith(p)`. -/
def textStartsWith (s p : String) : Bool := p.toList.isPrefixOf s.toList

theorem textStartsWith_append (p s : String) : textStartsWith (p ++ s) p = true := by
  unfold textStartsWith
  rw [String.toList_append]
  exact List.isPrefixOf_iff_prefix.mpr (List.prefix_append _ _)

/-- `s.endswith(p)`. -/
def textEndsWith (s p : String) : Bool := p.toList.isSuffixOf s.toList

/-- `p in s` for two strings. -/
def textContains (s p : String) : Bool := decide (p.toList <:+: s.toList)

/-- `s.removeprefix(p)`. -/
def removePrefixText (s p : String) : String :=
  if textStartsWith s p then String.ofList (s.toList.drop p.toList.length) else s

/-- Code point order of two strings, as `<` compares them. -/
def textLt (s t : String) : Bool := decide (s.toList < t.toList)

/-- `s.split(c)` for a separator of one character. -/
def splitText (c : Char) (s : String) : List String := (s.toList.splitOn c).map String.ofList

/-- `s.zfill(2)` of a one character string. -/
def zfillTwo (s : String) : String :=
  if s.toList.length = 1 then String.ofList ('0' :: s.toList) else s

/-- The UTF-8 bytes of a string. -/
def encodeUtf8 (s : String) : List UInt8 := s.toUTF8.toList

/-! ### Texts next to each other -/

section

variable {α : Type*} {p y x : List α} {c : α} {k : ℕ} {xs : List (List α)}

theorem getLast?_of_prefix_replicate (hp : p ≠ []) (h : p <+: List.replicate k c) :
    p.getLast? = some c := by
  have hmem := h.subset (List.getLast_mem hp)
  rw [List.getLast?_eq_some_getLast hp, (List.mem_replicate.mp hmem).2]

theorem infix_replicate_append (hp : p ≠ []) (hhead : p.head? ≠ some c)
    (h : p <:+: List.replicate k c ++ y) : p <:+: y := by
  induction k with
  | zero => simpa using h
  | succ k ih =>
    rw [List.replicate_succ, List.cons_append, List.infix_cons_iff] at h
    rcases h with hpre | hinf
    · cases p with
      | nil => exact absurd rfl hp
      | cons a p =>
        rw [List.cons_prefix_cons] at hpre
        exact absurd (congrArg some hpre.1) hhead
    · exact ih hinf

/-- A long run of a letter separates: what neither starts nor ends with it lies on
one side. -/
theorem infix_append_replicate_append (hp : p ≠ [])
    (hhead : p.head? ≠ some c) (hlast : p.getLast? ≠ some c) (hk : p.length ≤ k)
    (h : p <:+: x ++ (List.replicate k c ++ y)) : p <:+: x ∨ p <:+: y := by
  induction x with
  | nil => exact Or.inr (infix_replicate_append hp hhead h)
  | cons a x ih =>
    rw [List.cons_append, List.infix_cons_iff] at h
    rcases h with hpre | hinf
    · have hx : a :: x <+: a :: (x ++ (List.replicate k c ++ y)) :=
        List.prefix_append (a :: x) (List.replicate k c ++ y)
      rcases Nat.le_total p.length (a :: x).length with hle | hge
      · exact Or.inl (List.prefix_of_prefix_length_le hpre hx hle).isInfix
      · -- the rest of `p` would be a part of the run
        obtain ⟨q, rfl⟩ := List.prefix_of_prefix_length_le hx hpre hge
        have hq : q <+: List.replicate k c ++ y := by
          rw [← List.cons_append] at hpre
          exact (List.prefix_append_right_inj _).mp hpre
        have hlen : q.length ≤ k := by
          rw [List.length_append] at hk
          omega
        have hrep : q <+: List.replicate k c :=
          List.prefix_of_prefix_length_le hq (List.prefix_append _ _) (by simpa using hlen)
        rcases List.eq_nil_or_concat q with hnil | hcons
        · subst hnil
          exact Or.inl ((List.append_nil (a :: x)).symm ▸ List.infix_rfl)
        · have hne : q ≠ [] := by
            obtain ⟨init, last, rfl⟩ := hcons
            simp
          refine absurd ?_ hlast
          rw [List.getLast?_append_of_ne_nil _ hne]
          exact getLast?_of_prefix_replicate hne hrep
    · rcases ih hinf with hx | hy
      · exact Or.inl (hx.trans (List.infix_cons List.infix_rfl))
      · exact Or.inr hy

/-- Texts, each with a run of a letter behind it. -/
def separated (c : α) (k : ℕ) (xs : List (List α)) : List α :=
  xs.flatMap (fun x => x ++ List.replicate k c)

theorem infix_separated (k : ℕ) (h : x ∈ xs) : x <:+: separated c k xs := by
  induction xs with
  | nil => exact absurd h (List.not_mem_nil)
  | cons y ys ih =>
    show x <:+: y ++ List.replicate k c ++ separated c k ys
    rcases List.mem_cons.mp h with rfl | htail
    · rw [List.append_assoc]
      exact (List.prefix_append x _).isInfix
    · exact (ih htail).trans (List.suffix_append _ _).isInfix

theorem exists_infix_of_infix_separated (hp : p ≠ [])
    (hhead : p.head? ≠ some c) (hlast : p.getLast? ≠ some c) (hk : p.length ≤ k)
    (h : p <:+: separated c k xs) : ∃ x ∈ xs, p <:+: x := by
  induction xs with
  | nil => exact absurd (List.infix_nil.mp h) hp
  | cons y ys ih =>
    have h' : p <:+: y ++ (List.replicate k c ++ separated c k ys) := by
      rw [← List.append_assoc]
      exact h
    rcases infix_append_replicate_append hp hhead hlast hk h' with hy | hys
    · exact ⟨y, List.mem_cons_self, hy⟩
    · obtain ⟨x, hx, hpx⟩ := ih hys
      exact ⟨x, List.mem_cons_of_mem _ hx, hpx⟩

end

theorem textContains_iff {s p : String} : textContains s p = true ↔ p.toList <:+: s.toList :=
  decide_eq_true_iff

theorem textContains_self (s : String) : textContains s s = true :=
  textContains_iff.mpr List.infix_rfl

theorem textContains_trans {s t u : String} (hst : textContains s t = true)
    (htu : textContains t u = true) : textContains s u = true :=
  textContains_iff.mpr ((textContains_iff.mp htu).trans (textContains_iff.mp hst))

/-- **There is a text that contains each of the given ones, and contains `p` only
if one of them does.** -/
theorem exists_text_containing (ts : List String) (p : String) :
    ∃ s : String, (∀ t ∈ ts, textContains s t = true) ∧
      (p ≠ "" → textContains s p = true → ∃ t ∈ ts, textContains t p = true) := by
  -- a letter that `p` neither starts nor ends with
  have hfresh : ∃ c : Char, p.toList.head? ≠ some c ∧ p.toList.getLast? ≠ some c := by
    by_contra hall
    push Not at hall
    have ha := hall 'a'
    have hb := hall 'b'
    have hc := hall 'c'
    by_cases h1 : p.toList.head? = some 'a'
    · rw [h1] at hb hc
      have h2 := (hb (by decide)).symm.trans (hc (by decide))
      exact absurd h2 (by decide)
    · have h2 := ha h1
      rw [h2] at hb hc
      by_cases h3 : p.toList.head? = some 'b'
      · rw [h3] at hc
        exact absurd (hc (by decide)) (by decide)
      · exact absurd (hb h3) (by decide)
  obtain ⟨c, hhead, hlast⟩ := hfresh
  refine ⟨String.ofList (separated c p.toList.length (ts.map String.toList)), ?_, ?_⟩
  · intro t ht
    rw [textContains_iff, String.toList_ofList]
    exact infix_separated _ (List.mem_map_of_mem ht)
  · intro hne hcontains
    rw [textContains_iff, String.toList_ofList] at hcontains
    have hnil : p.toList ≠ [] := fun h => hne (String.toList_eq_nil_iff.mp h)
    obtain ⟨x, hx, hpx⟩ :=
      exists_infix_of_infix_separated hnil hhead hlast le_rfl hcontains
    obtain ⟨t, ht, rfl⟩ := List.mem_map.mp hx
    exact ⟨t, ht, textContains_iff.mpr hpx⟩

end RtfmEv.Lib
