import RtfmEv.Lib.Bytes

/-!
# Base64

Bytes are taken apart into groups of six bits, three bytes into four of them, and a group
is written as a character of the alphabet. The strict decoder takes characters of the
alphabet and padding after them, as much as closes the last four; the bits of the last
character that no byte takes are not looked at. Some versions of the decoder also take
padding after complete fours, which is a parameter.
-/

namespace RtfmEv.Lib

def base64Alphabet : List Char :=
  "ABCDEFGHIJKLMNOPQRSTUVWXYZabcdefghijklmnopqrstuvwxyz0123456789+/".toList

def base64Char (n : ℕ) : Char := base64Alphabet.getD n 'A'

def base64Value (c : Char) : Option ℕ := base64Alphabet.idxOf? c

/-- The groups of six bits of some bytes, the last one filled up with zeros. -/
def sextets : Bytes → List ℕ
  | x :: y :: z :: rest =>
    x.toNat / 4 :: (x.toNat % 4 * 16 + y.toNat / 16) :: (y.toNat % 16 * 4 + z.toNat / 64) ::
      z.toNat % 64 :: sextets rest
  | [x, y] => [x.toNat / 4, x.toNat % 4 * 16 + y.toNat / 16, y.toNat % 16 * 4]
  | [x] => [x.toNat / 4, x.toNat % 4 * 16]
  | [] => []

/-- The bytes of groups of six bits. -/
def ofSextets : List ℕ → Bytes
  | a :: b :: c :: d :: rest =>
    UInt8.ofNat (a * 4 + b / 16) :: UInt8.ofNat (b % 16 * 16 + c / 4) ::
      UInt8.ofNat (c % 4 * 64 + d) :: ofSextets rest
  | [a, b, c] => [UInt8.ofNat (a * 4 + b / 16), UInt8.ofNat (b % 16 * 16 + c / 4)]
  | [a, b] => [UInt8.ofNat (a * 4 + b / 16)]
  | _ => []

/-- The characters of some bytes, without the padding. -/
def base64Data (b : Bytes) : List Char := (sextets b).map base64Char

/-- `base64.b64encode`. -/
def b64encode (b : Bytes) : List Char :=
  base64Data b ++ List.replicate ((3 - b.length % 3) % 3) '='

/-- Whether so much padding may follow so many characters. -/
def closesBase64 (excess : Bool) (chars pads : ℕ) : Bool :=
  match chars % 4 with
  | 0 => pads = 0 || (excess && chars ≠ 0)
  | 2 => pads = 2
  | 3 => pads = 1
  | _ => false

def isBase64 (c : Char) : Bool := (base64Value c).isSome

/-- `binascii.a2b_base64` in strict mode. -/
def a2bBase64 (excess : Bool) (s : List Char) : Option Bytes :=
  if (s.dropWhile isBase64).all (fun c => c = '=') &&
      closesBase64 excess (s.takeWhile isBase64).length (s.dropWhile isBase64).length then
    some (ofSextets ((s.takeWhile isBase64).filterMap base64Value))
  else none

/-! ### Groups of six bits -/

theorem sextets_lt (b : Bytes) : ∀ n ∈ sextets b, n < 64 := by
  induction b using sextets.induct with
  | case1 x y z rest ih =>
    have hx := x.toNat_lt
    have hy := y.toNat_lt
    intro n hn
    rw [sextets] at hn
    simp only [List.mem_cons] at hn
    rcases hn with rfl | rfl | rfl | rfl | hn
    · omega
    · omega
    · have hz := z.toNat_lt
      omega
    · omega
    · exact ih n hn
  | case2 x y =>
    have hx := x.toNat_lt
    have hy := y.toNat_lt
    intro n hn
    simp only [sextets, List.mem_cons, List.not_mem_nil, or_false] at hn
    omega
  | case3 x =>
    have hx := x.toNat_lt
    intro n hn
    simp only [sextets, List.mem_cons, List.not_mem_nil, or_false] at hn
    omega
  | case4 =>
    intro n hn
    cases hn

theorem ofNat_of_eq {n : ℕ} {x : UInt8} (h : n = x.toNat) : UInt8.ofNat n = x := by
  rw [h, UInt8.ofNat_toNat]

/-- **Bytes are put together again** from their groups. -/
theorem ofSextets_sextets (b : Bytes) : ofSextets (sextets b) = b := by
  induction b using sextets.induct with
  | case1 x y z rest ih =>
    rw [sextets, ofSextets, ih]
    have hx := x.toNat_lt
    have hy := y.toNat_lt
    have hz := z.toNat_lt
    rw [ofNat_of_eq (x := x) (by omega), ofNat_of_eq (x := y) (by omega),
      ofNat_of_eq (x := z) (by omega)]
  | case2 x y =>
    have hx := x.toNat_lt
    have hy := y.toNat_lt
    rw [sextets, ofSextets, ofNat_of_eq (x := x) (by omega), ofNat_of_eq (x := y) (by omega)]
  | case3 x =>
    have hx := x.toNat_lt
    rw [sextets, ofSextets, ofNat_of_eq (x := x) (by omega)]
  | case4 => rfl

/-- How many groups the bytes have, and what closes the last four. -/
theorem length_sextets (b : Bytes) :
    (sextets b).length % 4 = (if b.length % 3 = 0 then 0 else b.length % 3 + 1) := by
  induction b using sextets.induct with
  | case1 x y z rest ih =>
    rw [sextets]
    simp only [List.length_cons]
    have h4 : ((sextets rest).length + 1 + 1 + 1 + 1) % 4 = (sextets rest).length % 4 := by omega
    have h3 : (rest.length + 1 + 1 + 1) % 3 = rest.length % 3 := by omega
    rw [h4, h3, ih]
  | case2 x y => rfl
  | case3 x => rfl
  | case4 => rfl

/-! ### Characters -/

/-- A number below 64 is read back from its character, which is neither padding nor space. -/
theorem base64Char_spec : ∀ n < 64, base64Value (base64Char n) = some n ∧ base64Char n ≠ '=' := by
  decide +kernel

theorem isBase64_pad : isBase64 '=' = false := by decide

theorem isBase64_base64Data (b : Bytes) : ∀ c ∈ base64Data b, isBase64 c = true := by
  intro c hc
  obtain ⟨n, hn, rfl⟩ := List.mem_map.mp hc
  rw [isBase64, (base64Char_spec n (sextets_lt b n hn)).1]
  rfl

theorem filterMap_base64Data (b : Bytes) : (base64Data b).filterMap base64Value = sextets b := by
  have hall : ∀ l : List ℕ, (∀ n ∈ l, n < 64) → (l.map base64Char).filterMap base64Value = l := by
    intro l hl
    induction l with
    | nil => rfl
    | cons n l ih =>
      rw [List.map_cons,
        List.filterMap_cons_some (base64Char_spec n (hl n List.mem_cons_self)).1,
        ih fun m hm => hl m (List.mem_cons_of_mem _ hm)]
  exact hall _ (sextets_lt b)

/-! ### The strict decoder -/

/-- Characters before padding are told from it. -/
theorem takeWhile_pad {p : Char → Bool} {data : List Char} (hdata : ∀ c ∈ data, p c = true)
    (hpad : p '=' = false) (n : ℕ) :
    (data ++ List.replicate n '=').takeWhile p = data ∧
      (data ++ List.replicate n '=').dropWhile p = List.replicate n '=' := by
  refine span_append hdata fun c hc => ?_
  rw [List.eq_of_mem_replicate (List.mem_of_head? hc), hpad]

theorem eq_replicate_of_all {l : List Char} (h : l.all (fun c => c = '=') = true) :
    l = List.replicate l.length '=' := by
  rw [List.eq_replicate_iff]
  refine ⟨rfl, ?_⟩
  intro c hc
  simpa using List.all_eq_true.mp h c hc

/-- **What the strict decoder takes.** -/
theorem a2bBase64_eq_some_iff {excess : Bool} {s : List Char} {b : Bytes} :
    a2bBase64 excess s = some b ↔ ∃ data pads, s = data ++ List.replicate pads '=' ∧
      (∀ c ∈ data, isBase64 c = true) ∧ closesBase64 excess data.length pads = true ∧
      ofSextets (data.filterMap base64Value) = b := by
  constructor
  · intro h
    obtain ⟨hcond, heq⟩ := Option.ite_none_right_eq_some.mp h
    rw [Bool.and_eq_true] at hcond
    refine ⟨s.takeWhile isBase64, (s.dropWhile isBase64).length, ?_, ?_, hcond.2,
      Option.some.inj heq⟩
    · rw [← eq_replicate_of_all hcond.1, List.takeWhile_append_dropWhile]
    · intro c hc
      exact List.mem_takeWhile_imp hc
  · rintro ⟨data, pads, rfl, hdata, hcloses, rfl⟩
    obtain ⟨htake, hdrop⟩ := takeWhile_pad hdata isBase64_pad pads
    rw [a2bBase64, htake, hdrop, List.length_replicate, hcloses, if_pos]
    rw [Bool.and_true, List.all_eq_true]
    intro c hc
    simpa using List.eq_of_mem_replicate hc

end RtfmEv.Lib
