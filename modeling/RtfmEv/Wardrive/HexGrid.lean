import Mathlib.Analysis.Real.Sqrt
import Mathlib.Tactic.LinearCombination

/-!
# The hexagon of a point

A point in fractional axial coordinates is rounded in three cube coordinates that sum to zero.
The one with the largest rounding error is taken from the other two. What is left of the errors
lies in the hexagon around zero, and a point of that hexagon is nearest to zero.

Coordinates are numbers of an ordered field with a floor: the rationals, or the reals for points
on the map.
-/

namespace RtfmEv.HexGrid

section Field

variable {F : Type*} [Field F] [LinearOrder F] [IsStrictOrderedRing F]

/-- The square of the distance of two points that differ by so much in axial coordinates. -/
def distance (dq dr : F) : F := dq ^ 2 + dq * dr + dr ^ 2

variable [FloorRing F]

/-- `_js_round`, which rounds a half up. -/
def jsRound (v : F) : ℤ := ⌊v + 1 / 2⌋

def round (q r : F) : ℤ × ℤ :=
  let y := -q - r
  let rx := jsRound q
  let ry := jsRound y
  let rz := jsRound r
  let dx := |rx - q|
  let dy := |ry - y|
  let dz := |rz - r|
  if dx > dy ∧ dx > dz then (-ry - rz, rz)
  -- here the source takes `ry` from the others, which it does not return
  else if dy > dz then (rx, rz)
  else (rx, -rx - ry)

/-! ### The hexagon around zero -/

omit [FloorRing F] in
/-- A point whose cube coordinates differ by at most one is nowhere nearer than at zero. -/
theorem distance_le_of_hexagon {a b c : F} (hsum : a + b + c = 0) (hab : |a - b| ≤ 1)
    (hcb : |c - b| ≤ 1) (hac : |a - c| ≤ 1) (m n : ℤ) :
    distance a c ≤ distance (a + m) (c + n) := by
  have hsquare : ∀ k : ℤ, |(k : F)| ≤ (k : F) ^ 2 := fun k => by
    have hk : |k| ≤ k ^ 2 := by
      rw [← sq_abs, sq]
      rcases (abs_nonneg k).eq_or_lt with hk | hk
      · rw [← hk, zero_mul]
      · exact le_mul_of_one_le_left hk.le hk
    exact_mod_cast hk
  have hscale : ∀ (t : F) (k : ℤ), |t| ≤ 1 → -|(k : F)| ≤ t * k := fun t k ht => by
    have hmul := mul_le_mul_of_nonneg_right ht (abs_nonneg (k : F))
    rw [← abs_mul, one_mul] at hmul
    exact (abs_le.mp hmul).1
  -- the difference of the two is half of these squares and what the shift adds
  have hdiff : distance (a + m) (c + n) - distance a c =
      ((m : F) ^ 2 + (n : F) ^ 2 + ((m + n : ℤ) : F) ^ 2) / 2 + ((a - b) * m + (c - b) * n) := by
    have hb : b = -a - c := by linarith
    rw [hb, distance, distance]
    push_cast
    ring
  have hm := hsquare m
  have hn := hsquare n
  have hs := hsquare (m + n)
  have hsplit : (a - b) * m + (c - b) * n ≥ -(|(m : F)| + |(n : F)| + |((m + n : ℤ) : F)|) / 2 := by
    have h₁ := hscale _ m hab
    have h₂ := hscale _ n hcb
    have h₃ := hscale _ (m + n) hab
    have h₄ := hscale _ (m + n) hcb
    have h₅ := hscale _ m hac
    have h₆ : -|(n : F)| ≤ (c - a) * n := hscale _ n (abs_sub_comm a c ▸ hac)
    push_cast at h₃ h₄ ⊢
    -- of three numbers with `s = m + n` two have the sign of the largest
    rcases le_total 0 (m : F) with hm | hm <;> rcases le_total 0 (n : F) with hn | hn <;>
      rcases le_total 0 ((m : F) + n) with hs | hs <;>
      simp only [abs_of_nonneg, abs_of_nonpos, hm, hn, hs] at h₁ h₂ h₃ h₄ h₅ h₆ ⊢ <;> linarith
  linarith

omit [FloorRing F] in
/-- Three errors of at most a half, with a whole sum, lie in the hexagon once the largest is
taken from the others. -/
theorem hexagon_of_largest {x y z : F} {s : ℤ} (hx : |x| ≤ 1 / 2) (hy : |y| ≤ 1 / 2)
    (hz : |z| ≤ 1 / 2) (hs : x + y + z = s) (hyx : |y| ≤ |x|) (hzx : |z| ≤ |x|) :
    |(-y - z) - y| ≤ 1 ∧ |(-y - z) - z| ≤ 1 ∧ |y - z| ≤ 1 := by
  obtain ⟨hx₁, hx₂⟩ := abs_le.mp hx
  obtain ⟨hy₁, hy₂⟩ := abs_le.mp hy
  obtain ⟨hz₁, hz₂⟩ := abs_le.mp hz
  have hlow : -2 < s := by
    have h : (-2 : F) < s := by linarith
    exact_mod_cast h
  have hhigh : s < 2 := by
    have h : (s : F) < 2 := by linarith
    exact_mod_cast h
  have hcase : s = -1 ∨ s = 0 ∨ s = 1 := by omega
  rcases hcase with rfl | rfl | rfl
  · push_cast at hs
    rw [abs_of_nonpos (by linarith), abs_of_nonpos (by linarith)] at hyx hzx
    refine ⟨abs_le.mpr ⟨?_, ?_⟩, abs_le.mpr ⟨?_, ?_⟩, abs_le.mpr ⟨?_, ?_⟩⟩ <;> linarith
  · push_cast at hs
    refine ⟨abs_le.mpr ⟨?_, ?_⟩, abs_le.mpr ⟨?_, ?_⟩, abs_le.mpr ⟨?_, ?_⟩⟩ <;> linarith
  · push_cast at hs
    rw [abs_of_nonneg (by linarith), abs_of_nonneg (by linarith)] at hyx hzx
    refine ⟨abs_le.mpr ⟨?_, ?_⟩, abs_le.mpr ⟨?_, ?_⟩, abs_le.mpr ⟨?_, ?_⟩⟩ <;> linarith

/-! ### Rounding -/

theorem abs_jsRound_sub_le (v : F) : |(jsRound v : F) - v| ≤ 1 / 2 := by
  have hle := Int.floor_le (v + 1 / 2)
  have hlt := Int.lt_floor_add_one (v + 1 / 2)
  rw [jsRound, abs_le]
  constructor <;> linarith

theorem jsRound_intCast (n : ℤ) : jsRound (n : F) = n := by
  rw [jsRound, Int.floor_eq_iff]
  constructor <;> linarith

/-- The cell that is chosen differs from the point by cube coordinates inside the hexagon. -/
theorem round_hexagon (q r : F) : ∃ b : F, ((round q r).1 - q) + b + ((round q r).2 - r) = 0 ∧
    |((round q r).1 - q) - b| ≤ 1 ∧ |((round q r).2 - r) - b| ≤ 1 ∧
      |((round q r).1 - q) - ((round q r).2 - r)| ≤ 1 := by
  have hx := abs_jsRound_sub_le q
  have hy := abs_jsRound_sub_le (-q - r)
  have hz := abs_jsRound_sub_le r
  have hsum : ((jsRound q : F) - q) + (jsRound (-q - r) - (-q - r)) + (jsRound r - r) =
      ((jsRound q + jsRound (-q - r) + jsRound r : ℤ) : F) := by
    push_cast
    ring
  simp only [round]
  split_ifs with hfirst hsecond
  · obtain ⟨h₁, h₂, h₃⟩ := hexagon_of_largest hx hy hz hsum hfirst.1.le hfirst.2.le
    refine ⟨jsRound (-q - r) - (-q - r), ?_, ?_, ?_, ?_⟩
    · push_cast
      ring
    · refine le_of_eq_of_le (congrArg _ ?_) h₁
      push_cast
      ring
    · rw [abs_sub_comm]
      exact h₃
    · refine le_of_eq_of_le (congrArg _ ?_) h₂
      push_cast
      ring
  · have hle : |(jsRound q : F) - q| ≤ |(jsRound (-q - r) : F) - (-q - r)| := by
      by_contra hlt
      exact hfirst ⟨lt_of_not_ge hlt, hsecond.trans (lt_of_not_ge hlt)⟩
    obtain ⟨h₁, h₂, h₃⟩ := hexagon_of_largest (s := jsRound q + jsRound (-q - r) + jsRound r)
      hy hx hz (by rw [← hsum]; ring) hle hsecond.le
    refine ⟨-(jsRound q - q) - (jsRound r - r), by ring, ?_, ?_, h₃⟩
    · rw [abs_sub_comm]
      exact h₁
    · rw [abs_sub_comm]
      exact h₂
  · have hle : |(jsRound q : F) - q| ≤ |(jsRound r : F) - r| := by
      by_contra hlt
      exact hfirst ⟨(le_of_not_gt hsecond).trans_lt (lt_of_not_ge hlt), lt_of_not_ge hlt⟩
    obtain ⟨h₁, h₂, h₃⟩ := hexagon_of_largest (s := jsRound q + jsRound (-q - r) + jsRound r)
      hz hx hy (by rw [← hsum]; ring) hle (le_of_not_gt hsecond)
    refine ⟨jsRound (-q - r) - (-q - r), ?_, h₃, ?_, ?_⟩
    · push_cast
      ring
    · refine le_of_eq_of_le (congrArg _ ?_) h₂
      push_cast
      ring
    · rw [abs_sub_comm]
      refine le_of_eq_of_le (congrArg _ ?_) h₁
      push_cast
      ring

/-- **No hexagon is nearer than the one that is chosen.** -/
theorem round_nearest (q r : F) (i j : ℤ) :
    distance ((round q r).1 - q) ((round q r).2 - r) ≤ distance (i - q) (j - r) := by
  obtain ⟨b, hsum, hab, hcb, hac⟩ := round_hexagon q r
  have h := distance_le_of_hexagon hsum hab hcb hac (i - (round q r).1) (j - (round q r).2)
  have hshift : ∀ (n v : F) (k : ℤ), n - v + (k - n) = k - v := fun n v k => by ring
  rwa [Int.cast_sub, Int.cast_sub, hshift, hshift] at h

theorem round_intCast (i j : ℤ) : round (i : F) (j : F) = (i, j) := by
  have hy : jsRound (-(i : F) - j) = -i - j := by
    have h := jsRound_intCast (F := F) (-i - j)
    rwa [Int.cast_sub, Int.cast_neg] at h
  simp [round, jsRound_intCast, hy]

end Field

/-! ### Points on the map -/

/-- `hex_size`: the edge of a hexagon in metres. -/
def hexSize (res : ℤ) : ℕ :=
  match min 15 (max 6 res) with
  | 6 => 1500
  | 7 => 720
  | 8 => 360
  | 9 => 180
  | 10 => 90
  | 11 => 40
  | 12 => 20
  | 13 => 10
  | 14 => 5
  | _ => 3

theorem hexSize_ne_zero (res : ℤ) : (hexSize res : ℝ) ≠ 0 := by
  rw [Nat.cast_ne_zero, hexSize]
  split <;> decide

/-- The fractional axial coordinates that `cell_at` gives to a point in metres. -/
noncomputable def axial (size x y : ℝ) : ℝ × ℝ :=
  ((√3 / 3 * x - y / 3) / size, 2 / 3 * y / size)

noncomputable def centerXY (size : ℝ) (q r : ℤ) : ℝ × ℝ :=
  (size * (√3 * q + √3 / 2 * r), size * 1.5 * r)

/-- `cell_at`, of a point in metres. -/
noncomputable def cellAt (res : ℤ) (x y : ℝ) : ℤ × ℤ :=
  round (axial (hexSize res) x y).1 (axial (hexSize res) x y).2

/-- Distances on the map are those of axial coordinates, up to a scale. -/
theorem sq_dist_centerXY {size : ℝ} (hsize : size ≠ 0) (x y : ℝ) (q r : ℤ) :
    ((centerXY size q r).1 - x) ^ 2 + ((centerXY size q r).2 - y) ^ 2 =
      3 * size ^ 2 * distance (q - (axial size x y).1) (r - (axial size x y).2) := by
  have hroot : √3 ^ 2 = 3 := Real.sq_sqrt (by norm_num)
  have hx : (centerXY size q r).1 - x = size * √3 *
      ((q - (axial size x y).1) + (r - (axial size x y).2) / 2) := by
    simp only [centerXY, axial]
    field_simp
    linear_combination 2 * x * hroot
  have hy : (centerXY size q r).2 - y = size * (3 / 2) * (r - (axial size x y).2) := by
    simp only [centerXY, axial]
    field_simp
    ring
  rw [hx, hy, distance]
  linear_combination size ^ 2 *
    ((q - (axial size x y).1) + (r - (axial size x y).2) / 2) ^ 2 * hroot

/-- **The cell of a point is the nearest hexagon**: of fractional axial coordinates, and so of a
point on the map the one whose centre is nearest. A centre is in its own cell. -/
theorem nearest_hexagon :
    (∀ (q r : ℚ) (i j : ℤ),
      distance ((round q r).1 - q) ((round q r).2 - r) ≤ distance (i - q) (j - r)) ∧
    (∀ i j : ℤ, round (i : ℚ) (j : ℚ) = (i, j)) ∧
    ∀ (res : ℤ) (x y : ℝ) (i j : ℤ),
      ((centerXY (hexSize res) (cellAt res x y).1 (cellAt res x y).2).1 - x) ^ 2 +
          ((centerXY (hexSize res) (cellAt res x y).1 (cellAt res x y).2).2 - y) ^ 2 ≤
        ((centerXY (hexSize res) i j).1 - x) ^ 2 + ((centerXY (hexSize res) i j).2 - y) ^ 2 := by
  refine ⟨round_nearest, round_intCast, fun res x y i j => ?_⟩
  rw [sq_dist_centerXY (hexSize_ne_zero res), sq_dist_centerXY (hexSize_ne_zero res)]
  exact mul_le_mul_of_nonneg_left (round_nearest _ _ i j) (by positivity)

example : round (1 / 2 : ℚ) (1 / 2) = (1, 0) := by decide +kernel

end RtfmEv.HexGrid
