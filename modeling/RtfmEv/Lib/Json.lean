import Mathlib.Data.Rat.Defs

/-!
# JSON documents

The values of a decoded JSON document, with `==` as the decoding language has it:
numbers and truth values compare by their number, and objects without regard to
the order of their keys. Numbers are exact rationals.
-/

namespace RtfmEv.Lib

inductive Json
  | null
  | bool (b : Bool)
  | int (n : ℤ)
  | float (x : ℚ)
  | str (s : String)
  | arr (xs : List Json)
  | obj (fields : List (String × Json))

namespace Json

/-- The number a value is in a comparison. -/
def num? : Json → Option ℚ
  | .bool b => some (if b then 1 else 0)
  | .int n => some n
  | .float x => some x
  | _ => none

mutual

/-- `a == b`. -/
def pyEq : Json → Json → Bool
  | .null, .null => true
  | .str s, .str t => s == t
  | .arr xs, .arr ys => pyEqItems xs ys
  | .obj fs, .obj gs => fs.length == gs.length && hasFields fs gs
  | .bool b, c => some (if b then 1 else 0) == c.num?
  | .int n, c => some (n : ℚ) == c.num?
  | .float x, c => some x == c.num?
  | _, _ => false

/-- `a == b` of two lists. -/
def pyEqItems : List Json → List Json → Bool
  | [], [] => true
  | x :: xs, y :: ys => pyEq x y && pyEqItems xs ys
  | _, _ => false

/-- Every field of an object is a field of another one. -/
def hasFields : List (String × Json) → List (String × Json) → Bool
  | [], _ => true
  | (k, v) :: fs, gs => gs.any (fun g => k == g.1 && pyEq v g.2) && hasFields fs gs

end

/-- `bool(v)`. -/
def truthy : Json → Bool
  | .null => false
  | .bool b => b
  | .int n => n != 0
  | .float x => x != 0
  | .str s => s != ""
  | .arr xs => !xs.isEmpty
  | .obj fs => !fs.isEmpty

/-- `fields.get(key)` of an object. -/
def field (fields : List (String × Json)) (key : String) : Option Json :=
  (fields.find? (fun f => f.1 == key)).map Prod.snd

/-- `v.get(key)`, and nothing when `v` is no object. -/
def get? : Json → String → Option Json
  | .obj fields, key => field fields key
  | _, _ => none

/-! ### A value equals itself -/

theorem hasFields_of_subset {fs gs : List (String × Json)}
    (hrefl : ∀ f ∈ fs, pyEq f.2 f.2 = true) (h : ∀ f ∈ fs, f ∈ gs) : hasFields fs gs = true := by
  induction fs with
  | nil => rfl
  | cons f fs ih =>
    obtain ⟨k, v⟩ := f
    unfold hasFields
    rw [Bool.and_eq_true]
    refine ⟨?_, ih ?_ ?_⟩
    · apply List.any_eq_true.mpr
      refine ⟨(k, v), h _ List.mem_cons_self, ?_⟩
      rw [Bool.and_eq_true]
      exact ⟨beq_self_eq_true k, hrefl _ List.mem_cons_self⟩
    · intro f hf
      exact hrefl f (List.mem_cons_of_mem _ hf)
    · intro f hf
      exact h f (List.mem_cons_of_mem _ hf)

mutual

theorem pyEq_refl : ∀ a : Json, pyEq a a = true
  | .null => by unfold pyEq; rfl
  | .bool b => by unfold pyEq; exact beq_self_eq_true _
  | .int n => by unfold pyEq; exact beq_self_eq_true _
  | .float x => by unfold pyEq; exact beq_self_eq_true _
  | .str s => by unfold pyEq; exact beq_self_eq_true s
  | .arr xs => by unfold pyEq; exact pyEqItems_refl xs
  | .obj fs => by
    unfold pyEq
    rw [beq_self_eq_true, Bool.true_and]
    exact hasFields_of_subset (fields_refl fs) (fun _ hf => hf)

theorem pyEqItems_refl : ∀ xs : List Json, pyEqItems xs xs = true
  | [] => by unfold pyEqItems; rfl
  | x :: xs => by
    unfold pyEqItems
    rw [pyEq_refl x, pyEqItems_refl xs]
    rfl

theorem fields_refl : ∀ fs : List (String × Json), ∀ f ∈ fs, pyEq f.2 f.2 = true
  | [] => fun _ hf => nomatch hf
  | (k, v) :: fs => fun f hf => by
    rcases List.mem_cons.mp hf with rfl | hf
    · exact pyEq_refl v
    · exact fields_refl fs f hf

end

end Json

end RtfmEv.Lib
