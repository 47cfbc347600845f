import Mathlib.Data.Rat.Floor
import RtfmEv.Lib.Bytes

/-!
# What the modelled code takes from outside

Hash, cipher, signature and regular expression engines are used through these
functions and never looked into. Numbers that the program holds as floats are
exact rationals. A random source is the sequence of draws from `[0, 1)` that it
is going to return.
-/

namespace RtfmEv

open RtfmEv.Lib

structure Primitives where
  /-- `hashlib.sha256(data).digest()` -/
  sha256 : Bytes → Bytes
  /-- `AES.new(secret, AES.MODE_ECB).decrypt(ciphertext)` -/
  aesEcbDecrypt : Bytes → Bytes → Bytes
  /-- `VerifyKey(public_key).verify(message, signature)` without an exception -/
  verifyKey : Bytes → Bytes → Bytes → Bool
  /-- `bytes.decode("utf-8", errors="strict")` without an exception -/
  isUtf8 : Bytes → Bool
  /-- `re.compile(pattern).search(text) is not None`, `none` on `re.error` -/
  reSearch : String → String → Option Bool
  /-- `float(text)` of a finite number, `none` on `ValueError` -/
  parseFloat : String → Option ℚ
  /-- `str(x)` of a float -/
  strFloat : ℚ → String
  /-- `repr(s)` of a string -/
  reprStr : String → String

namespace Primitives

/-- HMAC over `sha256`, block size 64. -/
def hmacSha256 (P : Primitives) (key message : Bytes) : Bytes :=
  let key := if key.length > 64 then P.sha256 key else key
  let block := key ++ List.replicate (64 - key.length) 0
  let inner := P.sha256 (block.map (fun b => b ^^^ 0x36) ++ message)
  P.sha256 (block.map (fun b => b ^^^ 0x5C) ++ inner)

end Primitives

/-- A seeded random source, as the draws it has left. -/
structure Random where
  draw : ℕ → ℚ
  draw_nonneg : ∀ i, 0 ≤ draw i
  draw_lt_one : ∀ i, draw i < 1

namespace Random

/-- The source after one draw. -/
def next (r : Random) : Random :=
  ⟨fun i => r.draw (i + 1), fun _ => r.draw_nonneg _, fun _ => r.draw_lt_one _⟩

/-- `randrange(n)`. -/
def randrange (r : Random) (n : ℕ) : ℕ × Random := (⌊r.draw 0 * n⌋.toNat, r.next)

/-- `uniform(a, b)`. -/
def uniform (r : Random) (a b : ℚ) : ℚ × Random := (a + (b - a) * r.draw 0, r.next)

/-- A source that always draws zero. -/
def zero : Random := ⟨fun _ => 0, fun _ => le_rfl, fun _ => zero_lt_one⟩

end Random

/-- `int(x)`: truncation toward zero. -/
def pyInt (x : ℚ) : ℤ := if 0 ≤ x then ⌊x⌋ else ⌈x⌉

end RtfmEv
