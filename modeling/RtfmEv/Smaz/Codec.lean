import RtfmEv.Lib.Bytes

/-!
# SMAZ (`app/smaz.py`)

A stream is a sequence of codes: a byte below 254 stands for an entry of the codebook, 254
is followed by one byte that stands for itself, and 255 by a length and as many such bytes
and one more. The encoder takes the longest entry at each place and gathers the bytes at
which there is none.

Both go through their input once, so the length of the input bounds their rounds.
-/

namespace RtfmEv.Smaz

open RtfmEv.Lib

@[irreducible] def codebook : List String :=
  [" ", "the", "e", "t", "a", "of", "o", "and", "i", "n", "s", "e ", "r", " th", " t", "in", "he",
    "th", "h", "he ", "to", "\r\n", "l", "s ", "d", " a", "an", "er", "c", " o", "d ", "on",
    " of", "re", "of ", "t ", ", ", "is", "u", "at", "   ", "n ", "or", "which", "f", "m", "as",
    "it", "that", "\n", "was", "en", "  ", " w", "es", " an", " i", "\r", "f ", "g", "p", "nd",
    " s", "nd ", "ed ", "w", "ed", "http://", "for", "te", "ing", "y ", "The", " c", "ti", "r ",
    "his", "st", " in", "ar", "nt", ",", " to", "y", "ng", " h", "with", "le", "al", "to ", "b",
    "ou", "be", "were", " b", "se", "o ", "ent", "ha", "ng ", "their", "\"", "hi", "from", " f",
    "in ", "de", "ion", "me", "v", ".", "ve", "all", "re ", "ri", "ro", "is ", "co", "f t", "are",
    "ea", ". ", "her", " m", "er ", " p", "es ", "by", "they", "di", "ra", "ic", "not", "s, ",
    "d t", "at ", "ce", "la", "h ", "ne", "as ", "tio", "on ", "n t", "io", "we", " a ", "om",
    ", a", "s o", "ur", "li", "ll", "ch", "had", "this", "e t", "g ", "e\r\n", " wh", "ere",
    " co", "e o", "a ", "us", " d", "ss", "\n\r\n", "\r\n\r", "=\"", " be", " e", "s a", "ma",
    "one", "t t", "or ", "but", "el", "so", "l ", "e s", "s,", "no", "ter", " wa", "iv", "ho",
    "e a", " r", "hat", "s t", "ns", "ch ", "wh", "tr", "ut", "/", "have", "ly ", "ta", " ha",
    " on", "tha", "-", " l", "ati", "en ", "pe", " re", "there", "ass", "si", " fo", "wa", "ec",
    "our", "who", "its", "z", "fo", "rs", ">", "ot", "un", "<", "im", "th ", "nc", "ate", "><",
    "ver", "ad", " we", "ly", "ee", " n", "id", " cl", "ac", "il", "</", "rt", " wi", "div",
    "e, ", " it", "whi", " ma", "ge", "x", "e c", "men", ".com"]

def verbatimSingle : UInt8 := 254
def verbatimRun : UInt8 := 255

/-- `entry.encode("ascii")`. -/
def encodeAscii (entry : String) : Bytes := entry.toList.map fun c => UInt8.ofNat c.toNat

def codebookBytes : List Bytes := codebook.map encodeAscii

def maxEntryLen : ℕ := (codebookBytes.map List.length).foldl max 0

/-! ### Decompressing -/

/-- The rounds of `decompress`, `none` on a truncated stream. -/
def decompressRounds : ℕ → Bytes → Option Bytes
  | _, [] => some []
  | 0, _ => none
  | rounds + 1, code :: rest =>
    if code = verbatimSingle then
      match rest with
      | [] => none
      | b :: rest => (decompressRounds rounds rest).map (b :: ·)
    else if code = verbatimRun then
      match rest with
      | [] => none
      | n :: rest =>
        if rest.length < n.toNat + 1 then none
        else (decompressRounds rounds (rest.drop (n.toNat + 1))).map
          (rest.take (n.toNat + 1) ++ ·)
    else (decompressRounds rounds rest).map (codebookBytes.getD code.toNat [] ++ ·)

def decompress (data : Bytes) : Option Bytes := decompressRounds data.length data

/-! ### Compressing -/

/-- The search for the longest entry at the start of some bytes, from a code on, with the best
one so far. It ends early at an entry of the greatest length. -/
def bestMatch (data : Bytes) (maxLen : ℕ) : ℕ → List Bytes → Option (ℕ × Bytes) → Option (ℕ × Bytes)
  | _, [], best => best
  | code, entry :: entries, best =>
    if maxLen < entry.length ∨ entry.length ≤ best.elim 0 (fun b => b.2.length) then
      bestMatch data maxLen (code + 1) entries best
    else if entry.isPrefixOf data then
      if entry.length = maxLen then some (code, entry)
      else bestMatch data maxLen (code + 1) entries (some (code, entry))
    else bestMatch data maxLen (code + 1) entries best

def flushVerbatim : Bytes → Bytes
  | [] => []
  | [b] => [verbatimSingle, b]
  | verbatim => verbatimRun :: UInt8.ofNat (verbatim.length - 1) :: verbatim

/-- The rounds of `compress`: what they append to the output. -/
def compressRounds : ℕ → Bytes → Bytes → Bytes
  | _, verbatim, [] => flushVerbatim verbatim
  | 0, verbatim, _ => flushVerbatim verbatim
  | rounds + 1, verbatim, b :: data =>
    match bestMatch (b :: data) (min (b :: data).length maxEntryLen) 0 codebookBytes none with
    | some (code, entry) =>
      flushVerbatim verbatim ++
        UInt8.ofNat code :: compressRounds rounds [] ((b :: data).drop entry.length)
    | none =>
      if (verbatim ++ [b]).length = 256 then
        flushVerbatim (verbatim ++ [b]) ++ compressRounds rounds [] data
      else compressRounds rounds (verbatim ++ [b]) data

def compress (data : Bytes) : Bytes := compressRounds data.length [] data

/-!
## What is compressed is read back

A stream is well formed when it is made of whole codes; it then has one meaning, which the
decoder computes. The encoder emits such streams whatever entries it takes, as long as an
entry is one of the codebook and stands at the place where it is taken.
-/

/-- The codes of a stream and the bytes they stand for. -/
inductive Stream : Bytes → Bytes → Prop
  | nil : Stream [] []
  | entry {code : UInt8} {s d : Bytes} (hcode : code ≠ verbatimSingle ∧ code ≠ verbatimRun) :
      Stream s d → Stream (code :: s) (codebookBytes.getD code.toNat [] ++ d)
  | single (b : UInt8) {s d : Bytes} : Stream s d → Stream (verbatimSingle :: b :: s) (b :: d)
  | run {n : UInt8} {bs s d : Bytes} (hlength : bs.length = n.toNat + 1) :
      Stream s d → Stream (verbatimRun :: n :: (bs ++ s)) (bs ++ d)

theorem decompressRounds_entry {code : UInt8} (h : code ≠ verbatimSingle ∧ code ≠ verbatimRun)
    (rounds : ℕ) (rest : Bytes) :
    decompressRounds (rounds + 1) (code :: rest) =
      (decompressRounds rounds rest).map (codebookBytes.getD code.toNat [] ++ ·) := by
  cases rest with
  | nil | cons b rest =>
    conv_lhs => rw [decompressRounds, if_neg h.1, if_neg h.2]

variable {d s data v entry : Bytes} {code m rounds : ℕ}

/-- **The decoder** gives a well-formed stream its meaning. -/
theorem decompressRounds_of_stream (h : Stream s d) :
    ∀ rounds, s.length ≤ rounds → decompressRounds rounds s = some d := by
  induction h with
  | nil =>
    intro rounds _
    cases rounds with
    | zero => rfl
    | succ rounds => rfl
  | @entry code s d hcode _ ih =>
    intro rounds hrounds
    cases rounds with
    | zero => cases hrounds
    | succ rounds =>
      have hle := Nat.le_of_succ_le_succ hrounds
      rw [decompressRounds_entry hcode, ih rounds hle]
      rfl
  | single b _ ih =>
    intro rounds hrounds
    cases rounds with
    | zero => cases hrounds
    | succ rounds =>
      have hle := Nat.le_of_succ_le_succ hrounds
      rw [decompressRounds, if_pos rfl]
      simp only [ih rounds (Nat.le_of_succ_le hle), Option.map_some]
  | @run n bs s d hlength _ ih =>
    intro rounds hrounds
    cases rounds with
    | zero => cases hrounds
    | succ rounds =>
      have hle := Nat.le_of_succ_le_succ hrounds
      have hrest : s.length ≤ rounds := by
        rw [List.length_cons, List.length_append] at hle
        omega
      have htake : (bs ++ s).take (n.toNat + 1) = bs := by
        rw [← hlength, List.take_left]
      have hdrop : (bs ++ s).drop (n.toNat + 1) = s := by
        rw [← hlength, List.drop_left]
      rw [decompressRounds, if_neg (by decide), if_pos rfl]
      show (if (bs ++ s).length < n.toNat + 1 then _ else _) = _
      rw [if_neg (by rw [List.length_append]; omega), htake, hdrop, ih rounds hrest]
      rfl

theorem decompress_of_stream (h : Stream s d) : decompress s = some d :=
  decompressRounds_of_stream h s.length le_rfl

/-! #### The encoder -/

theorem length_codebookBytes : codebookBytes.length = 254 := by decide +kernel

/-- An entry with its code, at the start of the bytes. -/
structure Matches (data : Bytes) (code : ℕ) (entry : Bytes) : Prop where
  found : codebookBytes[code]? = some entry
  here : entry <+: data
  nonempty : entry ≠ []

/-- **The search** gives an entry that stands there, if any. -/
theorem bestMatch_spec {entries : List Bytes} {best : Option (ℕ × Bytes)}
    (hbook : ∀ k entry, entries[k]? = some entry → codebookBytes[code + k]? = some entry)
    (hbest : ∀ b ∈ best, Matches data b.1 b.2) :
    ∀ b ∈ bestMatch data m code entries best, Matches data b.1 b.2 := by
  induction entries generalizing code best with
  | nil => exact hbest
  | cons entry entries ih =>
    have hnext : ∀ k e, entries[k]? = some e → codebookBytes[code + 1 + k]? = some e := by
      intro k e he
      have hcode : code + 1 + k = code + (k + 1) := by omega
      rw [hcode]
      exact hbook (k + 1) e he
    rw [bestMatch]
    split
    · exact ih hnext hbest
    rename_i hlong
    split
    · rename_i hpre
      have hnew : Matches data code entry := by
        refine ⟨hbook 0 entry rfl, List.isPrefixOf_iff_prefix.mp hpre, ?_⟩
        rintro rfl
        exact hlong (Or.inr (Nat.zero_le _))
      split
      · intro b hb
        cases hb
        exact hnew
      · refine ih hnext ?_
        intro b hb
        cases hb
        exact hnew
    · exact ih hnext hbest

theorem bestMatch_codebook : ∀ b ∈ bestMatch data m 0 codebookBytes none, Matches data b.1 b.2 := by
  apply bestMatch_spec
  · intro k entry hk
    rwa [Nat.zero_add]
  · intro b hb
    cases hb

theorem stream_flushVerbatim (hv : v.length ≤ 256) (h : Stream s d) :
    Stream (flushVerbatim v ++ s) (v ++ d) := by
  match v with
  | [] => exact h
  | [b] => exact Stream.single b h
  | b :: c :: v =>
    show Stream (verbatimRun :: UInt8.ofNat ((b :: c :: v).length - 1) :: ((b :: c :: v) ++ s))
      ((b :: c :: v) ++ d)
    refine Stream.run ?_ h
    simp only [List.length_cons] at hv ⊢
    rw [toNat_ofNat_of_lt (by omega)]
    omega

theorem stream_verbatim (hv : v.length ≤ 256) : Stream (flushVerbatim v) v := by
  have hstream := stream_flushVerbatim hv Stream.nil
  rwa [List.append_nil, List.append_nil] at hstream

theorem stream_entry (h : Matches data code entry)
    (hs : Stream s (data.drop entry.length)) : Stream (UInt8.ofNat code :: s) data := by
  have hcode : code < 254 := by
    rw [← length_codebookBytes]
    exact (List.getElem?_eq_some_iff.mp h.found).1
  have hto : (UInt8.ofNat code).toNat = code := toNat_ofNat_of_lt (by omega)
  have hne : UInt8.ofNat code ≠ verbatimSingle ∧ UInt8.ofNat code ≠ verbatimRun := by
    constructor
    · intro heq
      rw [heq] at hto
      have hsingle : verbatimSingle.toNat = 254 := rfl
      omega
    · intro heq
      rw [heq] at hto
      have hrun : verbatimRun.toNat = 255 := rfl
      omega
  have hstream := Stream.entry hne hs
  rw [hto, List.getD_eq_getElem?_getD, h.found] at hstream
  obtain ⟨rest, rfl⟩ := h.here
  rw [List.drop_left] at hstream
  exact hstream

theorem Matches.length_drop_le {b : UInt8}
    (h : Matches (b :: data) code entry) (hdata : data.length ≤ rounds) :
    ((b :: data).drop entry.length).length ≤ rounds := by
  have hpos := List.length_pos_of_ne_nil h.nonempty
  rw [List.length_drop, List.length_cons]
  omega

/-- **The encoder** writes a stream for the bytes gathered and those that are left. -/
theorem stream_compressRounds {verbatim : Bytes} (hrounds : data.length ≤ rounds)
    (hverbatim : verbatim.length < 256) :
    Stream (compressRounds rounds verbatim data) (verbatim ++ data) := by
  induction rounds generalizing verbatim data with
  | zero =>
    rw [List.length_eq_zero_iff.mp (Nat.le_zero.mp hrounds), List.append_nil]
    exact stream_verbatim hverbatim.le
  | succ rounds ih =>
    cases data with
    | nil =>
      rw [List.append_nil]
      exact stream_verbatim hverbatim.le
    | cons b data =>
      have hdata : data.length ≤ rounds := Nat.le_of_succ_le_succ hrounds
      rw [compressRounds]
      split
      · rename_i code entry hbest
        have hmatch := bestMatch_codebook (code, entry) hbest
        exact stream_flushVerbatim hverbatim.le
          (stream_entry hmatch (ih (hmatch.length_drop_le hdata) (by decide)))
      · have hone : verbatim ++ b :: data = (verbatim ++ [b]) ++ data := by simp
        rw [hone]
        split
        · rename_i hfull
          exact stream_flushVerbatim hfull.le (ih hdata (by decide))
        · rename_i hroom
          refine ih hdata ?_
          rw [List.length_append, List.length_singleton] at hroom ⊢
          omega

theorem decompress_compress (data : Bytes) : decompress (compress data) = some data :=
  decompress_of_stream (stream_compressRounds le_rfl (by decide))

end RtfmEv.Smaz
