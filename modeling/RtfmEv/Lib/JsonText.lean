import RtfmEv.Lib.Bytes

/-!
# JSON texts

`json.dumps` and `json.loads`: the text of a value, as the encoder of the standard library
writes it, and the recursive reader of such texts. An object keeps the order of its keys.
Finite floats are a type of their own, together with what is documented of their texts.
A text is a list of code points, so half a surrogate pair is not one.
-/

namespace RtfmEv.Lib

/-! ### Values -/

inductive JsonFloat (D : Type*)
  | nan
  | infinity
  | negInfinity
  | finite (d : D)

inductive JsonValue (D : Type*)
  | null
  | bool (b : Bool)
  | int (n : ℤ)
  | float (x : JsonFloat D)
  | str (s : String)
  | arr (xs : List (JsonValue D))
  | obj (fields : List (String × JsonValue D))

namespace JsonValue

variable {D : Type*}

mutual

/-- A test holds of a value and of everything inside it. -/
def every (p : JsonValue D → Bool) : JsonValue D → Bool
  | .arr xs => p (.arr xs) && everyItem p xs
  | .obj fs => p (.obj fs) && everyField p fs
  | .null => p .null
  | .bool b => p (.bool b)
  | .int n => p (.int n)
  | .float x => p (.float x)
  | .str s => p (.str s)

def everyItem (p : JsonValue D → Bool) : List (JsonValue D) → Bool
  | [] => true
  | x :: xs => every p x && everyItem p xs

def everyField (p : JsonValue D → Bool) : List (String × JsonValue D) → Bool
  | [] => true
  | (_, v) :: fs => every p v && everyField p fs

end

/-- An object has each of its keys once. -/
def distinctKeys : JsonValue D → Bool
  | .obj fs => decide (fs.map Prod.fst).Nodup
  | _ => true

def notNaN : JsonValue D → Bool
  | .float .nan => false
  | _ => true

/-- The object does not have a key. -/
def lacksKey (k : String) : JsonValue D → Bool
  | .obj fs => !(fs.map Prod.fst).contains k
  | _ => true

end JsonValue

/-! ### Numbers -/

/-- What the number pattern of the reader matches: `(-?(?:0|[1-9]\d*))(\.\d+)?([eE][-+]?\d+)?`. -/
structure NumberMatch where
  integer : List Char
  frac : List Char
  exp : List Char
deriving DecidableEq, Repr

namespace NumberMatch

def text (m : NumberMatch) : List Char := m.integer ++ m.frac ++ m.exp

def isFloat (m : NumberMatch) : Bool := !m.frac.isEmpty || !m.exp.isEmpty

end NumberMatch

def matchNatural : List Char → Option (List Char × List Char)
  | [] => none
  | c :: s =>
    if c = '0' then some (['0'], s)
    else if c.isDigit then some (c :: s.takeWhile Char.isDigit, s.dropWhile Char.isDigit)
    else none

def matchInteger : List Char → Option (List Char × List Char)
  | [] => none
  | c :: s =>
    if c = '-' then (matchNatural s).map (fun m => ('-' :: m.1, m.2))
    else matchNatural (c :: s)

def matchFrac : List Char → List Char × List Char
  | [] => ([], [])
  | c :: s =>
    if c = '.' ∧ s.takeWhile Char.isDigit ≠ [] then
      ('.' :: s.takeWhile Char.isDigit, s.dropWhile Char.isDigit)
    else ([], c :: s)

/-- The sign of an exponent, and what comes after it. -/
def matchSign : List Char → List Char × List Char
  | [] => ([], [])
  | c :: s => if c = '-' ∨ c = '+' then ([c], s) else ([], c :: s)

def matchExp : List Char → List Char × List Char
  | [] => ([], [])
  | c :: s =>
    if (c = 'e' ∨ c = 'E') ∧ (matchSign s).2.takeWhile Char.isDigit ≠ [] then
      (c :: (matchSign s).1 ++ (matchSign s).2.takeWhile Char.isDigit,
        (matchSign s).2.dropWhile Char.isDigit)
    else ([], c :: s)

def matchNumber (s : List Char) : Option (NumberMatch × List Char) :=
  (matchInteger s).map fun i =>
    let f := matchFrac i.2
    let e := matchExp f.2
    (⟨i.1, f.1, e.1⟩, e.2)

/-- `repr` and `float` of finite floats. The text of a float has a fraction or an exponent, and
it is read back as the float that it is the text of. -/
structure FloatFormat (D : Type*) where
  repr : D → List Char
  ofText : List Char → JsonFloat D
  isZero : D → Bool
  matchNumber_repr : ∀ d, ∃ m, matchNumber (repr d) = some (m, []) ∧ m.isFloat = true
  ofText_repr : ∀ d, ofText (repr d) = .finite d

/-- The most digits of an integer that are converted from or to text. -/
def maxStrDigits : ℕ := 4300

def naturalText (n : ℕ) : List Char := Nat.toDigits 10 n

/-- `str(n)`, without the limit on its length. -/
def integerText (n : ℤ) : List Char :=
  if n < 0 then '-' :: naturalText n.natAbs else naturalText n.natAbs

/-- `int(text)` of a text that `matchInteger` gives. -/
def integerOfText : List Char → Option ℤ
  | [] => none
  | c :: s =>
    let digits := if c = '-' then s else c :: s
    if maxStrDigits < digits.length then none
    else if c = '-' then some (-(Nat.ofDigitChars 10 s 0 : ℤ))
    else some (Nat.ofDigitChars 10 (c :: s) 0 : ℤ)

/-! ### Strings -/

/-- The characters that have an escape of one letter. -/
def backslashEscapes : List (Char × Char) :=
  [('"', '"'), ('\\', '\\'), ('n', '\n'), ('r', '\r'), ('t', '\t'), ('f', '\x0c'),
    ('b', '\x08')]

def hexEscape (n : ℕ) : List Char :=
  ['\\', 'u', hexDigit (n / 4096), hexDigit (n / 256 % 16), hexDigit (n / 16 % 16),
    hexDigit (n % 16)]

/-- One character as `ensure_ascii` writes it. -/
def escapeChar (c : Char) : List Char :=
  match backslashEscapes.find? (fun e => e.2 == c) with
  | some e => ['\\', e.1]
  | none =>
    if 0x20 ≤ c.toNat ∧ c.toNat ≤ 0x7e then [c]
    else if c.toNat < 0x10000 then hexEscape c.toNat
    else hexEscape (0xd800 + (c.toNat - 0x10000) / 0x400) ++
      hexEscape (0xdc00 + (c.toNat - 0x10000) % 0x400)

def quote (s : String) : List Char := '"' :: s.toList.flatMap escapeChar ++ ['"']

/-- Four hexadecimal digits. -/
def hexFour : List Char → Option (ℕ × List Char)
  | a :: b :: c :: d :: s =>
    match hexValue a, hexValue b, hexValue c, hexValue d with
    | some a, some b, some c, some d => some (4096 * a + 256 * b + 16 * c + d, s)
    | _, _, _, _ => none
  | _ => none

/-- The character of a surrogate pair, from its first half on. -/
def scanLowSurrogate (high : ℕ) : List Char → Option (Char × List Char)
  | '\\' :: 'u' :: s =>
    match hexFour s with
    | none => none
    | some (low, s) =>
      if 0xdc00 ≤ low ∧ low ≤ 0xdfff then
        some (Char.ofNat (0x10000 + (high - 0xd800) * 0x400 + (low - 0xdc00)), s)
      else none
  | _ => none

/-- The character of a `\u` escape, which is two of them outside the basic plane. -/
def scanUnicode (s : List Char) : Option (Char × List Char) :=
  match hexFour s with
  | none => none
  | some (n, s) =>
    if 0xd800 ≤ n ∧ n ≤ 0xdbff then scanLowSurrogate n s
    else if 0xdc00 ≤ n ∧ n ≤ 0xdfff then none
    else some (Char.ofNat n, s)

def scanEscape : List Char → Option (Char × List Char)
  | [] => none
  | e :: s =>
    if e = 'u' then scanUnicode s
    else if e = '/' then some ('/', s)
    else (backslashEscapes.lookup e).map (fun c => (c, s))

/-- The next character of a string, none at its closing quote. Control characters are refused. -/
def scanChar : List Char → Option (Option Char × List Char)
  | [] => none
  | c :: s =>
    if c = '"' then some (none, s)
    else if c = '\\' then (scanEscape s).map (fun r => (some r.1, r.2))
    else if c.toNat < 0x20 then none
    else some (some c, s)

def scanChars : ℕ → List Char → Option (List Char × List Char)
  | 0, _ => none
  | n + 1, s =>
    match scanChar s with
    | none => none
    | some (none, s) => some ([], s)
    | some (some c, s) => (scanChars n s).map (fun r => (c :: r.1, r.2))

/-- The rest of a string after its opening quote. Every step takes a character. -/
def scanString (s : List Char) : Option (String × List Char) :=
  (scanChars (s.length + 1) s).map (fun r => (String.ofList r.1, r.2))

/-! ### Writing -/

def floatText {D : Type*} (fmt : FloatFormat D) : JsonFloat D → List Char
  | .nan => "NaN".toList
  | .infinity => "Infinity".toList
  | .negInfinity => "-Infinity".toList
  | .finite d => fmt.repr d

namespace JsonValue

variable {D : Type*} (fmt : FloatFormat D)

mutual

/-- The text of a value. -/
def text : JsonValue D → List Char
  | .null => "null".toList
  | .bool true => "true".toList
  | .bool false => "false".toList
  | .int n => integerText n
  | .float x => floatText fmt x
  | .str s => quote s
  | .arr xs => '[' :: itemsText xs ++ [']']
  | .obj fs => '{' :: fieldsText fs ++ ['}']

def itemsText : List (JsonValue D) → List Char
  | [] => []
  | [x] => text x
  | x :: y :: xs => text x ++ ", ".toList ++ itemsText (y :: xs)

def fieldsText : List (String × JsonValue D) → List Char
  | [] => []
  | [(k, v)] => quote k ++ ": ".toList ++ text v
  | (k, v) :: f :: fs => quote k ++ ": ".toList ++ text v ++ ", ".toList ++ fieldsText (f :: fs)

end

/-- An integer is short enough for its text to be made. -/
def convertible : JsonValue D → Bool
  | .int n => decide ((naturalText n.natAbs).length ≤ maxStrDigits)
  | _ => true

/-- `json.dumps(v)`, none where an integer is too long for it. -/
def dumps (v : JsonValue D) : Option String :=
  if v.every convertible then some (String.ofList (v.text fmt)) else none

/-! ### Reading -/

def isJsonSpace (c : Char) : Bool := c == ' ' || c == '\t' || c == '\n' || c == '\x0d'

def skipSpaces (s : List Char) : List Char := s.dropWhile isJsonSpace

/-- The words that stand for a value. -/
def words : List (List Char × JsonValue D) :=
  [("null".toList, .null), ("true".toList, .bool true), ("false".toList, .bool false),
    ("NaN".toList, .float .nan), ("Infinity".toList, .float .infinity),
    ("-Infinity".toList, .float .negInfinity)]

def scanWord (s : List Char) : Option (JsonValue D × List Char) :=
  (words.find? (fun w => w.1.isPrefixOf s)).map (fun w => (w.2, s.drop w.1.length))

def scanNumber (s : List Char) : Option (JsonValue D × List Char) :=
  match matchNumber s with
  | none => none
  | some (m, s) =>
    if m.isFloat then some (.float (fmt.ofText m.text), s)
    else (integerOfText m.integer).map (fun n => (.int n, s))

/-- `d[k] = v`: a key that is there keeps its place. -/
def assign (k : String) (v : JsonValue D) :
    List (String × JsonValue D) → List (String × JsonValue D)
  | [] => [(k, v)]
  | f :: fs => if f.1 = k then (k, v) :: fs else f :: assign k v fs

/-- `dict(pairs)`. -/
def dictOf (pairs : List (String × JsonValue D)) : List (String × JsonValue D) :=
  pairs.foldl (fun d p => assign p.1 p.2 d) []

mutual

/-- The value that a text begins with, and the rest of the text. Every step takes a character. -/
def scanOnce : ℕ → List Char → Option (JsonValue D × List Char)
  | 0, _ => none
  | _ + 1, [] => none
  | n + 1, c :: s =>
    if c = '"' then (scanString s).map (fun r => (.str r.1, r.2))
    else if c = '{' then
      match skipSpaces s with
      | '}' :: s => some (.obj [], s)
      | s => (scanFields n s).map (fun r => (.obj (dictOf r.1), r.2))
    else if c = '[' then
      match skipSpaces s with
      | ']' :: s => some (.arr [], s)
      | s => (scanItems n s).map (fun r => (.arr r.1, r.2))
    else (scanWord (c :: s)).or (scanNumber fmt (c :: s))

def scanItems : ℕ → List Char → Option (List (JsonValue D) × List Char)
  | 0, _ => none
  | n + 1, s =>
    match scanOnce n s with
    | none => none
    | some (v, s) =>
      match skipSpaces s with
      | ']' :: s => some ([v], s)
      | ',' :: s => (scanItems n (skipSpaces s)).map (fun r => (v :: r.1, r.2))
      | _ => none

def scanFields : ℕ → List Char → Option (List (String × JsonValue D) × List Char)
  | 0, _ => none
  | _ + 1, [] => none
  | n + 1, c :: s =>
    if c = '"' then
      match scanString s with
      | none => none
      | some (k, s) =>
        match skipSpaces s with
        | ':' :: s =>
          match scanOnce n (skipSpaces s) with
          | none => none
          | some (v, s) =>
            match skipSpaces s with
            | '}' :: s => some ([(k, v)], s)
            | ',' :: s => (scanFields n (skipSpaces s)).map (fun r => ((k, v) :: r.1, r.2))
            | _ => none
        | _ => none
    else none

end

/-- `json.loads(text)`, none where it raises a `ValueError`. -/
def loads (t : String) : Option (JsonValue D) :=
  match t.toList with
  | '\ufeff' :: _ => none
  | s =>
    match scanOnce fmt (s.length + 1) (skipSpaces s) with
    | some (v, s) => if skipSpaces s = [] then some v else none
    | none => none

end JsonValue

end RtfmEv.Lib
