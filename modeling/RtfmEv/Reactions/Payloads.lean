import RtfmEv.Lib.Bytes
import RtfmEv.Unread.Agree

/-!
# Emoji reactions (`app/reaction_payloads.py`)

A reaction is an ordinary message. The dialect that is sent names its target by a hash on
a second line, in channels with the target's sender before the emoji; two more dialects
are read. Texts are lists of code points. The Unicode tables and SHA-256 are parameters.

The `$` of the patterns is the end of the text, since none is matched against a text that
ends in a line break.
-/

namespace RtfmEv.Reactions

open RtfmEv.Lib RtfmEv.Unread

/-- What is asked of the Unicode tables and of `hashlib`. -/
structure Tools where
  isOtherSymbol : Char → Bool
  isAlnum : Char → Bool
  digit : Char → Option ℕ
  sha256 : Bytes → Bytes

/-- `str.strip`. -/
def stripText (s : Text) : Text := (lstripChars (lstripChars s).reverse).reverse

def Tools.startsWithEmoji (T : Tools) : Text → Bool
  | [] => false
  | first :: _ => T.isOtherSymbol first || (0x1F000 ≤ first.toNat && first.toNat ≤ 0x1FAFF)

/-! ### The body of a message -/

def stripSender (text : Text) : Text :=
  match find colonSpace text with
  | some colon =>
    if 0 < colon ∧ colon < 50 ∧ ':' ∉ text.take colon then text.drop (colon + 2) else text
  | none => text

def messageBody (text : Text) (type : MsgType) : Text :=
  if type = .chan then stripSender text else text

/-! ### The hash of a target -/

def crockford : Text := "0123456789abcdefghjkmnpqrstvwxyz".toList

/-- `struct.pack("<I", n)`. -/
def packUint32 (n : ℕ) : Bytes :=
  [UInt8.ofNat n, UInt8.ofNat (n / 256), UInt8.ofNat (n / 65536), UInt8.ofNat (n / 16777216)]

/-- `int.from_bytes(b, "big")`. -/
def fromBytesBE (b : Bytes) : ℕ := b.foldl (fun n byte => 256 * n + byte.toNat) 0

def Tools.reactionTargetHash (T : Tools) (body : Text) (senderTimestamp : ℤ) : Text :=
  let digest := T.sha256
    (encodeUtf8 (String.ofList body) ++ packUint32 (senderTimestamp % 0x100000000).toNat)
  let value := fromBytesBE (digest.take 5)
  (List.range 8).map fun i => crockford.getD ((value >>> (35 - 5 * i)) &&& 31) '0'

/-! ### The dialect that is sent -/

structure HashReaction where
  emoji : Text
  targetHash : Text
  targetSender : Option Text
  deriving DecidableEq

/-- A character of `_HASH`, whatever its case; the last three fold to ASCII letters. -/
def isHashChar (c : Char) : Bool :=
  ('0' ≤ c && c ≤ '9') || ('a' ≤ c.toLower && c.toLower ≤ 't') ||
    ('v' ≤ c.toLower && c.toLower ≤ 'z') ||
    c.toNat == 0x130 || c.toNat == 0x131 || c.toNat == 0x17F || c.toNat == 0x212A

def matchesHash (s : Text) : Bool := s.length == 8 && s.all isHashChar

/-- `str.lower` of a character of a hash. -/
def lowerHashChar (c : Char) : Text :=
  if c.toNat = 0x130 then ['i', Char.ofNat 0x307]
  else if c.toNat = 0x212A then ['k']
  else [c.toLower]

/-- A look-alike of a digit. -/
def foldLookAlike (c : Char) : Char :=
  if c = 'o' then '0' else if c = 'i' then '1' else if c = 'l' then '1' else c

def normalizeHash (value : Text) : Text := (value.flatMap lowerHashChar).map foldLookAlike

/-- A character that may stand in front of `@[Name]`. -/
def isPlain (c : Char) : Bool := c != '@' && c != '[' && c != ']'

/-- `@[Name]` in front of a text, as the name and what follows it. -/
def matchMention : Text → Option (Text × Text)
  | '@' :: '[' :: s =>
    match s.takeWhile (fun c => c != ']'), s.dropWhile (fun c => c != ']') with
    | [], _ => none
    | _, [] => none
    | name, _ :: rest => some (name, rest)
  | _ => none

/-- `_HEAD`: the emoji with an optional mention after it, or a mention with the emoji after
it. -/
def matchHead (s : Text) : Option (Text × Option Text) :=
  match s.takeWhile isPlain with
  | [] =>
    match matchMention s with
    | some (_, []) => none
    | some (name, rest) => some (rest, some name)
    | none => none
  | emoji =>
    match s.dropWhile isPlain with
    | [] => some (emoji, none)
    | rest =>
      match matchMention rest with
      | some (name, []) => some (emoji, some name)
      | _ => none

def Tools.parseTwoLineReaction (T : Tools) (text : Text) : Option HashReaction :=
  match (stripText text).splitOn '\n' with
  | [first, second] =>
    if matchesHash (stripText second) then
      match matchHead (stripText first) with
      | some (head, sender) =>
        if T.startsWithEmoji (stripText head) then
          some ⟨stripText head, normalizeHash (stripText second), sender⟩
        else none
      | none => none
    else none
  | _ => none

def Tools.parseHashReaction (T : Tools) (text : Text) (type : MsgType) : Option HashReaction :=
  T.parseTwoLineReaction (messageBody text type)

def maxReactionEmojiBytes : ℕ := 32

def Tools.isValidReactionEmoji (T : Tools) (emoji : Text) : Bool :=
  if emoji = [] ∨ maxReactionEmojiBytes < (encodeUtf8 (String.ofList emoji)).length then false
  else if emoji.any (fun ch => isSpaceChar ch || !isPlain ch || T.isAlnum ch) then false
  else T.startsWithEmoji emoji

def Tools.buildReactionText (T : Tools) (emoji targetBody : Text) (targetSenderTimestamp : ℤ)
    (targetSender : Option Text) : Text :=
  match targetSender with
  | none => emoji ++ '\n' :: T.reactionTargetHash targetBody targetSenderTimestamp
  | some sender =>
    "@[".toList ++ sender ++ ']' :: emoji ++
      '\n' :: T.reactionTargetHash targetBody targetSenderTimestamp

/-! ### The other dialects -/

/-- The UTF-16 units of a text. -/
def utf16Units (s : Text) : List ℕ :=
  s.flatMap fun c =>
    if c.toNat < 0x10000 then [c.toNat]
    else [0xD800 + (c.toNat - 0x10000) / 0x400, 0xDC00 + (c.toNat - 0x10000) % 0x400]

/-- `dart_string_hash`, of UTF-16 units. -/
def dartUnitsHash (units : List ℕ) : ℕ :=
  let mixed := units.foldl (fun h unit =>
    let h := (h + unit) % 0x100000000
    let h := (h + (h <<< 10)) % 0x100000000
    h ^^^ (h >>> 6)) 0
  let h := (mixed + (mixed <<< 3)) % 0x100000000
  let h := h ^^^ (h >>> 11)
  let h := (h + (h <<< 15)) % 0x100000000
  let h := h % 0x40000000
  if h = 0 then 1 else h

def dartStringHash (value : Text) : ℕ := dartUnitsHash (utf16Units value)

/-- `format(n, "04x")` for `n` below `65536`. -/
def hexFour (n : ℕ) : Text :=
  [hexDigit (n / 4096 % 16), hexDigit (n / 256 % 16), hexDigit (n / 16 % 16), hexDigit (n % 16)]

def openReactionHash (senderTimestamp : ℤ) (senderName : Option Text) (body : Text) : Text :=
  hexFour (dartUnitsHash (utf16Units (toString senderTimestamp).toList ++
    utf16Units (senderName.getD []) ++ (utf16Units body).take 5) % 0x10000)

/-- `AnyReaction`, by its kind. -/
inductive AnyReaction
  | hash (reaction : HashReaction)
  | openV3 (targetHash : Text)
  | openV1 (emoji : Text) (timestamp nameHash textHash : ℕ)
  deriving DecidableEq

def isLowerHex (c : Char) : Bool := ('0' ≤ c && c ≤ '9') || ('a' ≤ c && c ≤ 'f')

/-- `_R_REACTION`, with its first group. -/
def matchOpenV3 : Text → Option Text
  | ['r', ':', a, b, c, d, ':', e, f] =>
    if [a, b, c, d, e, f].all isLowerHex then some [a, b, c, d] else none
  | _ => none

/-- A number of at most `most` digits that is followed by `stop`, and what follows that. -/
def Tools.matchNumber (T : Tools) (most : ℕ) (stop : Char) (s : Text) : Option (ℕ × Text) :=
  let digits := (s.takeWhile fun c => (T.digit c).isSome).filterMap T.digit
  match s.dropWhile fun c => (T.digit c).isSome with
  | c :: rest =>
    if c = stop ∧ 1 ≤ digits.length ∧ digits.length ≤ most then
      some (digits.foldl (fun n d => 10 * n + d) 0, rest)
    else none
  | [] => none

/-- `_R_REACTION_V1`, with the milliseconds, the two hashes and the emoji. -/
def Tools.matchOpenV1 (T : Tools) : Text → Option (ℕ × ℕ × ℕ × Text)
  | 'r' :: ':' :: s => do
    let (millis, s) ← T.matchNumber 16 '_' s
    let (nameHash, s) ← T.matchNumber 10 '_' s
    let (textHash, s) ← T.matchNumber 10 ':' s
    if s ≠ [] ∧ s.all (fun c => !isSpaceChar c) = true then
      some (millis, nameHash, textHash, s)
    else none
  | _ => none

/-- `_REPLY_PREFIX`, with its second group. The space takes all but the last character of a
text that is only space. -/
def matchReplyPrefix (s : Text) : Option Text :=
  match matchMention s with
  | none => none
  | some (_, rest) =>
    match rest.takeWhile isSpaceChar, rest.dropWhile isSpaceChar with
    | [], _ => none
    | space, [] => if 2 ≤ space.length then some (space.drop (space.length - 1)) else none
    | _, body => some body

/-- A payload of one of the two dialects. -/
def Tools.parseOpen (T : Tools) (payload : Text) : Option AnyReaction :=
  match matchOpenV3 payload with
  | some targetHash => some (.openV3 targetHash)
  | none =>
    match T.matchOpenV1 payload with
    | some (millis, nameHash, textHash, emoji) =>
      if T.startsWithEmoji emoji then some (.openV1 emoji (millis / 1000) nameHash textHash)
      else none
    | none => none

def Tools.parseAnyReaction (T : Tools) (text : Text) (type : MsgType) : Option AnyReaction :=
  match T.parseTwoLineReaction (messageBody text type) with
  | some hashed => some (.hash hashed)
  | none =>
    match T.parseOpen (stripText (messageBody text type)) with
    | some reaction => some reaction
    | none =>
      (matchReplyPrefix (stripText (messageBody text type))).bind fun body =>
        T.parseOpen (stripText body)

/-! ### The target of a reaction -/

/-- A message that may be the target, with its text without the sender. -/
structure Candidate where
  body : Text
  senderName : Option Text
  senderTimestamp : ℤ
  isChannel : Bool

def v1TimestampSlackSeconds : ℤ := 60

def Tools.matchesBody (T : Tools) (reaction : AnyReaction) (m : Candidate) : Bool :=
  match reaction with
  | .hash hashed => T.reactionTargetHash m.body m.senderTimestamp = hashed.targetHash
  | .openV3 targetHash =>
    let names : List (Option Text) :=
      if m.isChannel then
        match m.senderName with
        | some name => [some name]
        | none => []
      else
        none :: (match m.senderName with
          | some name => if name = [] then [] else [some name]
          | none => [])
    names.any fun name => openReactionHash m.senderTimestamp name m.body = targetHash
  | .openV1 _ timestamp nameHash textHash =>
    if v1TimestampSlackSeconds < |m.senderTimestamp - timestamp| then false
    else if dartStringHash m.body ≠ textHash then false
    else
      match m.senderName with
      | some name => if m.isChannel then dartStringHash name = nameHash else true
      | none => true

def Tools.reactionMatches (T : Tools) (reaction : AnyReaction) (m : Candidate) : Bool :=
  (matchReplyPrefix m.body).any (fun body => T.matchesBody reaction { m with body := body }) ||
    T.matchesBody reaction m

end RtfmEv.Reactions
