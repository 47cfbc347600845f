import RtfmEv.Lib.JsonText
import RtfmEv.Lib.Table

/-!
# Secrets in a config document (`app/services/fleet_config.py`)

`splitSecrets` takes the secret values out of a document and leaves a placeholder for each,
`setPlaceholder` points a placeholder to the vault, and `exportDocument` puts the values back in
or leaves their keys out. Where a secret sits is decided by its path or by the name of its key.
-/

namespace RtfmEv.FleetConfig

open RtfmEv.Lib

variable {D : Type}

/-! ### Paths -/

inductive PathPart
  | key (k : String)
  | index (i : ℕ)
deriving DecidableEq, Repr

abbrev Path := List PathPart

/-- `str(part)`. -/
def PathPart.text : PathPart → String
  | .key k => k
  | .index i => String.ofList (naturalText i)

/-- `vars/prv.key`, `mqtt/slots/0/token`. -/
def pathLabel (path : Path) : String := String.intercalate "/" (path.map PathPart.text)

/-! ### What a secret is -/

def secret : String := "$secret"

/-- Set on a placeholder whose value was not text. -/
def encodedMark : String := "$json"

def maxDepth : ℕ := 12

inductive PatternPart
  | name (k : String)
  | any

def PatternPart.matches : PatternPart → PathPart → Bool
  | .any, _ => true
  | .name k, .key k' => k == k'
  | .name _, .index _ => false

/-- Where a secret sits in a file, and the vault kind it is stored as. -/
def secretPaths : List (List PatternPart × String) :=
  [([.name "vars", .name "prv.key"], "private_key"),
    ([.name "vars", .name "guest.password"], "guest_password"),
    ([.name "mqtt", .name "wifiPassword"], "wifi"),
    ([.name "mqtt", .name "alertPsk"], "other"),
    ([.name "mqtt", .name "snmpCommunity"], "other"),
    ([.name "mqtt", .name "slots", .any, .name "password"], "other"),
    ([.name "mqtt", .name "slots", .any, .name "token"], "other"),
    ([.name "hardware", .name "bridgeSecret"], "other"),
    ([.name "private_key"], "private_key")]

/-- A piece of a name pattern: a letter of either case, or one of some characters or nothing. -/
inductive NamePiece
  | letter (c : Char)
  | optional (cs : List Char)

def letters (s : String) : List NamePiece := s.toList.map .letter

/-- The alternatives of `_SECRET_NAME`. -/
def secretNames : List (List NamePiece) :=
  [letters "password", letters "passwd", letters "pwd", letters "secret", letters "token",
    letters "psk", letters "prv" ++ .optional ['.'] :: letters "key",
    letters "private" ++ .optional ['.', '_'] :: letters "key"]

/-- The letters beyond ASCII that equal an ASCII letter without regard to case: the long s, the
dotted capital and dotless small i, and the Kelvin sign. -/
def otherCases : List (Char × Char) :=
  [('s', '\u017f'), ('i', '\u0130'), ('i', '\u0131'), ('k', '\u212a')]

def matchesLetter (p c : Char) : Bool := c.toLower == p || otherCases.contains (p, c)

/-- The pieces of a pattern match at the beginning of a text. -/
def matchesAt : List NamePiece → List Char → Bool
  | [], _ => true
  | .letter _ :: _, [] => false
  | .letter p :: ps, c :: s => matchesLetter p c && matchesAt ps s
  | .optional _ :: ps, [] => matchesAt ps []
  | .optional cs :: ps, c :: s => cs.contains c && matchesAt ps s || matchesAt ps (c :: s)

/-- `_SECRET_NAME.search(name)`. -/
def looksSecret (name : String) : Bool :=
  name.toList.tails.any (fun s => secretNames.any (fun p => matchesAt p s))

def isPlaceholder : JsonValue D → Bool
  | .obj fs => (fs.map Prod.fst).contains secret
  | _ => false

def isText : JsonValue D → Bool
  | .str _ => true
  | _ => false

/-- `None` or an empty text. -/
def isBlank : JsonValue D → Bool
  | .null => true
  | .str s => s == ""
  | _ => false

def matchesPath (pattern : List PatternPart) (path : Path) : Bool :=
  pattern.length == path.length && (pattern.zip path).all (fun e => e.1.matches e.2)

def knownKind (path : Path) : Option String :=
  (secretPaths.find? (fun e => matchesPath e.1 path)).map Prod.snd

/-- The last part of a path has a name that looks like a secret. -/
def nameLooksSecret (path : Path) : Bool := (path.getLast?.map PathPart.text).any looksSecret

/-- `_secret_kind`: the vault kind when a value at a path is a secret. -/
def secretKind (path : Path) (value : JsonValue D) : Option String :=
  if isBlank value || isPlaceholder value then none
  else (knownKind path).or (if isText value && nameLooksSecret path then some "other" else none)

/-! ### Taking the secrets out -/

/-- A secret taken out of a document. -/
structure FoundSecret where
  path : Path
  kind : String
  text : String
  encoded : Bool

inductive SplitError
  | configError (message : String)
  | valueError
deriving DecidableEq, Repr

def emptyPlaceholder : JsonValue D := .obj [(secret, .null)]

/-- `value == {SECRET: None}`. -/
def isEmptyPlaceholder : JsonValue D → Bool
  | .obj [(k, .null)] => k == secret
  | _ => false

/-- What goes into the vault: the text itself, or JSON. -/
def secretText (fmt : FloatFormat D) : JsonValue D → Option (String × Bool)
  | .str s => some (s, false)
  | v => (v.dumps fmt).map (fun t => (t, true))

/-- A secret is taken out, and an empty placeholder left for it. -/
def takeOut (fmt : FloatFormat D) (child : Path) (kind : String) (item : JsonValue D) :
    Except SplitError (JsonValue D × List FoundSecret) :=
  match secretText fmt item with
  | none => .error .valueError
  | some t => .ok (emptyPlaceholder, [⟨child, kind, t.1, t.2⟩])

def checkDepth (path : Path) : Except SplitError Unit :=
  if maxDepth < path.length then
    .error (.configError "The file is nested too deep for a config")
  else .ok ()

def checkPlaceholder (allowPlaceholders : Bool) (path : Path) (value : JsonValue D) :
    Except SplitError Unit :=
  if !allowPlaceholders || !isEmptyPlaceholder value then
    .error (.configError
      (pathLabel path ++ " holds a " ++ secret ++ " entry, which a file cannot have"))
  else .ok ()

mutual

/-- The `walk` of `split_secrets`, with the secrets it appends to `found`. -/
def walk (fmt : FloatFormat D) (allowPlaceholders : Bool) (path : Path) :
    JsonValue D → Except SplitError (JsonValue D × List FoundSecret)
  | .obj fs => do
    checkDepth path
    if isPlaceholder (.obj fs) then
      checkPlaceholder allowPlaceholders path (.obj fs)
      return (emptyPlaceholder, [])
    else
      let r ← walkFields fmt allowPlaceholders path fs
      return (.obj r.1, r.2)
  | .arr xs => do
    checkDepth path
    let r ← walkItems fmt allowPlaceholders path 0 xs
    return (.arr r.1, r.2)
  | .null => do checkDepth path; return (.null, [])
  | .bool b => do checkDepth path; return (.bool b, [])
  | .int n => do checkDepth path; return (.int n, [])
  | .float x => do checkDepth path; return (.float x, [])
  | .str s => do checkDepth path; return (.str s, [])

def walkFields (fmt : FloatFormat D) (allowPlaceholders : Bool) (path : Path) :
    List (String × JsonValue D) →
      Except SplitError (List (String × JsonValue D) × List FoundSecret)
  | [] => return ([], [])
  | (key, item) :: fs => do
    let r ← (match secretKind (path ++ [.key key]) item with
      | none => walk fmt allowPlaceholders (path ++ [.key key]) item
      | some kind => takeOut fmt (path ++ [.key key]) kind item)
    let rs ← walkFields fmt allowPlaceholders path fs
    return ((key, r.1) :: rs.1, r.2 ++ rs.2)

def walkItems (fmt : FloatFormat D) (allowPlaceholders : Bool) (path : Path) (index : ℕ) :
    List (JsonValue D) → Except SplitError (List (JsonValue D) × List FoundSecret)
  | [] => return ([], [])
  | item :: xs => do
    let r ← walk fmt allowPlaceholders (path ++ [.index index]) item
    let rs ← walkItems fmt allowPlaceholders path (index + 1) xs
    return (r.1 :: rs.1, r.2 ++ rs.2)

end

/-- `split_secrets`: a document without its secrets, and the secrets. -/
def splitSecrets (fmt : FloatFormat D) (document : JsonValue D) (allowPlaceholders : Bool) :
    Except SplitError (JsonValue D × List FoundSecret) :=
  walk fmt allowPlaceholders [] document

/-! ### Pointing a placeholder to the vault -/

def placeholderOf (secretId : ℤ) (encoded : Bool) : JsonValue D :=
  if encoded then .obj [(secret, .int secretId), (encodedMark, .bool true)]
  else .obj [(secret, .int secretId)]

/-- The value under a key is changed, none where the key is not there. -/
def updateKey (k : String) (f : JsonValue D → Option (JsonValue D)) :
    List (String × JsonValue D) → Option (List (String × JsonValue D))
  | [] => none
  | e :: fs =>
    if e.1 = k then (f e.2).map (fun v => (e.1, v) :: fs)
    else (updateKey k f fs).map (fun fs => e :: fs)

def updateIndex (i : ℕ) (f : JsonValue D → Option (JsonValue D)) (xs : List (JsonValue D)) :
    Option (List (JsonValue D)) :=
  (xs[i]?.bind f).map (fun v => xs.set i v)

/-- `set_placeholder`, none where a part of the path is not there. -/
def setPlaceholder (secretId : ℤ) (encoded : Bool) : Path → JsonValue D → Option (JsonValue D)
  | [.key k], .obj fs => some (.obj (JsonValue.assign k (placeholderOf secretId encoded) fs))
  | [.index i], .arr xs =>
    (updateIndex i (fun _ => some (placeholderOf secretId encoded)) xs).map .arr
  | .key k :: p, .obj fs => (updateKey k (setPlaceholder secretId encoded p) fs).map .obj
  | .index i :: p, .arr xs => (updateIndex i (setPlaceholder secretId encoded p) xs).map .arr
  | _, _ => none

/-! ### The document as a file again -/

/-- How many secrets are put back and how many are left out. -/
structure Counts where
  included : ℕ
  leftOut : ℕ
deriving DecidableEq, Repr

def Counts.add (a b : Counts) : Counts := ⟨a.included + b.included, a.leftOut + b.leftOut⟩

/-- `bool(value)`. -/
def truthy (fmt : FloatFormat D) : JsonValue D → Bool
  | .null => false
  | .bool b => b
  | .int n => n != 0
  | .float (.finite d) => !fmt.isZero d
  | .float _ => true
  | .str s => s != ""
  | .arr xs => !xs.isEmpty
  | .obj fs => !fs.isEmpty

/-- The number that a value is as a key of the vault values: an `int`, or a `bool`, which is one
too. -/
def idOf : JsonValue D → Option ℤ
  | .int n => some n
  | .bool b => some (if b then 1 else 0)
  | _ => none

/-- The value that a placeholder stands for, none when it is missing. -/
def restoredValue (fmt : FloatFormat D) (values : Option (Table ℤ String))
    (placeholder : List (String × JsonValue D)) : Option (JsonValue D) :=
  match values, (placeholder.lookup secret).bind idOf with
  | some values, some secretId =>
    match values.get secretId with
    | some text =>
      if ((placeholder.lookup encodedMark).map (truthy fmt)).getD false then
        JsonValue.loads fmt text
      else some (.str text)
    | none => none
  | _, _ => none

def restore (fmt : FloatFormat D) (values : Option (Table ℤ String))
    (placeholder : List (String × JsonValue D)) : Option (JsonValue D) × Counts :=
  match restoredValue fmt values placeholder with
  | some value => (some value, ⟨1, 0⟩)
  | none => (none, ⟨0, 1⟩)

mutual

/-- The `walk` of `export_document`, with what it adds to the counts. -/
def exportWalk (fmt : FloatFormat D) (values : Option (Table ℤ String)) :
    JsonValue D → Option (JsonValue D) × Counts
  | .obj fs =>
    if isPlaceholder (.obj fs) then restore fmt values fs
    else (some (.obj (exportFields fmt values fs).1), (exportFields fmt values fs).2)
  | .arr xs => (some (.arr (exportItems fmt values xs).1), (exportItems fmt values xs).2)
  | .null => (some .null, ⟨0, 0⟩)
  | .bool b => (some (.bool b), ⟨0, 0⟩)
  | .int n => (some (.int n), ⟨0, 0⟩)
  | .float x => (some (.float x), ⟨0, 0⟩)
  | .str s => (some (.str s), ⟨0, 0⟩)

def exportFields (fmt : FloatFormat D) (values : Option (Table ℤ String)) :
    List (String × JsonValue D) → List (String × JsonValue D) × Counts
  | [] => ([], ⟨0, 0⟩)
  | (key, item) :: fs =>
    let r := exportWalk fmt values item
    let rs := exportFields fmt values fs
    (match r.1 with
      | some v => (key, v) :: rs.1
      | none => rs.1, r.2.add rs.2)

def exportItems (fmt : FloatFormat D) (values : Option (Table ℤ String)) :
    List (JsonValue D) → List (JsonValue D) × Counts
  | [] => ([], ⟨0, 0⟩)
  | item :: xs =>
    let r := exportWalk fmt values item
    let rs := exportItems fmt values xs
    (match r.1 with
      | some v => v :: rs.1
      | none => rs.1, r.2.add rs.2)

end

/-- `export_document`: the file, the secrets put back and the secrets left out. -/
def exportDocument (fmt : FloatFormat D) (document : JsonValue D)
    (values : Option (Table ℤ String)) : Option (JsonValue D) × Counts :=
  exportWalk fmt values document

end RtfmEv.FleetConfig
