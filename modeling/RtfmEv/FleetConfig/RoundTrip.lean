import RtfmEv.FleetConfig.Document
import RtfmEv.Lib.JsonRoundTrip

/-!
# Secrets survive a round trip

A document is split, its placeholders are pointed to the vault, and it is exported again. The
three walks are followed together over the document: for each part of it there is a stored part
that the placeholders make, and from which the export gives the part back, or what is left of it
without its secrets.
-/

namespace RtfmEv.FleetConfig

open RtfmEv.Lib JsonValue

variable {D : Type} {path : Path} {pre post : List (String × JsonValue D)} {key text : String}
  {ps : List Placing} {more found : List FoundSecret} {rest ids : List ℤ} {values : Table ℤ String}
  {item out stored : JsonValue D} {secretId : ℤ} {fmt : FloatFormat D}

/-! ### What the round trip is about -/

mutual

/-- A part of a document without its secret keys. -/
def withoutSecrets (path : Path) : JsonValue D → JsonValue D
  | .obj fs => .obj (withoutSecretFields path fs)
  | .arr xs => .arr (withoutSecretItems path 0 xs)
  | .null => .null
  | .bool b => .bool b
  | .int n => .int n
  | .float x => .float x
  | .str s => .str s

def withoutSecretFields (path : Path) : List (String × JsonValue D) → List (String × JsonValue D)
  | [] => []
  | (key, item) :: fs =>
    if (secretKind (path ++ [.key key]) item).isSome then withoutSecretFields path fs
    else (key, withoutSecrets (path ++ [.key key]) item) :: withoutSecretFields path fs

def withoutSecretItems (path : Path) (index : ℕ) : List (JsonValue D) → List (JsonValue D)
  | [] => []
  | item :: xs =>
    withoutSecrets (path ++ [.index index]) item :: withoutSecretItems path (index + 1) xs

end

mutual

/-- The values under the keys of a part of a document, each with its path. -/
def entries (path : Path) : JsonValue D → List (Path × JsonValue D)
  | .obj fs => entriesOfFields path fs
  | .arr xs => entriesOfItems path 0 xs
  | .null => []
  | .bool _ => []
  | .int _ => []
  | .float _ => []
  | .str _ => []

def entriesOfFields (path : Path) : List (String × JsonValue D) → List (Path × JsonValue D)
  | [] => []
  | (key, item) :: fs =>
    (path ++ [.key key], item) :: entries (path ++ [.key key]) item ++ entriesOfFields path fs

def entriesOfItems (path : Path) (index : ℕ) : List (JsonValue D) → List (Path × JsonValue D)
  | [] => []
  | item :: xs => entries (path ++ [.index index]) item ++ entriesOfItems path (index + 1) xs

end

/-- The value is no text, or an empty one, or its key is neither a known secret path nor a name
that looks like a secret. -/
def NoSecretText (e : Path × JsonValue D) : Prop :=
  ∀ t, e.2 = .str t → t ≠ "" → knownKind e.1 = none ∧ nameLooksSecret e.1 = false

/-- A placeholder that is pointed to the vault: where it is, and what it is given. -/
abbrev Placing := Path × ℤ × Bool

/-- `set_placeholder` for each of several secrets. -/
def placeAll (document : JsonValue D) (placings : List Placing) : Option (JsonValue D) :=
  placings.foldlM (fun d p => setPlaceholder p.2.1 p.2.2 p.1 d) document

/-- The placings of secrets that are given ids, seen from a part of the document that is so many
steps down. -/
def placingsFrom (depth : ℕ) (found : List FoundSecret) (ids : List ℤ) : List Placing :=
  (found.zip ids).map (fun e => (e.1.path.drop depth, e.2, e.1.encoded))

/-- Every placeholder is given an id. -/
def storeSecrets (document : JsonValue D) (found : List FoundSecret) (ids : List ℤ) :
    Option (JsonValue D) :=
  placeAll document (placingsFrom 0 found ids)

/-- What the vault holds under the ids. -/
def vaultOf (found : List FoundSecret) (ids : List ℤ) : Table ℤ String :=
  fun id => (ids.zip (found.map FoundSecret.text)).lookup id

/-! ### One step of the walks -/

theorem isPlaceholder_obj (fs : List (String × JsonValue D)) :
    isPlaceholder (.obj fs) = (fs.map Prod.fst).contains secret := rfl

theorem ok_bind {ε α β : Type} (a : α) (f : α → Except ε β) :
    ((Except.ok a : Except ε α) >>= f) = f a := rfl

theorem bind_eq_ok {ε α β : Type} {x : Except ε α} {f : α → Except ε β} {b : β} :
    (x >>= f) = .ok b ↔ ∃ a, x = .ok a ∧ f a = .ok b := by
  cases x with
  | error e =>
    constructor
    · intro h
      cases h
    · rintro ⟨a, h, -⟩
      cases h
  | ok a =>
    constructor
    · intro h
      exact ⟨a, rfl, h⟩
    · rintro ⟨b, hb, h⟩
      cases hb
      exact h

theorem checkDepth_eq_ok {u : Unit} (h : checkDepth path = .ok u) : path.length ≤ maxDepth := by
  unfold checkDepth at h
  by_cases hd : maxDepth < path.length
  · rw [if_pos hd] at h
    cases h
  · omega

theorem checkDepth_of_le (h : path.length ≤ maxDepth) : checkDepth path = .ok () := by
  unfold checkDepth
  rw [if_neg (by omega)]

section

variable {fmt : FloatFormat D} {path : Path} {r : JsonValue D × List FoundSecret}
  {item : JsonValue D} {allow : Bool} {fs : List (String × JsonValue D)} {xs : List (JsonValue D)}

/-- A document that is accepted from outside holds no placeholder. -/
theorem walk_obj_eq_ok (h : walk fmt false path (.obj fs) = .ok r) :
    path.length ≤ maxDepth ∧ isPlaceholder (.obj fs) = false ∧
      ∃ outs, walkFields fmt false path fs = .ok (outs, r.2) ∧ r.1 = .obj outs := by
  rw [walk] at h
  obtain ⟨u, hu, h⟩ := bind_eq_ok.mp h
  refine ⟨checkDepth_eq_ok hu, ?_⟩
  cases hp : isPlaceholder (.obj fs) with
  | true =>
    rw [hp, if_pos rfl] at h
    obtain ⟨u, hc, -⟩ := bind_eq_ok.mp h
    rw [checkPlaceholder] at hc
    cases hc
  | false =>
    rw [hp, if_neg (by decide)] at h
    obtain ⟨rs, hrs, hr⟩ := bind_eq_ok.mp h
    obtain rfl := Except.ok.inj hr
    exact ⟨rfl, rs.1, hrs, rfl⟩

theorem walk_arr_eq_ok (h : walk fmt false path (.arr xs) = .ok r) : path.length ≤ maxDepth ∧
      ∃ outs, walkItems fmt false path 0 xs = .ok (outs, r.2) ∧ r.1 = .arr outs := by
  rw [walk] at h
  obtain ⟨u, hu, h⟩ := bind_eq_ok.mp h
  obtain ⟨rs, hrs, hr⟩ := bind_eq_ok.mp h
  obtain rfl := Except.ok.inj hr
  exact ⟨checkDepth_eq_ok hu, rs.1, hrs, rfl⟩

/-- A field of a document is walked, or it is a secret and taken out. -/
theorem walkFields_cons_eq_ok {key : String} {r : List (String × JsonValue D) × List FoundSecret}
    (h : walkFields fmt allow path ((key, item) :: fs) = .ok r) :
    ∃ out found outs more,
      ((secretKind (path ++ [.key key]) item = none ∧
          walk fmt allow (path ++ [.key key]) item = .ok (out, found)) ∨
        ∃ kind, secretKind (path ++ [.key key]) item = some kind ∧
          takeOut fmt (path ++ [.key key]) kind item = .ok (out, found)) ∧
      walkFields fmt allow path fs = .ok (outs, more) ∧
      r = ((key, out) :: outs, found ++ more) := by
  rw [walkFields] at h
  obtain ⟨a, ha, h⟩ := bind_eq_ok.mp h
  obtain ⟨b, hb, h⟩ := bind_eq_ok.mp h
  obtain rfl := Except.ok.inj h
  refine ⟨a.1, a.2, b.1, b.2, ?_, hb, rfl⟩
  cases hk : secretKind (path ++ [.key key]) item with
  | none =>
    rw [hk] at ha
    exact .inl ⟨rfl, ha⟩
  | some kind =>
    rw [hk] at ha
    exact .inr ⟨kind, rfl, ha⟩

theorem walkItems_cons_eq_ok {index : ℕ} {r : List (JsonValue D) × List FoundSecret}
    (h : walkItems fmt allow path index (item :: xs) = .ok r) :
    ∃ out found outs more, walk fmt allow (path ++ [.index index]) item = .ok (out, found) ∧
      walkItems fmt allow path (index + 1) xs = .ok (outs, more) ∧
      r = (out :: outs, found ++ more) := by
  rw [walkItems] at h
  obtain ⟨a, ha, h⟩ := bind_eq_ok.mp h
  obtain ⟨b, hb, h⟩ := bind_eq_ok.mp h
  obtain rfl := Except.ok.inj h
  exact ⟨a.1, a.2, b.1, b.2, ha, hb, rfl⟩

theorem takeOut_eq_ok {child : Path} {kind : String} (h : takeOut fmt child kind item = .ok r) :
    ∃ text encoded, secretText fmt item = some (text, encoded) ∧
      r = (emptyPlaceholder, [⟨child, kind, text, encoded⟩]) := by
  unfold takeOut at h
  cases ht : secretText fmt item with
  | none =>
    rw [ht] at h
    cases h
  | some t =>
    rw [ht] at h
    obtain rfl := Except.ok.inj h
    exact ⟨t.1, t.2, rfl, rfl⟩

theorem walk_leaf {v : JsonValue D}
    (hobj : ∀ fs, v ≠ .obj fs) (harr : ∀ xs, v ≠ .arr xs)
    (h : walk fmt allow path v = .ok r) : path.length ≤ maxDepth ∧ r = (v, []) := by
  cases v with
  | obj fs => exact absurd rfl (hobj fs)
  | arr xs => exact absurd rfl (harr xs)
  | null | bool b | int n | float x | str s =>
    rw [walk] at h
    obtain ⟨u, hu, h⟩ := bind_eq_ok.mp h
    exact ⟨checkDepth_eq_ok hu, (Except.ok.inj h).symm⟩

theorem walk_leaf_of_le {v : JsonValue D} (hobj : ∀ fs, v ≠ .obj fs)
    (harr : ∀ xs, v ≠ .arr xs) (hpath : path.length ≤ maxDepth) :
    walk fmt allow path v = .ok (v, []) := by
  have hcheck := checkDepth_of_le hpath
  cases v with
  | obj fs => exact absurd rfl (hobj fs)
  | arr xs => exact absurd rfl (harr xs)
  | null => rw [walk, hcheck]; rfl
  | bool b => rw [walk, hcheck]; rfl
  | int n => rw [walk, hcheck]; rfl
  | float x => rw [walk, hcheck]; rfl
  | str s => rw [walk, hcheck]; rfl

end

/-! ### Where the secrets were -/

mutual

variable {fmt : FloatFormat D}

theorem path_of_walk : ∀ (v : JsonValue D) {path : Path} {out : JsonValue D}
    {found : List FoundSecret}, walk fmt false path v = .ok (out, found) →
      ∀ f ∈ found, ∃ p, p ≠ [] ∧ f.path = path ++ p
  | .obj fs, path, out, found, h => by
    obtain ⟨-, -, outs, hfields, -⟩ := walk_obj_eq_ok h
    exact path_of_walkFields fs hfields
  | .arr xs, path, out, found, h => by
    obtain ⟨-, outs, hitems, -⟩ := walk_arr_eq_ok h
    exact path_of_walkItems xs hitems
  | .null, path, out, found, h => by
    obtain ⟨-, hr⟩ := walk_leaf (by simp) (by simp) h
    cases hr
    exact fun f hf => nomatch hf
  | .bool _, path, out, found, h => by
    obtain ⟨-, hr⟩ := walk_leaf (by simp) (by simp) h
    cases hr
    exact fun f hf => nomatch hf
  | .int _, path, out, found, h => by
    obtain ⟨-, hr⟩ := walk_leaf (by simp) (by simp) h
    cases hr
    exact fun f hf => nomatch hf
  | .float _, path, out, found, h => by
    obtain ⟨-, hr⟩ := walk_leaf (by simp) (by simp) h
    cases hr
    exact fun f hf => nomatch hf
  | .str _, path, out, found, h => by
    obtain ⟨-, hr⟩ := walk_leaf (by simp) (by simp) h
    cases hr
    exact fun f hf => nomatch hf

theorem path_of_walkFields : ∀ (fs : List (String × JsonValue D))
    {path : Path} {outs : List (String × JsonValue D)} {found : List FoundSecret},
    walkFields fmt false path fs = .ok (outs, found) →
      ∀ f ∈ found, ∃ p, p ≠ [] ∧ f.path = path ++ p
  | [], path, outs, found, h => by
    rw [walkFields] at h
    cases h
    exact fun f hf => nomatch hf
  | (key, item) :: fs, path, outs, found, h => by
    obtain ⟨out, found₁, outs', more, hitem, hfs, hr⟩ := walkFields_cons_eq_ok h
    obtain ⟨-, rfl⟩ := Prod.mk.inj hr
    intro f hf
    rcases List.mem_append.mp hf with hf | hf
    · rcases hitem with ⟨-, hwalk⟩ | ⟨kind, -, htake⟩
      · obtain ⟨p, -, hp⟩ := path_of_walk item hwalk f hf
        exact ⟨.key key :: p, by simp, by rw [hp, List.append_assoc]; rfl⟩
      · obtain ⟨text, encoded, -, hr⟩ := takeOut_eq_ok htake
        obtain ⟨-, rfl⟩ := Prod.mk.inj hr
        obtain rfl := List.mem_singleton.mp hf
        exact ⟨[.key key], by simp, rfl⟩
    · exact path_of_walkFields fs hfs f hf

theorem path_of_walkItems : ∀ (xs : List (JsonValue D)) {path : Path}
    {index : ℕ} {outs : List (JsonValue D)} {found : List FoundSecret},
    walkItems fmt false path index xs = .ok (outs, found) →
      ∀ f ∈ found, ∃ p, p ≠ [] ∧ f.path = path ++ p
  | [], path, index, outs, found, h => by
    rw [walkItems] at h
    cases h
    exact fun f hf => nomatch hf
  | item :: xs, path, index, outs, found, h => by
    obtain ⟨out, found₁, outs', more, hitem, hxs, hr⟩ := walkItems_cons_eq_ok h
    obtain ⟨-, rfl⟩ := Prod.mk.inj hr
    intro f hf
    rcases List.mem_append.mp hf with hf | hf
    · obtain ⟨p, -, hp⟩ := path_of_walk item hitem f hf
      exact ⟨.index index :: p, by simp, by rw [hp, List.append_assoc]; rfl⟩
    · exact path_of_walkItems xs hxs f hf

end

/-! ### Pointing placeholders to the vault -/

theorem updateKey_append
    (h : key ∉ pre.map Prod.fst) (f : JsonValue D → Option (JsonValue D)) (v : JsonValue D) :
    updateKey key f (pre ++ (key, v) :: post) =
      (f v).map (fun w => pre ++ (key, w) :: post) := by
  induction pre with
  | nil =>
    rw [List.nil_append, updateKey, if_pos rfl]
    rfl
  | cons e pre ih =>
    rw [List.map_cons, List.mem_cons, not_or] at h
    rw [List.cons_append, updateKey, if_neg (fun he => h.1 he.symm), ih h.2, Option.map_map]
    rfl

theorem assign_append
    (h : key ∉ pre.map Prod.fst) (v w : JsonValue D) :
    assign key w (pre ++ (key, v) :: post) = pre ++ (key, w) :: post := by
  induction pre with
  | nil => rw [List.nil_append, assign, if_pos rfl]; rfl
  | cons e pre ih =>
    rw [List.map_cons, List.mem_cons, not_or] at h
    rw [List.cons_append, assign, if_neg (fun he => h.1 he.symm), ih h.2]
    rfl

theorem updateIndex_append (pre post : List (JsonValue D))
    (f : JsonValue D → Option (JsonValue D)) (v : JsonValue D) :
    updateIndex pre.length f (pre ++ v :: post) = (f v).map (fun w => pre ++ w :: post) := by
  unfold updateIndex
  rw [List.getElem?_append_right (Nat.le_refl _), Nat.sub_self]
  show (f v).map (fun w => (pre ++ v :: post).set pre.length w) = _
  congr 1
  funext w
  rw [List.set_append_right _ _ (Nat.le_refl _), Nat.sub_self]
  rfl

theorem setPlaceholder_key
    (h : key ∉ pre.map Prod.fst) (secretId : ℤ) (encoded : Bool) {p : Path} (hp : p ≠ [])
    (v : JsonValue D) :
    setPlaceholder secretId encoded (.key key :: p) (.obj (pre ++ (key, v) :: post)) =
      (setPlaceholder secretId encoded p v).map (fun w => .obj (pre ++ (key, w) :: post)) := by
  cases p with
  | nil => exact absurd rfl hp
  | cons part p =>
    rw [setPlaceholder, updateKey_append h, Option.map_map]
    · rfl
    · exact hp

theorem setPlaceholder_index (pre post : List (JsonValue D)) (secretId : ℤ) (encoded : Bool)
    {p : Path} (hp : p ≠ []) (v : JsonValue D) :
    setPlaceholder secretId encoded (.index pre.length :: p) (.arr (pre ++ v :: post)) =
      (setPlaceholder secretId encoded p v).map (fun w => .arr (pre ++ w :: post)) := by
  cases p with
  | nil => exact absurd rfl hp
  | cons part p =>
    rw [setPlaceholder, updateIndex_append, Option.map_map]
    · rfl
    · exact hp

theorem placeAll_cons (d : JsonValue D) (p : Placing) (ps : List Placing) :
    placeAll d (p :: ps) = (setPlaceholder p.2.1 p.2.2 p.1 d).bind (fun d => placeAll d ps) := rfl

theorem placeAll_append {d d' : JsonValue D} (h : placeAll d ps = some d')
    (qs : List Placing) : placeAll d (ps ++ qs) = placeAll d' qs := by
  unfold placeAll at h ⊢
  rw [List.foldlM_append, h]
  rfl

/-- What is placed in a part is placed in the whole. -/
theorem placeAll_under (g : JsonValue D → JsonValue D) {part : PathPart}
    (hg : ∀ p ∈ ps, ∀ v, setPlaceholder p.2.1 p.2.2 (part :: p.1) (g v) =
      (setPlaceholder p.2.1 p.2.2 p.1 v).map g) {v w : JsonValue D} (h : placeAll v ps = some w) :
    placeAll (g v) (ps.map (fun p => (part :: p.1, p.2))) = some (g w) := by
  induction ps generalizing v with
  | nil =>
    obtain rfl := Option.some.inj h
    rfl
  | cons p ps ih =>
    rw [placeAll_cons] at h
    obtain ⟨u, hu, h⟩ := Option.bind_eq_some_iff.mp h
    rw [List.map_cons, placeAll_cons]
    show (setPlaceholder p.2.1 p.2.2 (part :: p.1) _).bind _ = _
    rw [hg p List.mem_cons_self, hu]
    exact ih (fun q hq => hg q (List.mem_cons_of_mem _ hq)) h

theorem placeAll_key (hkey : key ∉ pre.map Prod.fst) {v w : JsonValue D} (hne : ∀ p ∈ ps, p.1 ≠ []) :
    placeAll v ps = some w →
      placeAll (.obj (pre ++ (key, v) :: post)) (ps.map (fun p => (.key key :: p.1, p.2))) =
        some (.obj (pre ++ (key, w) :: post)) :=
  placeAll_under (fun v => .obj (pre ++ (key, v) :: post)) fun p hp =>
    setPlaceholder_key hkey _ _ (hne p hp)

theorem placeAll_index (pre post : List (JsonValue D)) {v w : JsonValue D}
    (hne : ∀ p ∈ ps, p.1 ≠ []) : placeAll v ps = some w →
      placeAll (.arr (pre ++ v :: post)) (ps.map (fun p => (.index pre.length :: p.1, p.2))) =
        some (.arr (pre ++ w :: post)) :=
  placeAll_under (fun v => .arr (pre ++ v :: post)) fun p hp =>
    setPlaceholder_index pre post _ _ (hne p hp)

theorem placingsFrom_append
    (h : ids.length = found.length) (depth : ℕ) :
    placingsFrom depth (found ++ more) (ids ++ rest) =
      placingsFrom depth found ids ++ placingsFrom depth more rest := by
  unfold placingsFrom
  rw [List.zip_append h.symm, List.map_append]

/-- The placings seen from a part are those seen from the part under it, with the step. -/
theorem placingsFrom_step {part : PathPart}
    (h : ∀ f ∈ found, ∃ p, p ≠ [] ∧ f.path = path ++ [part] ++ p) (ids : List ℤ) :
    placingsFrom path.length found ids =
      (placingsFrom (path ++ [part]).length found ids).map (fun p => (part :: p.1, p.2)) := by
  unfold placingsFrom
  rw [List.map_map]
  apply List.map_congr_left
  intro e he
  obtain ⟨p, -, hp⟩ := h e.1 (List.of_mem_zip he).1
  show (e.1.path.drop path.length, e.2, e.1.encoded) = _
  rw [Function.comp, hp, List.drop_left, List.append_assoc, List.drop_left]
  rfl

theorem ne_nil_of_placingsFrom (h : ∀ f ∈ found, ∃ p, p ≠ [] ∧ f.path = path ++ p) (ids : List ℤ) :
    ∀ p ∈ placingsFrom path.length found ids, p.1 ≠ [] := by
  intro q hq
  obtain ⟨e, he, rfl⟩ := List.mem_map.mp hq
  obtain ⟨p, hne, hp⟩ := h e.1 (List.of_mem_zip he).1
  show e.1.path.drop path.length ≠ []
  rw [hp, List.drop_left]
  exact hne

/-! ### What is stored -/

/-- The vault values have the texts of the secrets under their ids. -/
def Holds (values : Table ℤ String) (found : List FoundSecret) (ids : List ℤ) : Prop :=
  ∀ e ∈ found.zip ids, values.get e.2 = some e.1.text

theorem holds_append
    (hlen : ids.length = found.length) (h : Holds values (found ++ more) (ids ++ rest)) :
    Holds values found ids ∧ Holds values more rest := by
  unfold Holds at h ⊢
  rw [List.zip_append hlen.symm] at h
  exact ⟨fun e he => h e (List.mem_append_left _ he), fun e he => h e (List.mem_append_right _ he)⟩

/-- A part of a document as it is stored: the placeholders make it from the split part, and the
export gives the part back from it, or the part without its secrets. -/
structure Stored (fmt : FloatFormat D) (path : Path) (v out : JsonValue D)
    (found : List FoundSecret) (ids : List ℤ) (stored : JsonValue D) : Prop where
  placed : placeAll out (placingsFrom path.length found ids) = some stored
  restored : ∀ values, Holds values found ids →
    exportWalk fmt (some values) stored = (some v, ⟨found.length, 0⟩)
  dropped : exportWalk fmt none stored = (some (withoutSecrets path v), ⟨0, found.length⟩)

/-- The value under a key as it is stored: a part, or a placeholder. -/
structure FieldStored (fmt : FloatFormat D) (path : Path) (key : String) (v out : JsonValue D)
    (found : List FoundSecret) (ids : List ℤ) (stored : JsonValue D) : Prop where
  placed : ∀ pre post : List (String × JsonValue D), key ∉ pre.map Prod.fst →
    placeAll (.obj (pre ++ (key, out) :: post)) (placingsFrom path.length found ids) =
      some (.obj (pre ++ (key, stored) :: post))
  restored : ∀ values, Holds values found ids →
    exportWalk fmt (some values) stored = (some v, ⟨found.length, 0⟩)
  dropped : exportWalk fmt none stored =
    (if (secretKind (path ++ [.key key]) v).isSome then none
      else some (withoutSecrets (path ++ [.key key]) v), ⟨0, found.length⟩)

structure FieldsStored (fmt : FloatFormat D) (path : Path) (fs outs : List (String × JsonValue D))
    (found : List FoundSecret) (ids : List ℤ) (stored : List (String × JsonValue D)) :
    Prop where
  keys : stored.map Prod.fst = fs.map Prod.fst
  placed : ∀ pre : List (String × JsonValue D), ((pre ++ fs).map Prod.fst).Nodup →
    placeAll (.obj (pre ++ outs)) (placingsFrom path.length found ids) =
      some (.obj (pre ++ stored))
  restored : ∀ values, Holds values found ids →
    exportFields fmt (some values) stored = (fs, ⟨found.length, 0⟩)
  dropped : exportFields fmt none stored = (withoutSecretFields path fs, ⟨0, found.length⟩)

structure ItemsStored (fmt : FloatFormat D) (path : Path) (index : ℕ) (xs outs : List (JsonValue D))
    (found : List FoundSecret) (ids : List ℤ) (stored : List (JsonValue D)) : Prop where
  placed : ∀ pre : List (JsonValue D), pre.length = index →
    placeAll (.arr (pre ++ outs)) (placingsFrom path.length found ids) =
      some (.arr (pre ++ stored))
  restored : ∀ values, Holds values found ids →
    exportItems fmt (some values) stored = (xs, ⟨found.length, 0⟩)
  dropped : exportItems fmt none stored = (withoutSecretItems path index xs, ⟨0, found.length⟩)

/-! ### A secret and its placeholder -/

theorem secretText_of_not_text (fmt : FloatFormat D)
    (h : isText item = false) :
    secretText fmt item = (item.dumps fmt).map (fun t => (t, true)) := by
  cases item with
  | str s => cases h
  | null => rfl
  | bool b => rfl
  | int n => rfl
  | float x => rfl
  | arr xs => rfl
  | obj fs => rfl

theorem eq_str_of_isText (h : isText item = true) : ∃ s, item = .str s := by
  cases item with
  | str s => exact ⟨s, rfl⟩
  | null => cases h
  | bool b => cases h
  | int n => cases h
  | float x => cases h
  | arr xs => cases h
  | obj fs => cases h

/-- What goes into the vault is a text as it is, or the marked JSON text of another value. -/
theorem secretText_eq_some {encoded : Bool} (h : secretText fmt item = some (text, encoded)) :
    (item = .str text ∧ encoded = false) ∨ (item.dumps fmt = some text ∧ encoded = true) := by
  cases ht : isText item with
  | true =>
    obtain ⟨s, rfl⟩ := eq_str_of_isText ht
    obtain ⟨rfl, rfl⟩ := Prod.mk.inj (Option.some.inj h)
    exact .inl ⟨rfl, rfl⟩
  | false =>
    rw [secretText_of_not_text fmt ht] at h
    obtain ⟨t, hdumps, hpair⟩ := Option.map_eq_some_iff.mp h
    obtain ⟨rfl, rfl⟩ := Prod.mk.inj hpair
    exact .inr ⟨hdumps, rfl⟩

theorem restoredValue_plain (fmt : FloatFormat D) (h : values.get secretId = some text) :
    restoredValue fmt (some values) [(secret, .int secretId)] = some (.str text) := by
  have hid : ([(secret, (.int secretId : JsonValue D))].lookup secret).bind idOf =
      some secretId := rfl
  unfold restoredValue
  simp only [hid, h]
  rfl

theorem restoredValue_encoded (fmt : FloatFormat D) (h : values.get secretId = some text) :
    restoredValue fmt (some values) [(secret, .int secretId), (encodedMark, .bool true)] =
      loads fmt text := by
  have hid : ([(secret, (.int secretId : JsonValue D)), (encodedMark, .bool true)].lookup
      secret).bind idOf = some secretId := rfl
  unfold restoredValue
  simp only [hid, h]
  rfl

/-- A placeholder is replaced by the value that it was left for. -/
theorem restored_placeholder
    {encoded : Bool} (hkeys : item.every distinctKeys = true) (hnan : item.every notNaN = true)
    (ht : secretText fmt item = some (text, encoded))
    (hvalue : values.get secretId = some text) :
    exportWalk fmt (some values) (placeholderOf secretId encoded) = (some item, ⟨1, 0⟩) := by
  rcases secretText_eq_some ht with ⟨rfl, rfl⟩ | ⟨hdumps, rfl⟩
  · have hrestore : restore fmt (some values) [(secret, .int secretId)] =
        (some (.str text), ⟨1, 0⟩) := by
      unfold restore
      rw [restoredValue_plain fmt hvalue]
    unfold placeholderOf
    rw [if_neg (by decide), exportWalk]
    exact hrestore
  · have hrestore : restore fmt (some values)
        [(secret, .int secretId), (encodedMark, .bool true)] = (some item, ⟨1, 0⟩) := by
      unfold restore
      rw [restoredValue_encoded fmt hvalue, loads_of_dumps fmt hkeys hnan hdumps]
    unfold placeholderOf
    rw [if_pos rfl, exportWalk]
    exact hrestore

theorem dropped_placeholder (fmt : FloatFormat D) (secretId : ℤ) (encoded : Bool) :
    exportWalk fmt none (placeholderOf secretId encoded) = (none, ⟨0, 1⟩) := by
  unfold placeholderOf
  cases encoded with
  | true => rw [if_pos rfl, exportWalk]; rfl
  | false => rw [if_neg (by decide), exportWalk]; rfl

theorem fieldStored_of_takeOut {kind : String}
    (hkeys : item.every distinctKeys = true) (hnan : item.every notNaN = true)
    (hkind : secretKind (path ++ [.key key]) item = some kind)
    (h : takeOut fmt (path ++ [.key key]) kind item = .ok (out, found))
    (hlen : ids.length = found.length) :
    ∃ stored, FieldStored fmt path key item out found ids stored := by
  obtain ⟨text, encoded, ht, hr⟩ := takeOut_eq_ok h
  obtain ⟨rfl, rfl⟩ := Prod.mk.inj hr
  obtain ⟨secretId, rfl⟩ := List.length_eq_one_iff.mp hlen
  refine ⟨placeholderOf secretId encoded, ?_, ?_, ?_⟩
  · intro pre post hkey
    have hpath : (path ++ [PathPart.key key]).drop path.length = [.key key] := List.drop_left
    show (setPlaceholder secretId encoded ((path ++ [PathPart.key key]).drop path.length) _).bind _
      = _
    rw [hpath, setPlaceholder, assign_append hkey]
    rfl
  · intro values hvalues
    exact restored_placeholder hkeys hnan ht (hvalues _ List.mem_cons_self)
  · rw [dropped_placeholder, hkind]
    rfl

theorem fieldStored_of_walk (hkind : secretKind (path ++ [.key key]) item = none)
    (hwalk : walk fmt false (path ++ [.key key]) item = .ok (out, found))
    (h : Stored fmt (path ++ [.key key]) item out found ids stored) :
    FieldStored fmt path key item out found ids stored := by
  have hpaths := path_of_walk item hwalk
  refine ⟨?_, h.restored, ?_⟩
  · intro pre post hkey
    rw [placingsFrom_step hpaths]
    exact placeAll_key hkey (ne_nil_of_placingsFrom hpaths ids) h.placed
  · rw [h.dropped, hkind]
    rfl

/-! ### The stored document -/

theorem fieldsStored_cons
    {fs outs storedFs : List (String × JsonValue D)} (hlen : ids.length = found.length)
    (h : FieldStored fmt path key item out found ids stored)
    (hfs : FieldsStored fmt path fs outs more rest storedFs) :
    FieldsStored fmt path ((key, item) :: fs) ((key, out) :: outs) (found ++ more) (ids ++ rest)
      ((key, stored) :: storedFs) := by
  constructor
  · rw [List.map_cons, List.map_cons, hfs.keys]
  · intro pre hnodup
    have hkey : key ∉ pre.map Prod.fst := by
      rw [List.map_append, List.map_cons, List.nodup_append] at hnodup
      intro hmem
      exact hnodup.2.2 key hmem key List.mem_cons_self rfl
    have hnodup' : ((pre ++ [(key, stored)] ++ fs).map Prod.fst).Nodup := by
      rw [List.append_assoc, List.map_append] at *
      exact hnodup
    have hrest := hfs.placed (pre ++ [(key, stored)]) hnodup'
    rw [List.append_assoc, List.append_assoc] at hrest
    rw [placingsFrom_append hlen, placeAll_append (h.placed pre outs hkey)]
    exact hrest
  · intro values hvalues
    obtain ⟨hv, hvs⟩ := holds_append hlen hvalues
    rw [exportFields, h.restored values hv, hfs.restored values hvs, List.length_append]
    rfl
  · rw [exportFields, h.dropped, hfs.dropped, List.length_append, withoutSecretFields]
    cases secretKind (path ++ [.key key]) item with
    | none => rfl
    | some kind => rfl

theorem itemsStored_cons {index : ℕ}
    {xs outs storedXs : List (JsonValue D)} (hlen : ids.length = found.length)
    (hwalk : walk fmt false (path ++ [.index index]) item = .ok (out, found))
    (h : Stored fmt (path ++ [.index index]) item out found ids stored)
    (hxs : ItemsStored fmt path (index + 1) xs outs more rest storedXs) :
    ItemsStored fmt path index (item :: xs) (out :: outs) (found ++ more) (ids ++ rest)
      (stored :: storedXs) := by
  have hpaths := path_of_walk item hwalk
  constructor
  · intro pre hpre
    have hplaced := placeAll_index pre outs (ne_nil_of_placingsFrom hpaths ids) h.placed
    rw [hpre, ← placingsFrom_step hpaths] at hplaced
    have hrest := hxs.placed (pre ++ [stored]) (by rw [List.length_append, hpre]; rfl)
    rw [List.append_assoc, List.append_assoc] at hrest
    rw [placingsFrom_append hlen, placeAll_append hplaced]
    exact hrest
  · intro values hvalues
    obtain ⟨hv, hvs⟩ := holds_append hlen hvalues
    rw [exportItems, h.restored values hv, hxs.restored values hvs, List.length_append]
    rfl
  · rw [exportItems, h.dropped, hxs.dropped, List.length_append, withoutSecretItems]
    rfl

theorem stored_leaf {v : JsonValue D} (hobj : ∀ fs, v ≠ .obj fs) (harr : ∀ xs, v ≠ .arr xs)
    (h : walk fmt false path v = .ok (out, found)) : Stored fmt path v out found ids v := by
  obtain ⟨-, hr⟩ := walk_leaf hobj harr h
  obtain ⟨hout, rfl⟩ := Prod.mk.inj hr
  rw [hout]
  cases v with
  | obj fs => exact absurd rfl (hobj fs)
  | arr xs => exact absurd rfl (harr xs)
  | null | bool b | int n | float x
  | str s => exact ⟨rfl, fun _ _ => by rw [exportWalk]; rfl, by rw [exportWalk]; rfl⟩

mutual

variable {fmt : FloatFormat D}

theorem exists_stored : ∀ (v : JsonValue D) {path : Path} {out : JsonValue D}
    {found : List FoundSecret} {ids : List ℤ}, v.every distinctKeys = true →
      v.every notNaN = true → walk fmt false path v = .ok (out, found) →
      ids.length = found.length → ∃ stored, Stored fmt path v out found ids stored
  | .obj fs, path, out, found, ids, hkeys, hnan, h, hlen => by
    obtain ⟨-, hplain, outs, hfields, hout⟩ := walk_obj_eq_ok h
    rw [every] at hkeys hnan
    obtain ⟨hself, hkeys⟩ := Bool.and_eq_true_iff.mp hkeys
    obtain ⟨storedFs, hs⟩ := exists_fieldsStored fs hkeys (Bool.and_eq_true_iff.mp hnan).2
      hfields hlen
    obtain rfl : out = .obj outs := hout
    have hstored : isPlaceholder (.obj storedFs) = false := by
      rw [isPlaceholder_obj, hs.keys]
      exact hplain
    refine ⟨.obj storedFs, ?_, ?_, ?_⟩
    · exact hs.placed [] (of_decide_eq_true hself)
    · intro values hvalues
      rw [exportWalk, hstored, if_neg (by decide), hs.restored values hvalues]
    · rw [exportWalk, hstored, if_neg (by decide), hs.dropped, withoutSecrets]
  | .arr xs, path, out, found, ids, hkeys, hnan, h, hlen => by
    obtain ⟨-, outs, hitems, hout⟩ := walk_arr_eq_ok h
    rw [every] at hkeys hnan
    obtain ⟨storedXs, hs⟩ := exists_itemsStored xs (Bool.and_eq_true_iff.mp hkeys).2
      (Bool.and_eq_true_iff.mp hnan).2 hitems hlen
    obtain rfl : out = .arr outs := hout
    refine ⟨.arr storedXs, hs.placed [] rfl, ?_, ?_⟩
    · intro values hvalues
      rw [exportWalk, hs.restored values hvalues]
    · rw [exportWalk, hs.dropped, withoutSecrets]
  | .null, _, _, _, _, _, _, h, _ => ⟨_, stored_leaf (by simp) (by simp) h⟩
  | .bool _, _, _, _, _, _, _, h, _ => ⟨_, stored_leaf (by simp) (by simp) h⟩
  | .int _, _, _, _, _, _, _, h, _ => ⟨_, stored_leaf (by simp) (by simp) h⟩
  | .float _, _, _, _, _, _, _, h, _ => ⟨_, stored_leaf (by simp) (by simp) h⟩
  | .str _, _, _, _, _, _, _, h, _ => ⟨_, stored_leaf (by simp) (by simp) h⟩

theorem exists_fieldsStored : ∀ (fs : List (String × JsonValue D))
    {path : Path} {outs : List (String × JsonValue D)} {found : List FoundSecret} {ids : List ℤ},
    everyField distinctKeys fs = true → everyField notNaN fs = true →
      walkFields fmt false path fs = .ok (outs, found) → ids.length = found.length →
      ∃ stored, FieldsStored fmt path fs outs found ids stored
  | [], path, outs, found, ids, _, _, h, hlen => by
    rw [walkFields] at h
    obtain ⟨rfl, rfl⟩ := Prod.mk.inj (Except.ok.inj h)
    exact ⟨[], rfl, fun _ _ => rfl, fun _ _ => by rw [exportFields]; rfl,
      by rw [exportFields, withoutSecretFields]; rfl⟩
  | (key, item) :: fs, path, outs, found, ids, hkeys, hnan, h, hlen => by
    obtain ⟨out, found₁, outs', more, hitem, hfs, hr⟩ := walkFields_cons_eq_ok h
    obtain ⟨rfl, rfl⟩ := Prod.mk.inj hr
    rw [everyField] at hkeys hnan
    obtain ⟨hkey, hkeys⟩ := Bool.and_eq_true_iff.mp hkeys
    obtain ⟨hnan₁, hnan⟩ := Bool.and_eq_true_iff.mp hnan
    rw [List.length_append] at hlen
    have htake : (ids.take found₁.length).length = found₁.length := by
      rw [List.length_take]
      omega
    have hdrop : (ids.drop found₁.length).length = more.length := by
      rw [List.length_drop]
      omega
    obtain ⟨storedFs, hs⟩ := exists_fieldsStored fs hkeys hnan hfs hdrop
    have hfield : ∃ stored, FieldStored fmt path key item out found₁ (ids.take found₁.length)
        stored := by
      rcases hitem with ⟨hkind, hwalk⟩ | ⟨kind, hkind, htakeOut⟩
      · obtain ⟨stored, hstored⟩ := exists_stored item hkey hnan₁ hwalk htake
        exact ⟨stored, fieldStored_of_walk hkind hwalk hstored⟩
      · exact fieldStored_of_takeOut hkey hnan₁ hkind htakeOut htake
    obtain ⟨stored, hstored⟩ := hfield
    have hcons := fieldsStored_cons htake hstored hs
    rw [List.take_append_drop] at hcons
    exact ⟨_, hcons⟩

theorem exists_itemsStored : ∀ (xs : List (JsonValue D)) {path : Path}
    {index : ℕ} {outs : List (JsonValue D)} {found : List FoundSecret} {ids : List ℤ},
    everyItem distinctKeys xs = true → everyItem notNaN xs = true →
      walkItems fmt false path index xs = .ok (outs, found) → ids.length = found.length →
      ∃ stored, ItemsStored fmt path index xs outs found ids stored
  | [], path, index, outs, found, ids, _, _, h, hlen => by
    rw [walkItems] at h
    obtain ⟨rfl, rfl⟩ := Prod.mk.inj (Except.ok.inj h)
    exact ⟨[], fun _ _ => rfl, fun _ _ => by rw [exportItems]; rfl,
      by rw [exportItems, withoutSecretItems]; rfl⟩
  | item :: xs, path, index, outs, found, ids, hkeys, hnan, h, hlen => by
    obtain ⟨out, found₁, outs', more, hitem, hxs, hr⟩ := walkItems_cons_eq_ok h
    obtain ⟨rfl, rfl⟩ := Prod.mk.inj hr
    rw [everyItem] at hkeys hnan
    obtain ⟨hkey, hkeys⟩ := Bool.and_eq_true_iff.mp hkeys
    obtain ⟨hnan₁, hnan⟩ := Bool.and_eq_true_iff.mp hnan
    rw [List.length_append] at hlen
    have htake : (ids.take found₁.length).length = found₁.length := by
      rw [List.length_take]
      omega
    have hdrop : (ids.drop found₁.length).length = more.length := by
      rw [List.length_drop]
      omega
    obtain ⟨storedXs, hs⟩ := exists_itemsStored xs hkeys hnan hxs hdrop
    obtain ⟨stored, hstored⟩ := exists_stored item hkey hnan₁ hitem htake
    have hcons := itemsStored_cons htake hitem hstored hs
    rw [List.take_append_drop] at hcons
    exact ⟨_, hcons⟩

end

end RtfmEv.FleetConfig
