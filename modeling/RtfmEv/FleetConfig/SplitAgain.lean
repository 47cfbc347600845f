import RtfmEv.FleetConfig.RoundTrip

/-!
# What a split document holds

No secret text is left in a split document, and splitting it again finds nothing and changes
nothing. With what is stored and exported, this is the round trip of a config document.
-/

namespace RtfmEv.FleetConfig

open RtfmEv.Lib JsonValue

variable {D : Type} {v : JsonValue D} {found : List FoundSecret} {fmt : FloatFormat D} {path : Path}

/-! ### What a walked value is -/

section

variable {fmt : FloatFormat D} {path : Path} {v : JsonValue D}

theorem secretKind_eq_none_iff :
    secretKind path v = none ↔ (isBlank v || isPlaceholder v) = true ∨
      (knownKind path = none ∧ (isText v && nameLooksSecret path) = false) := by
  unfold secretKind
  cases hb : isBlank v || isPlaceholder v with
  | true =>
    rw [if_pos rfl]
    exact ⟨fun _ => .inl rfl, fun _ => rfl⟩
  | false =>
    rw [if_neg (by decide), Option.or_eq_none_iff]
    cases hn : isText v && nameLooksSecret path with
    | true =>
      rw [if_pos rfl]
      constructor
      · rintro ⟨-, h⟩
        cases h
      · rintro (h | ⟨-, h⟩)
        · cases h
        · cases h
    | false =>
      rw [if_neg (by decide)]
      constructor
      · rintro ⟨h, -⟩
        exact .inr ⟨h, rfl⟩
      · rintro (h | ⟨h, -⟩)
        · cases h
        · exact ⟨h, rfl⟩

/-- A text that was no secret is empty, or neither its path nor its name is one of a secret. -/
theorem noSecretText_of_secretKind (h : secretKind path v = none) :
    NoSecretText (path, v) := by
  rintro t rfl ht
  rcases secretKind_eq_none_iff.mp h with hb | ⟨hknown, hname⟩
  · have hblank : (t == "" || false) = true := hb
    rw [Bool.or_false] at hblank
    exact absurd (beq_iff_eq.mp hblank) ht
  · exact ⟨hknown, hname⟩

theorem noSecretText_of_not_text (h : isText v = false) :
    NoSecretText (path, v) := by
  rintro t rfl
  cases h

theorem secretKind_of_walk {out : JsonValue D} {found : List FoundSecret}
    (hkind : secretKind path v = none) (h : walk fmt false path v = .ok (out, found)) :
    secretKind path out = none := by
  cases v with
  | obj fs =>
    obtain ⟨-, hplain, outs, -, hout⟩ := walk_obj_eq_ok h
    obtain rfl : out = .obj outs := hout
    rcases secretKind_eq_none_iff.mp hkind with hb | ⟨hknown, -⟩
    · have hplace : (false || isPlaceholder (.obj fs)) = true := hb
      rw [hplain] at hplace
      cases hplace
    · exact secretKind_eq_none_iff.mpr (.inr ⟨hknown, rfl⟩)
  | arr xs =>
    obtain ⟨-, outs, -, hout⟩ := walk_arr_eq_ok h
    obtain rfl : out = .arr outs := hout
    rcases secretKind_eq_none_iff.mp hkind with hb | ⟨hknown, -⟩
    · cases hb
    · exact secretKind_eq_none_iff.mpr (.inr ⟨hknown, rfl⟩)
  | null | bool b | int n | float x | str s =>
    obtain ⟨-, hr⟩ := walk_leaf (by simp) (by simp) h
    rw [(Prod.mk.inj hr).1]
    exact hkind

end

/-! ### No secret text is left -/

theorem entries_emptyPlaceholder (path : Path) : ∀ e ∈ entries path (emptyPlaceholder (D := D)),
    NoSecretText e := by
  intro e he
  have hlist : entries path (emptyPlaceholder (D := D)) = [(path ++ [.key secret], .null)] := by
    unfold emptyPlaceholder
    rw [entries, entriesOfFields, entries, entriesOfFields]
    rfl
  rw [hlist] at he
  obtain rfl := List.mem_singleton.mp he
  exact noSecretText_of_not_text rfl

theorem entries_leaf (hobj : ∀ fs, v ≠ .obj fs) (harr : ∀ xs, v ≠ .arr xs)
    (path : Path) : entries path v = [] := by
  cases v with
  | obj fs => exact absurd rfl (hobj fs)
  | arr xs => exact absurd rfl (harr xs)
  | null => rw [entries]
  | bool b => rw [entries]
  | int n => rw [entries]
  | float x => rw [entries]
  | str s => rw [entries]

theorem noSecretText_leaf {out : JsonValue D} (hobj : ∀ fs, v ≠ .obj fs) (harr : ∀ xs, v ≠ .arr xs)
    (h : walk fmt false path v = .ok (out, found)) : ∀ e ∈ entries path out, NoSecretText e := by
  obtain ⟨-, hr⟩ := walk_leaf hobj harr h
  rw [(Prod.mk.inj hr).1, entries_leaf hobj harr path]
  exact fun e he => nomatch he

mutual

variable {fmt : FloatFormat D}

theorem noSecretText_of_walk : ∀ (v : JsonValue D) {path : Path}
    {out : JsonValue D} {found : List FoundSecret}, walk fmt false path v = .ok (out, found) →
      ∀ e ∈ entries path out, NoSecretText e
  | .obj fs, path, out, found, h => by
    obtain ⟨-, -, outs, hfields, hout⟩ := walk_obj_eq_ok h
    obtain rfl : out = .obj outs := hout
    rw [entries]
    exact noSecretText_of_walkFields fs hfields
  | .arr xs, path, out, found, h => by
    obtain ⟨-, outs, hitems, hout⟩ := walk_arr_eq_ok h
    obtain rfl : out = .arr outs := hout
    rw [entries]
    exact noSecretText_of_walkItems xs hitems
  | .null, _, _, _, h => noSecretText_leaf (by simp) (by simp) h
  | .bool _, _, _, _, h => noSecretText_leaf (by simp) (by simp) h
  | .int _, _, _, _, h => noSecretText_leaf (by simp) (by simp) h
  | .float _, _, _, _, h => noSecretText_leaf (by simp) (by simp) h
  | .str _, _, _, _, h => noSecretText_leaf (by simp) (by simp) h

theorem noSecretText_of_walkFields : ∀ (fs : List (String × JsonValue D))
    {path : Path} {outs : List (String × JsonValue D)} {found : List FoundSecret},
    walkFields fmt false path fs = .ok (outs, found) →
      ∀ e ∈ entriesOfFields path outs, NoSecretText e
  | [], path, outs, found, h => by
    rw [walkFields] at h
    obtain ⟨rfl, rfl⟩ := Prod.mk.inj (Except.ok.inj h)
    rw [entriesOfFields]
    exact fun e he => nomatch he
  | (key, item) :: fs, path, outs, found, h => by
    obtain ⟨out, found₁, outs', more, hitem, hfs, hr⟩ := walkFields_cons_eq_ok h
    obtain ⟨rfl, rfl⟩ := Prod.mk.inj hr
    rw [entriesOfFields]
    intro e he
    rcases List.mem_append.mp he with he | he
    · rcases hitem with ⟨hkind, hwalk⟩ | ⟨kind, -, htake⟩
      · rcases List.mem_cons.mp he with rfl | he
        · exact noSecretText_of_secretKind (secretKind_of_walk hkind hwalk)
        · exact noSecretText_of_walk item hwalk e he
      · obtain ⟨text, encoded, -, hr⟩ := takeOut_eq_ok htake
        obtain ⟨rfl, -⟩ := Prod.mk.inj hr
        rcases List.mem_cons.mp he with rfl | he
        · exact noSecretText_of_not_text rfl
        · exact entries_emptyPlaceholder _ e he
    · exact noSecretText_of_walkFields fs hfs e he

theorem noSecretText_of_walkItems : ∀ (xs : List (JsonValue D))
    {path : Path} {index : ℕ} {outs : List (JsonValue D)} {found : List FoundSecret},
    walkItems fmt false path index xs = .ok (outs, found) →
      ∀ e ∈ entriesOfItems path index outs, NoSecretText e
  | [], path, index, outs, found, h => by
    rw [walkItems] at h
    obtain ⟨rfl, rfl⟩ := Prod.mk.inj (Except.ok.inj h)
    rw [entriesOfItems]
    exact fun e he => nomatch he
  | item :: xs, path, index, outs, found, h => by
    obtain ⟨out, found₁, outs', more, hitem, hxs, hr⟩ := walkItems_cons_eq_ok h
    obtain ⟨rfl, rfl⟩ := Prod.mk.inj hr
    rw [entriesOfItems]
    intro e he
    rcases List.mem_append.mp he with he | he
    · exact noSecretText_of_walk item hitem e he
    · exact noSecretText_of_walkItems xs hxs e he

end

/-! ### Splitting again -/

theorem secretKind_emptyPlaceholder (path : Path) :
    secretKind path (emptyPlaceholder (D := D)) = none :=
  secretKind_eq_none_iff.mpr (.inl rfl)

theorem walk_emptyPlaceholder (fmt : FloatFormat D) {path : Path} (h : path.length ≤ maxDepth) :
    walk fmt true path emptyPlaceholder = .ok (emptyPlaceholder, []) := by
  unfold emptyPlaceholder
  rw [walk, checkDepth_of_le h]
  rfl

theorem walk_obj_of_fields {fs outs : List (String × JsonValue D)} (h : path.length ≤ maxDepth)
    (hplain : isPlaceholder (.obj fs) = false)
    (hfields : walkFields fmt true path fs = .ok (outs, found)) :
    walk fmt true path (.obj fs) = .ok (.obj outs, found) := by
  rw [walk, checkDepth_of_le h, ok_bind, hplain, if_neg (by decide), hfields]
  rfl

theorem keys_of_walkFields {allow : Bool}
    (fs : List (String × JsonValue D)) : ∀ {outs : List (String × JsonValue D)}
      {found : List FoundSecret}, walkFields fmt allow path fs = .ok (outs, found) →
      outs.map Prod.fst = fs.map Prod.fst := by
  induction fs with
  | nil =>
    intro outs found h
    rw [walkFields] at h
    obtain ⟨rfl, -⟩ := Prod.mk.inj (Except.ok.inj h)
    rfl
  | cons f fs ih =>
    intro outs found h
    obtain ⟨key, item⟩ := f
    obtain ⟨out, found₁, outs', more, -, hfs, hr⟩ := walkFields_cons_eq_ok h
    obtain ⟨rfl, -⟩ := Prod.mk.inj hr
    rw [List.map_cons, List.map_cons, ih hfs]

theorem walk_again_leaf {out : JsonValue D} (hobj : ∀ fs, v ≠ .obj fs) (harr : ∀ xs, v ≠ .arr xs)
    (h : walk fmt false path v = .ok (out, found)) : walk fmt true path out = .ok (out, []) := by
  obtain ⟨hpath, hr⟩ := walk_leaf hobj harr h
  rw [(Prod.mk.inj hr).1]
  exact walk_leaf_of_le hobj harr hpath

mutual

variable {fmt : FloatFormat D}

/-- Splitting a split part again finds nothing and changes nothing, as long as no secret was
deeper than a document may be. -/
theorem walk_again : ∀ (v : JsonValue D) {path : Path} {out : JsonValue D}
    {found : List FoundSecret}, walk fmt false path v = .ok (out, found) →
      (∀ f ∈ found, f.path.length ≤ maxDepth) → walk fmt true path out = .ok (out, [])
  | .obj fs, path, out, found, h, hdepth => by
    obtain ⟨hpath, hplain, outs, hfields, hout⟩ := walk_obj_eq_ok h
    obtain rfl : out = .obj outs := hout
    have hplain' : isPlaceholder (.obj outs) = false := by
      rw [isPlaceholder_obj, keys_of_walkFields fs hfields]
      exact hplain
    exact walk_obj_of_fields hpath hplain' (walkFields_again fs hfields hdepth)
  | .arr xs, path, out, found, h, hdepth => by
    obtain ⟨hpath, outs, hitems, hout⟩ := walk_arr_eq_ok h
    obtain rfl : out = .arr outs := hout
    rw [walk, checkDepth_of_le hpath, ok_bind, walkItems_again xs hitems hdepth]
    rfl
  | .null, _, _, _, h, _ => walk_again_leaf (by simp) (by simp) h
  | .bool _, _, _, _, h, _ => walk_again_leaf (by simp) (by simp) h
  | .int _, _, _, _, h, _ => walk_again_leaf (by simp) (by simp) h
  | .float _, _, _, _, h, _ => walk_again_leaf (by simp) (by simp) h
  | .str _, _, _, _, h, _ => walk_again_leaf (by simp) (by simp) h

theorem walkFields_again : ∀ (fs : List (String × JsonValue D)) {path : Path}
    {outs : List (String × JsonValue D)} {found : List FoundSecret},
    walkFields fmt false path fs = .ok (outs, found) →
      (∀ f ∈ found, f.path.length ≤ maxDepth) → walkFields fmt true path outs = .ok (outs, [])
  | [], path, outs, found, h, _ => by
    rw [walkFields] at h
    obtain ⟨rfl, -⟩ := Prod.mk.inj (Except.ok.inj h)
    rw [walkFields]
    rfl
  | (key, item) :: fs, path, outs, found, h, hdepth => by
    obtain ⟨out, found₁, outs', more, hitem, hfs, hr⟩ := walkFields_cons_eq_ok h
    obtain ⟨rfl, rfl⟩ := Prod.mk.inj hr
    have hfs' := walkFields_again fs hfs (fun f hf => hdepth f (List.mem_append_right _ hf))
    have hitem' : secretKind (path ++ [.key key]) out = none ∧
        walk fmt true (path ++ [.key key]) out = .ok (out, []) := by
      rcases hitem with ⟨hkind, hwalk⟩ | ⟨kind, -, htake⟩
      · exact ⟨secretKind_of_walk hkind hwalk,
          walk_again item hwalk (fun f hf => hdepth f (List.mem_append_left _ hf))⟩
      · obtain ⟨text, encoded, -, hr⟩ := takeOut_eq_ok htake
        obtain ⟨rfl, rfl⟩ := Prod.mk.inj hr
        exact ⟨secretKind_emptyPlaceholder _,
          walk_emptyPlaceholder fmt (hdepth _ List.mem_cons_self)⟩
    rw [walkFields, hitem'.1]
    simp only [hitem'.2, ok_bind, hfs']
    rfl

theorem walkItems_again : ∀ (xs : List (JsonValue D)) {path : Path}
    {index : ℕ} {outs : List (JsonValue D)} {found : List FoundSecret},
    walkItems fmt false path index xs = .ok (outs, found) →
      (∀ f ∈ found, f.path.length ≤ maxDepth) →
      walkItems fmt true path index outs = .ok (outs, [])
  | [], path, index, outs, found, h, _ => by
    rw [walkItems] at h
    obtain ⟨rfl, -⟩ := Prod.mk.inj (Except.ok.inj h)
    rw [walkItems]
    rfl
  | item :: xs, path, index, outs, found, h, hdepth => by
    obtain ⟨out, found₁, outs', more, hitem, hxs, hr⟩ := walkItems_cons_eq_ok h
    obtain ⟨rfl, rfl⟩ := Prod.mk.inj hr
    have hitem' := walk_again item hitem (fun f hf => hdepth f (List.mem_append_left _ hf))
    have hxs' := walkItems_again xs hxs (fun f hf => hdepth f (List.mem_append_right _ hf))
    rw [walkItems, hitem', ok_bind, hxs']
    rfl

end

/-! ### No placeholder in a file -/

theorem keys_withoutSecretFields {k : String} (fs : List (String × JsonValue D))
    (h : k ∈ (withoutSecretFields path fs).map Prod.fst) : k ∈ fs.map Prod.fst := by
  induction fs with
  | nil => rw [withoutSecretFields] at h; exact h
  | cons f fs ih =>
    obtain ⟨key, item⟩ := f
    rw [withoutSecretFields] at h
    by_cases hs : (secretKind (path ++ [.key key]) item).isSome = true
    · rw [if_pos hs] at h
      exact List.mem_cons_of_mem _ (ih h)
    · rw [if_neg hs, List.map_cons] at h
      rcases List.mem_cons.mp h with rfl | h
      · exact List.mem_cons_self
      · exact List.mem_cons_of_mem _ (ih h)

mutual

theorem lacksKey_withoutSecrets {k : String} : ∀ (v : JsonValue D) (path : Path),
    v.every (lacksKey k) = true → (withoutSecrets path v).every (lacksKey k) = true
  | .obj fs, path, h => by
    rw [every] at h
    obtain ⟨hself, hfs⟩ := Bool.and_eq_true_iff.mp h
    rw [withoutSecrets, every, lacksKey_withoutSecretFields fs path hfs, Bool.and_true]
    unfold lacksKey at hself ⊢
    rw [Bool.not_eq_true', List.contains_eq_mem, decide_eq_false_iff_not] at hself ⊢
    exact fun hk => hself (keys_withoutSecretFields fs hk)
  | .arr xs, path, h => by
    rw [every] at h
    rw [withoutSecrets, every,
      lacksKey_withoutSecretItems xs path 0 (Bool.and_eq_true_iff.mp h).2]
    rfl
  | .null, path, h => by rw [withoutSecrets]; exact h
  | .bool _, path, h => by rw [withoutSecrets]; exact h
  | .int _, path, h => by rw [withoutSecrets]; exact h
  | .float _, path, h => by rw [withoutSecrets]; exact h
  | .str _, path, h => by rw [withoutSecrets]; exact h

theorem lacksKey_withoutSecretFields {k : String} : ∀ (fs : List (String × JsonValue D))
    (path : Path), everyField (lacksKey k) fs = true →
      everyField (lacksKey k) (withoutSecretFields path fs) = true
  | [], path, h => by rw [withoutSecretFields]; exact h
  | (key, item) :: fs, path, h => by
    rw [everyField] at h
    obtain ⟨hitem, hfs⟩ := Bool.and_eq_true_iff.mp h
    rw [withoutSecretFields]
    by_cases hs : (secretKind (path ++ [.key key]) item).isSome = true
    · rw [if_pos hs]
      exact lacksKey_withoutSecretFields fs path hfs
    · rw [if_neg hs, everyField, lacksKey_withoutSecrets item _ hitem,
        lacksKey_withoutSecretFields fs path hfs]
      rfl

theorem lacksKey_withoutSecretItems {k : String} : ∀ (xs : List (JsonValue D)) (path : Path)
    (index : ℕ), everyItem (lacksKey k) xs = true →
      everyItem (lacksKey k) (withoutSecretItems path index xs) = true
  | [], path, index, h => by rw [withoutSecretItems]; exact h
  | item :: xs, path, index, h => by
    rw [everyItem] at h
    obtain ⟨hitem, hxs⟩ := Bool.and_eq_true_iff.mp h
    rw [withoutSecretItems, everyItem, lacksKey_withoutSecrets item _ hitem,
      lacksKey_withoutSecretItems xs path (index + 1) hxs]
    rfl

end

/-! ### The round trip -/

theorem holds_vaultOf (found : List FoundSecret) :
    ∀ {ids : List ℤ}, ids.Nodup → Holds (vaultOf found ids) found ids := by
  induction found with
  | nil => exact fun _ e he => nomatch he
  | cons f found ih =>
    intro ids hids e he
    cases ids with
    | nil => cases he
    | cons id ids =>
      obtain ⟨hid, hids⟩ := List.nodup_cons.mp hids
      rw [List.zip_cons_cons] at he
      unfold vaultOf Table.get
      rw [List.map_cons, List.zip_cons_cons]
      rcases List.mem_cons.mp he with rfl | hmem
      · exact List.lookup_cons_self
      · obtain ⟨g, id'⟩ := e
        have hne : (id' == id) = false := by
          apply beq_false_of_ne
          rintro rfl
          exact hid (List.of_mem_zip hmem).2
        show List.lookup id' ((id, f.text) :: ids.zip (found.map FoundSecret.text)) = _
        rw [List.lookup_cons, hne]
        exact ih hids (g, id') hmem

/-- **Secrets survive a config round trip.** A document without a placeholder, without NaN and
with no secret below the nesting limit is split, and every placeholder is given an id of its own.
The export with the vault values of the ids is the document; the export without values is the
document without its secret keys; neither has a placeholder; the split document holds no secret
text; and splitting it again finds nothing and changes nothing. -/
theorem config_round_trip (fmt : FloatFormat D) {document out : JsonValue D}
    {found : List FoundSecret} {ids : List ℤ}
    (hkeys : document.every distinctKeys = true) (hnan : document.every notNaN = true)
    (hsecret : document.every (lacksKey secret) = true)
    (hsplit : splitSecrets fmt document false = .ok (out, found))
    (hdepth : ∀ f ∈ found, f.path.length ≤ maxDepth)
    (hids : ids.Nodup) (hlen : ids.length = found.length) :
    (∃ stored, storeSecrets out found ids = some stored ∧
      exportDocument fmt stored (some (vaultOf found ids)) =
        (some document, ⟨found.length, 0⟩) ∧
      exportDocument fmt stored none =
        (some (withoutSecrets [] document), ⟨0, found.length⟩) ∧
      ∀ values, values = some (vaultOf found ids) ∨ values = none →
        ∀ file ∈ (exportDocument fmt stored values).1, file.every (lacksKey secret) = true) ∧
    (∀ e ∈ entries [] out, NoSecretText e) ∧
    splitSecrets fmt out true = .ok (out, []) := by
  obtain ⟨stored, hstored⟩ := exists_stored document hkeys hnan hsplit hlen
  have hrestored := hstored.restored _ (holds_vaultOf found hids)
  refine ⟨⟨stored, hstored.placed, hrestored, hstored.dropped, ?_⟩, ?_, ?_⟩
  · rintro values (rfl | rfl) file hfile
    · unfold exportDocument at hfile
      rw [hrestored] at hfile
      obtain rfl := Option.some.inj hfile
      exact hsecret
    · unfold exportDocument at hfile
      rw [hstored.dropped] at hfile
      obtain rfl := Option.some.inj hfile
      exact lacksKey_withoutSecrets document [] hsecret
  · exact noSecretText_of_walk document hsplit
  · exact walk_again document hsplit hdepth

/-! ### One document -/

theorem matchNumber_tenth : ∀ d : Fin 10,
    matchNumber ['0', '.', Nat.digitChar d.val] =
      some (⟨['0'], ['.', Nat.digitChar d.val], []⟩, []) := by decide

theorem ofDigitChars_tenth : ∀ d : Fin 10,
    Fin.ofNat 10 (Nat.ofDigitChars 10 [Nat.digitChar d.val] 0) = d := by decide

/-- Tenths, written as a zero and a digit after the point. -/
def tenths : FloatFormat (Fin 10) where
  repr d := ['0', '.', Nat.digitChar d.val]
  ofText s := .finite (Fin.ofNat 10 (Nat.ofDigitChars 10 (s.drop 2) 0))
  isZero d := d == 0
  matchNumber_repr d := ⟨_, matchNumber_tenth d, rfl⟩
  ofText_repr d := congrArg JsonFloat.finite (ofDigitChars_tenth d)

/-- A device with its key, a broker token, and a list under a key where a secret is known. -/
def sampleDocument : JsonValue (Fin 10) :=
  .obj [("vars", .obj [("name", .str "hill"), ("prv.key", .int 12), ("lat", .float (.finite 5))]),
    ("mqtt", .obj [("slots", .arr [.obj [("token", .str "a")]]), ("alertPsk", .arr [.null])])]

def sampleSplit : JsonValue (Fin 10) :=
  .obj [("vars", .obj [("name", .str "hill"), ("prv.key", emptyPlaceholder),
      ("lat", .float (.finite 5))]),
    ("mqtt", .obj [("slots", .arr [.obj [("token", emptyPlaceholder)]]),
      ("alertPsk", emptyPlaceholder)])]

def sampleFound : List FoundSecret :=
  [⟨[.key "vars", .key "prv.key"], "private_key", "12", true⟩,
    ⟨[.key "mqtt", .key "slots", .index 0, .key "token"], "other", "a", false⟩,
    ⟨[.key "mqtt", .key "alertPsk"], "other", "[null]", true⟩]

theorem splitSecrets_sampleDocument :
    splitSecrets tenths sampleDocument false = .ok (sampleSplit, sampleFound) := rfl

theorem config_round_trip_sample :
    (∃ stored, storeSecrets sampleSplit sampleFound [7, 3, 9] = some stored ∧
      exportDocument tenths stored (some (vaultOf sampleFound [7, 3, 9])) =
        (some sampleDocument, ⟨3, 0⟩) ∧
      exportDocument tenths stored none = (some (withoutSecrets [] sampleDocument), ⟨0, 3⟩) ∧
      ∀ values, values = some (vaultOf sampleFound [7, 3, 9]) ∨ values = none →
        ∀ file ∈ (exportDocument tenths stored values).1, file.every (lacksKey secret) = true) ∧
    (∀ e ∈ entries [] sampleSplit, NoSecretText e) ∧
    splitSecrets tenths sampleSplit true = .ok (sampleSplit, []) :=
  config_round_trip tenths (by decide +kernel) (by decide +kernel) (by decide +kernel)
    splitSecrets_sampleDocument (by decide +kernel) (by decide) rfl

end RtfmEv.FleetConfig
