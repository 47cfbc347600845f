import Mathlib.Data.List.Infix
import Mathlib.Data.List.Sort
import RtfmEv.Lib.OrderedDict

/-!
# Workspace URLs (`app/gateway/keys.py`)

A workspace is named by the first characters of the key of its radio, and by a number where
radios share them. Longer forms of a key and keys that a radio had before lead to the name.
Stored keys are in lower case, for the registry writes them so, and a segment is put in lower
case before it is looked up.
-/

namespace RtfmEv.Gateway

open RtfmEv.Lib

abbrev KeyText := List Char

/-- `str.lower`. -/
structure Lowering where
  lower : KeyText → KeyText
  ascii : ∀ s, (∀ c ∈ s, c.toNat < 128) → lower s = s.map Char.toLower

structure RadioEntry where
  id : ℕ
  publicKey : Option KeyText
  keyHistory : List KeyText
deriving DecidableEq

structure Resolution where
  radioId : ℕ
  /-- None: serve this radio. Otherwise: redirect to this URL key. -/
  redirectKey : Option KeyText
deriving DecidableEq

def urlKeyLen : ℕ := 12

/-- A character of `[0-9a-f]`. -/
def isHexChar (c : Char) : Bool := c.isDigit || (decide ('a' ≤ c) && decide (c ≤ 'f'))

def byId (radios : List RadioEntry) : List RadioEntry :=
  radios.insertionSort (fun r r' => r.id ≤ r'.id)

variable (L : Lowering)

def baseOf (publicKey : KeyText) : KeyText := (L.lower publicKey).take urlKeyLen

/-- The URL key of the radio that is the `count`-th with its base. -/
def numbered (base : KeyText) (count : ℕ) : KeyText :=
  if count = 1 then base else base ++ '-' :: Nat.toDigits 10 count

/-- One radio of `assign_url_keys`: the keys, and how often each base was seen. -/
def assignNext (s : OrderedDict ℕ KeyText × OrderedDict KeyText ℕ) (radio : RadioEntry) :
    OrderedDict ℕ KeyText × OrderedDict KeyText ℕ :=
  match radio.publicKey.filter (fun key => key ≠ []) with
  | none => s
  | some key =>
    let base := baseOf L key
    let count := (s.2.get? base).getD 0 + 1
    (s.1.set radio.id (numbered base count), s.2.set base count)

def assignUrlKeys (radios : List RadioEntry) : OrderedDict ℕ KeyText :=
  ((byId radios).foldl (assignNext L) (OrderedDict.empty, OrderedDict.empty)).1

/-- `by_key`, where the last radio of a key counts. -/
def radioOf (current : OrderedDict ℕ KeyText) (wanted : KeyText) : Option ℕ :=
  (current.entries.reverse.find? (fun e => e.2 = wanted)).map Prod.fst

/-- The first radio of a kind that has a URL key, to which it redirects. -/
def redirectToFirst (radios : List RadioEntry) (current : OrderedDict ℕ KeyText)
    (p : RadioEntry → Bool) : Option Resolution :=
  (byId radios).findSome? (fun radio =>
    if p radio then (current.get? radio.id).map (fun key => ⟨radio.id, some key⟩) else none)

def hasKeyWith (wanted : KeyText) (radio : RadioEntry) : Bool :=
  radio.publicKey.any (fun key => key ≠ [] && wanted.isPrefixOf key)

def hadKeyWith (wanted : KeyText) (radio : RadioEntry) : Bool :=
  radio.keyHistory.any (fun old => wanted.isPrefixOf old)

def resolve (segment : KeyText) (radios : List RadioEntry) : Option Resolution :=
  let wanted := L.lower segment
  let current := assignUrlKeys L radios
  match radioOf current wanted with
  | some radioId => some ⟨radioId, if segment = wanted then none else some wanted⟩
  | none =>
    if wanted ≠ [] ∧ wanted.all isHexChar ∧ urlKeyLen ≤ wanted.length ∧ wanted.length ≤ 64 then
      (redirectToFirst radios current (hasKeyWith wanted)).or
        (redirectToFirst radios current (hadKeyWith wanted))
    else none

/-- `RadioRegistry.set_public_key`: whether the key changed, and the list, `none` on `KeyError`. -/
def setPublicKey (radios : List RadioEntry) (radioId : ℕ) (publicKey : KeyText) :
    Option (Bool × List RadioEntry) :=
  (radios.find? (fun r => r.id = radioId)).map (fun current =>
    let key := L.lower publicKey
    if current.publicKey = some key then (false, radios)
    else
      let history := current.keyHistory.filter (fun k => k ≠ key) ++
        (current.publicKey.filter (fun k => k ≠ [])).toList
      let updated := { current with publicKey := some key, keyHistory := history }
      (true, radios.map (fun r => if r.id = radioId then updated else r)))

/-- The list after a call of `set_public_key`. -/
def afterCall (radios : List RadioEntry) (call : ℕ × KeyText) : List RadioEntry :=
  ((setPublicKey L radios call.1 call.2).map Prod.snd).getD radios

def setPublicKeys (radios : List RadioEntry) (calls : List (ℕ × KeyText)) : List RadioEntry :=
  calls.foldl (afterCall L) radios

/-! ### What the keys are for -/

/-- A key of 64 hexadecimal characters, in either case. -/
def IsHexKey (key : KeyText) : Prop := key.length = 64 ∧ ∀ c ∈ key, isHexChar c.toLower = true

/-- A key as the registry writes it. -/
def IsStoredKey (key : KeyText) : Prop := key.length = 64 ∧ ∀ c ∈ key, isHexChar c = true

/-- Distinct ids, and public keys of a form. -/
structure RadioList (IsKey : KeyText → Prop) (radios : List RadioEntry) : Prop where
  ids : (radios.map RadioEntry.id).Nodup
  keys : ∀ r ∈ radios, ∀ key ∈ r.publicKey, IsKey key

/-- Histories as `set_public_key` writes them: only a radio that has a key has earlier ones, of
the form of keys and not the one that it has. -/
def Recorded (radios : List RadioEntry) : Prop :=
  ∀ r ∈ radios, ∀ old ∈ r.keyHistory, IsStoredKey old ∧ ∃ key, r.publicKey = some key ∧ key ≠ old

/-- A key of the radio, now or earlier. -/
def RadioEntry.Had (r : RadioEntry) (key : KeyText) : Prop :=
  r.publicKey = some key ∨ key ∈ r.keyHistory

/-- Each segment leads to one radio. -/
structure Unambiguous (radios : List RadioEntry) : Prop where
  distinct : ∀ id id' key, (assignUrlKeys L radios).get? id = some key →
    (assignUrlKeys L radios).get? id' = some key → id = id'
  serves : ∀ id key, (assignUrlKeys L radios).get? id = some key →
    resolve L key radios = some ⟨id, none⟩
  redirects : ∀ segment id key, resolve L segment radios = some ⟨id, some key⟩ →
    resolve L key radios = some ⟨id, none⟩
  /-- A part of a current key leads to a radio that has such a key. -/
  current : ∀ segment : KeyText, urlKeyLen ≤ segment.length →
    (∃ r ∈ radios, ∃ key ∈ r.publicKey, segment <+: key) →
      ∀ res ∈ resolve L segment radios,
        ∃ r ∈ radios, r.id = res.radioId ∧ ∃ key ∈ r.publicKey, segment <+: key

/-- What calls of `set_public_key` leave of the keys. -/
structure EarlierKeysKept (radios : List RadioEntry) : Prop where
  fresh : ∀ calls : List (ℕ × KeyText), (∀ call ∈ calls, IsHexKey call.2) →
    ∀ r ∈ setPublicKeys L radios calls, ∀ key ∈ r.publicKey, key ∉ r.keyHistory
  /-- A key that a radio had after some of the calls leads to it after all of them, unless it is
  also a key of another radio. -/
  resolves : ∀ f g : List (ℕ × KeyText), (∀ call ∈ f ++ g, IsHexKey call.2) →
    ∀ r ∈ setPublicKeys L radios f, ∀ r' ∈ setPublicKeys L radios (f ++ g), r'.id = r.id →
      ∀ old, r.Had old → r'.publicKey ≠ some old →
        (∀ other ∈ setPublicKeys L radios (f ++ g), other.id ≠ r'.id →
          ∀ key, other.Had key → ¬ old <+: key) →
        ∃ key, resolve L old (setPublicKeys L radios (f ++ g)) = some ⟨r'.id, some key⟩

/-! ### Letters -/

variable {L} {radios : List RadioEntry} {key base base' segment : KeyText} {n n' : ℕ} {c : Char}

theorem isHexChar_iff : isHexChar c = true ↔
    (48 ≤ c.toNat ∧ c.toNat ≤ 57) ∨ (97 ≤ c.toNat ∧ c.toNat ≤ 102) := by
  rw [isHexChar, Bool.or_eq_true, Bool.and_eq_true, decide_eq_true_eq, decide_eq_true_eq]
  refine or_congr ?_ Iff.rfl
  rw [Char.isDigit, Bool.and_eq_true, decide_eq_true_eq, decide_eq_true_eq]
  rfl

theorem toLower_of_not_upper (h : ¬ (65 ≤ c.toNat ∧ c.toNat ≤ 90)) : c.toLower = c :=
  dif_neg h

/-- A character of a URL key. -/
def IsUrlChar (c : Char) : Prop := isHexChar c = true ∨ c = '-'

theorem lower_of_url (h : ∀ c ∈ key, IsUrlChar c) : L.lower key = key := by
  have hspec : ∀ c ∈ key, c.toNat < 128 ∧ c.toLower = c := by
    intro c hc
    rcases h c hc with hhex | rfl
    · rw [isHexChar_iff] at hhex
      exact ⟨by omega, toLower_of_not_upper (by omega)⟩
    · exact ⟨by decide, by decide⟩
  rw [L.ascii key (fun c hc => (hspec c hc).1)]
  exact (List.map_congr_left fun c hc => (hspec c hc).2).trans (List.map_id _)

theorem lower_of_hex (h : ∀ c ∈ key, isHexChar c = true) : L.lower key = key :=
  lower_of_url fun c hc => Or.inl (h c hc)

theorem IsHexKey.stored (h : IsHexKey key) : IsStoredKey (L.lower key) := by
  have hascii : ∀ c ∈ key, c.toNat < 128 := by
    intro c hc
    by_cases hupper : 65 ≤ c.toNat ∧ c.toNat ≤ 90
    · omega
    · have hhex := h.2 c hc
      rw [toLower_of_not_upper hupper, isHexChar_iff] at hhex
      omega
  rw [L.ascii key hascii]
  refine ⟨(List.length_map _).trans h.1, fun c hc => ?_⟩
  obtain ⟨d, hd, rfl⟩ := List.mem_map.mp hc
  exact h.2 d hd

theorem IsStoredKey.baseOf (h : IsStoredKey key) : Gateway.baseOf L key = key.take urlKeyLen ∧
    ∀ c ∈ Gateway.baseOf L key, isHexChar c = true := by
  have hbase : Gateway.baseOf L key = key.take urlKeyLen := by
    rw [Gateway.baseOf, lower_of_hex h.2]
  exact ⟨hbase, fun c hc => h.2 c (List.mem_of_mem_take (hbase ▸ hc))⟩

theorem IsStoredKey.ne_nil (h : IsStoredKey key) : key ≠ [] := by
  rintro rfl
  exact absurd h.1 (by decide)

theorem not_mem_of_hex (h : ∀ c ∈ base, isHexChar c = true) : '-' ∉ base := fun hin =>
  absurd (h _ hin) (by decide)

theorem isHexChar_of_mem_toDigits (h : c ∈ Nat.toDigits 10 n) : isHexChar c = true :=
  Bool.or_eq_true_iff.mpr (Or.inl (Nat.isDigit_of_mem_toDigits (by omega) (by omega) h))

theorem numbered_of_hex (h : ∀ c ∈ numbered base n, isHexChar c = true) : numbered base n = base := by
  rw [numbered] at h ⊢
  split_ifs at h ⊢
  · rfl
  · exact absurd (List.mem_append_right _ List.mem_cons_self) (not_mem_of_hex h)

theorem numbered_inj (hb : ∀ c ∈ base, isHexChar c = true) (hb' : ∀ c ∈ base', isHexChar c = true)
    (h : numbered base n = numbered base' n') : base = base' ∧ n = n' := by
  rw [numbered, numbered] at h
  split_ifs at h with hn hn' hn'
  · exact ⟨h, hn.trans hn'.symm⟩
  · exact absurd (h ▸ List.mem_append_right _ List.mem_cons_self) (not_mem_of_hex hb)
  · exact absurd (h ▸ List.mem_append_right _ List.mem_cons_self) (not_mem_of_hex hb')
  · have hdigits : '-' ∉ Nat.toDigits 10 n := not_mem_of_hex fun c => isHexChar_of_mem_toDigits
    obtain ⟨hbase, -, hnumber⟩ := (List.append_cons_inj_of_notMem (not_mem_of_hex hb) hdigits).mp h
    refine ⟨hbase, ?_⟩
    have hvalue := congrArg (fun digits => Nat.ofDigitChars 10 digits 0) hnumber
    rwa [Nat.ofDigitChars_ten_toDigits, Nat.ofDigitChars_ten_toDigits] at hvalue

theorem isUrlChar_of_mem_numbered (hb : ∀ c ∈ base, isHexChar c = true)
    (hc : c ∈ numbered base n) : IsUrlChar c := by
  rw [numbered] at hc
  split_ifs at hc
  · exact Or.inl (hb c hc)
  · rcases List.mem_append.mp hc with hc | hc
    · exact Or.inl (hb c hc)
    · rcases List.mem_cons.mp hc with rfl | hc
      · exact Or.inr rfl
      · exact Or.inl (isHexChar_of_mem_toDigits hc)

/-! ### The keys of the radios -/

section Assign

variable {done : List RadioEntry} {s : OrderedDict ℕ KeyText × OrderedDict KeyText ℕ}

/-- What the radios so far were given. -/
structure Assigned (L : Lowering) (done : List RadioEntry)
    (s : OrderedDict ℕ KeyText × OrderedDict KeyText ℕ) : Prop where
  named : ∀ id key, s.1.get? id = some key → ∃ r ∈ done, r.id = id ∧ ∃ publicKey ∈ r.publicKey,
    ∃ count, count ≤ (s.2.get? (baseOf L publicKey)).getD 0 ∧
      key = numbered (baseOf L publicKey) count
  distinct : ∀ id id' key, s.1.get? id = some key → s.1.get? id' = some key → id = id'
  all : ∀ r ∈ done, ∀ publicKey ∈ r.publicKey, ∃ key, s.1.get? r.id = some key

theorem Assigned.next {r : RadioEntry} (h : Assigned L done s)
    (hkeys : ∀ r' ∈ done ++ [r], ∀ key ∈ r'.publicKey, IsStoredKey key) :
    Assigned L (done ++ [r]) (assignNext L s r) := by
  have hr : r ∈ done ++ [r] := List.mem_append_right _ (List.mem_singleton_self r)
  cases hkey : r.publicKey with
  | none =>
    have hsame : assignNext L s r = s := by rw [assignNext, hkey]; rfl
    rw [hsame]
    refine ⟨fun id key hget => ?_, h.distinct, fun r' hr' publicKey hpublic => ?_⟩
    · obtain ⟨r', hr', rest⟩ := h.named id key hget
      exact ⟨r', List.mem_append_left _ hr', rest⟩
    · rcases List.mem_append.mp hr' with hin | hin
      · exact h.all r' hin publicKey hpublic
      · rw [List.mem_singleton.mp hin, hkey] at hpublic
        cases hpublic
  | some publicKey =>
    have hstored := hkeys r hr publicKey hkey
    have hset : assignNext L s r = (s.1.set r.id (numbered (baseOf L publicKey)
        ((s.2.get? (baseOf L publicKey)).getD 0 + 1)), s.2.set (baseOf L publicKey)
          ((s.2.get? (baseOf L publicKey)).getD 0 + 1)) := by
      have hfilter : r.publicKey.filter (fun key => key ≠ []) = some publicKey := by
        rw [hkey]
        exact if_pos (decide_eq_true hstored.ne_nil)
      rw [assignNext, hfilter]
    generalize hcount : (s.2.get? (baseOf L publicKey)).getD 0 + 1 = count at hset
    have hgrow : ∀ base, (s.2.get? base).getD 0 ≤
        ((s.2.set (baseOf L publicKey) count).get? base).getD 0 := fun base => by
      rw [OrderedDict.get?_set]
      split_ifs with heq
      · rw [heq, Option.getD_some]
        omega
      · exact le_rfl
    -- a key that was given before has a smaller number, or another base
    have hnew : ∀ id, s.1.get? id ≠ some (numbered (baseOf L publicKey) count) := by
      intro id hget
      obtain ⟨r', hr', -, publicKey', hpublic', count', hle, heq⟩ := h.named id _ hget
      have hstored' := hkeys r' (List.mem_append_left _ hr') publicKey' hpublic'
      obtain ⟨hbase, hnumber⟩ := numbered_inj hstored.baseOf.2 hstored'.baseOf.2 heq
      rw [← hbase] at hle
      omega
    rw [hset]
    refine ⟨fun id key hget => ?_, fun id id' key hget hget' => ?_, fun r' hr' key' hkey' => ?_⟩
    · rw [OrderedDict.get?_set] at hget
      split_ifs at hget with heq
      · refine ⟨r, hr, heq.symm, publicKey, hkey, count, ?_, (Option.some.inj hget).symm⟩
        rw [OrderedDict.get?_set_self, Option.getD_some]
      · obtain ⟨r', hr', hid', publicKey', hpublic', count', hle, hname⟩ := h.named id key hget
        exact ⟨r', List.mem_append_left _ hr', hid', publicKey', hpublic', count',
          hle.trans (hgrow _), hname⟩
    · rw [OrderedDict.get?_set] at hget hget'
      split_ifs at hget hget' with heq heq' heq'
      · exact heq.trans heq'.symm
      · exact absurd (hget'.trans hget.symm) (hnew id')
      · exact absurd (hget.trans hget'.symm) (hnew id)
      · exact h.distinct id id' key hget hget'
    · by_cases heq : r'.id = r.id
      · exact ⟨_, (OrderedDict.get?_set ..).trans (if_pos heq)⟩
      · rcases List.mem_append.mp hr' with hin | hin
        · obtain ⟨key'', hget⟩ := h.all r' hin key' hkey'
          exact ⟨key'', (OrderedDict.get?_set_of_ne heq).trans hget⟩
        · exact absurd (congrArg RadioEntry.id (List.mem_singleton.mp hin)) heq

theorem assigned_foldl (hkeys : ∀ r ∈ done, ∀ key ∈ r.publicKey, IsStoredKey key) :
    Assigned L done (done.foldl (assignNext L) (OrderedDict.empty, OrderedDict.empty)) := by
  induction done using List.reverseRecOn with
  | nil => exact ⟨fun _ _ hget => (nomatch hget), fun _ _ _ hget => (nomatch hget),
      fun _ hr => (nomatch hr)⟩
  | append_singleton done r ih =>
    rw [List.foldl_append]
    exact (ih fun r' hr' => hkeys r' (List.mem_append_left _ hr')).next hkeys

theorem mem_byId {r : RadioEntry} : r ∈ byId radios ↔ r ∈ radios := List.mem_insertionSort _

theorem assigned (h : RadioList IsStoredKey radios) :
    ∃ seen, Assigned L (byId radios) (assignUrlKeys L radios, seen) :=
  ⟨_, assigned_foldl fun r hr => h.keys r (mem_byId.mp hr)⟩

end Assign

/-! ### Segments -/

section Resolve

variable {current : OrderedDict ℕ KeyText} {id : ℕ} {res : Resolution} {p : RadioEntry → Bool}
  {r : RadioEntry}

theorem mem_of_radioOf (h : radioOf current key = some id) : current.get? id = some key := by
  obtain ⟨e, hfound, rfl⟩ := Option.map_eq_some_iff.mp h
  rw [OrderedDict.get?_eq_some_iff]
  have hkey : e.2 = key :=
    of_decide_eq_true (List.find?_some (p := fun e : ℕ × KeyText => decide (e.2 = key)) hfound)
  rw [← hkey]
  exact List.mem_reverse.mp (List.mem_of_find?_eq_some hfound)

theorem radioOf_of_get? (hdistinct : ∀ id id' key, current.get? id = some key →
    current.get? id' = some key → id = id') (h : current.get? id = some key) :
    radioOf current key = some id := by
  cases hfound : radioOf current key with
  | none =>
    have hnone := List.find?_eq_none.mp (Option.map_eq_none_iff.mp hfound) (id, key)
      (List.mem_reverse.mpr (OrderedDict.get?_eq_some_iff.mp h))
    exact absurd (decide_eq_true rfl) hnone
  | some id' => rw [hdistinct id' id key (mem_of_radioOf hfound) h]

/-- A redirect is to the URL key of a radio of the kind. -/
theorem redirectToFirst_eq_some (h : redirectToFirst radios current p = some res) :
    ∃ r ∈ radios, p r = true ∧ r.id = res.radioId ∧
      ∃ key, current.get? r.id = some key ∧ res.redirectKey = some key := by
  obtain ⟨r, hr, hserved⟩ := List.exists_of_findSome?_eq_some h
  split_ifs at hserved with hp
  obtain ⟨key, hget, rfl⟩ := Option.map_eq_some_iff.mp hserved
  exact ⟨r, mem_byId.mp hr, hp, rfl, key, hget, rfl⟩

theorem exists_redirectToFirst (hr : r ∈ radios) (hp : p r = true)
    (hget : current.get? r.id = some key) : ∃ res, redirectToFirst radios current p = some res := by
  rw [← Option.ne_none_iff_exists']
  intro hnone
  have hserved := List.findSome?_eq_none_iff.mp hnone r (mem_byId.mpr hr)
  rw [if_pos hp, hget] at hserved
  cases hserved

/-- A segment is the URL key of the radio that it leads to, or redirects to one that has or had a
key that it begins. -/
theorem resolve_eq_some (h : resolve L segment radios = some res) :
    (assignUrlKeys L radios).get? res.radioId = some (L.lower segment) ∧
        res.redirectKey = (if segment = L.lower segment then none else some (L.lower segment)) ∨
      ∃ r ∈ radios, r.id = res.radioId ∧
        (hasKeyWith (L.lower segment) r = true ∨
          hadKeyWith (L.lower segment) r = true ∧
            redirectToFirst radios (assignUrlKeys L radios) (hasKeyWith (L.lower segment)) = none) ∧
        ∃ key, (assignUrlKeys L radios).get? r.id = some key ∧ res.redirectKey = some key := by
  rw [resolve] at h
  split at h
  · rename_i hfound
    cases Option.some.inj h
    exact Or.inl ⟨mem_of_radioOf hfound, rfl⟩
  · split_ifs at h
    rcases Option.or_eq_some_iff.mp h with hfirst | ⟨hnone, hlater⟩
    · obtain ⟨r, hr, hp, hid, rest⟩ := redirectToFirst_eq_some hfirst
      exact Or.inr ⟨r, hr, hid, Or.inl hp, rest⟩
    · obtain ⟨r, hr, hp, hid, rest⟩ := redirectToFirst_eq_some hlater
      exact Or.inr ⟨r, hr, hid, Or.inr ⟨hp, hnone⟩, rest⟩

/-- A segment that may be a part of a key, and that is no URL key. -/
theorem resolve_of_hex (hhex : ∀ c ∈ segment, isHexChar c = true)
    (hlong : urlKeyLen ≤ segment.length) (hshort : segment.length ≤ 64)
    (hnone : radioOf (assignUrlKeys L radios) segment = none) : resolve L segment radios =
      (redirectToFirst radios (assignUrlKeys L radios) (hasKeyWith segment)).or
        (redirectToFirst radios (assignUrlKeys L radios) (hadKeyWith segment)) := by
  rw [resolve, lower_of_hex hhex]
  rw [hnone]
  refine if_pos ⟨?_, List.all_eq_true.mpr hhex, hlong, hshort⟩
  rintro rfl
  exact absurd hlong (by decide)

theorem hasKeyWith_iff : hasKeyWith segment r = true ↔
    ∃ key ∈ r.publicKey, key ≠ [] ∧ segment <+: key := by
  rw [hasKeyWith, Option.any_eq_true]
  simp only [Bool.and_eq_true, decide_eq_true_eq, List.isPrefixOf_iff_prefix]
  rfl

theorem hadKeyWith_iff : hadKeyWith segment r = true ↔ ∃ old ∈ r.keyHistory, segment <+: old := by
  rw [hadKeyWith, List.any_eq_true]
  simp only [List.isPrefixOf_iff_prefix]

/-- **Each segment leads to one radio**, when the stored keys are in lower case. -/
theorem RadioList.unambiguous (h : RadioList IsStoredKey radios) : Unambiguous L radios := by
  obtain ⟨seen, hassigned⟩ := assigned (L := L) h
  have hbase : ∀ id key, (assignUrlKeys L radios).get? id = some key →
      ∃ r ∈ radios, r.id = id ∧ ∃ publicKey ∈ r.publicKey, IsStoredKey publicKey ∧
        ∃ count, key = numbered (baseOf L publicKey) count := by
    intro id key hget
    obtain ⟨r, hr, hid, publicKey, hpublic, count, -, hname⟩ := hassigned.named id key hget
    have hr := mem_byId.mp hr
    exact ⟨r, hr, hid, publicKey, hpublic, h.keys r hr publicKey hpublic, count, hname⟩
  have hserves : ∀ id key, (assignUrlKeys L radios).get? id = some key →
      resolve L key radios = some ⟨id, none⟩ := by
    intro id key hget
    obtain ⟨r, -, -, publicKey, -, hstored, count, rfl⟩ := hbase id key hget
    have hlower : L.lower (numbered (baseOf L publicKey) count) =
        numbered (baseOf L publicKey) count :=
      lower_of_url fun c => isUrlChar_of_mem_numbered hstored.baseOf.2
    rw [resolve, hlower]
    rw [radioOf_of_get? hassigned.distinct hget, if_pos rfl]
  refine ⟨hassigned.distinct, hserves, fun segment id key hres => ?_,
    fun segment hlong hcurrent res hres => ?_⟩
  · rcases resolve_eq_some hres with ⟨hget, hkey⟩ | ⟨r, -, rfl, -, key', hget, hkey⟩
    · split_ifs at hkey
      exact hserves id key (hget.trans hkey.symm)
    · exact hserves _ key (hget.trans hkey.symm)
  · obtain ⟨r, hr, publicKey, hpublic, hstarts⟩ := hcurrent
    have hstored := h.keys r hr publicKey hpublic
    have hhex : ∀ c ∈ segment, isHexChar c = true := fun c hc => hstored.2 c (hstarts.subset hc)
    rcases resolve_eq_some hres with ⟨hget, -⟩ | ⟨r', hr', hid, hkind, -⟩
    · -- the segment is a URL key, which has no number
      obtain ⟨r', hr', hid, publicKey', hpublic', hstored', count, hname⟩ := hbase _ _ hget
      rw [lower_of_hex hhex] at hname
      have hsegment : segment = baseOf L publicKey' :=
        hname.trans (numbered_of_hex (hname ▸ hhex))
      refine ⟨r', hr', hid, publicKey', hpublic', ?_⟩
      rw [hsegment, hstored'.baseOf.1]
      exact List.take_prefix _ _
    · rw [lower_of_hex hhex] at hkind
      rcases hkind with hhas | ⟨-, hnone⟩
      · obtain ⟨key, hkey, -, hin⟩ := hasKeyWith_iff.mp hhas
        exact ⟨r', hr', hid, key, hkey, hin⟩
      · obtain ⟨key, hget⟩ := hassigned.all r (mem_byId.mpr hr) publicKey hpublic
        obtain ⟨res', hfound⟩ := exists_redirectToFirst hr
          (hasKeyWith_iff.mpr ⟨publicKey, hpublic, hstored.ne_nil, hstarts⟩) hget
        rw [hnone] at hfound
        cases hfound

end Resolve

/-! ### Changes of a key -/

section Calls

variable {call : ℕ × KeyText} {calls : List (ℕ × KeyText)} {r r' : RadioEntry} {old : KeyText}

theorem RadioList.eq_of_id (h : RadioList IsStoredKey radios) (hr : r ∈ radios) (hr' : r' ∈ radios)
    (hid : r.id = r'.id) : r = r' := List.inj_on_of_nodup_map h.ids hr hr' hid

/-- What a call does to the entry of a radio. -/
theorem afterCall_spec (h : RadioList IsStoredKey radios) (call : ℕ × KeyText) :
    (afterCall L radios call).map RadioEntry.id = radios.map RadioEntry.id ∧
      ∀ r' ∈ afterCall L radios call, r' ∈ radios ∨ ∃ r ∈ radios, r.id = r'.id ∧
        r'.publicKey = some (L.lower call.2) ∧ r.publicKey ≠ some (L.lower call.2) ∧
          ∀ old, old ∈ r'.keyHistory ↔
            old ∈ r.keyHistory ∧ old ≠ L.lower call.2 ∨ r.publicKey = some old := by
  rw [afterCall, setPublicKey]
  cases hfound : radios.find? (fun r => r.id = call.1) with
  | none => exact ⟨rfl, fun r' hr' => Or.inl hr'⟩
  | some current =>
    rw [Option.map_some, Option.map_some, Option.getD_some]
    dsimp only
    split_ifs with hsame
    · exact ⟨rfl, fun r' hr' => Or.inl hr'⟩
    have hcurrent := List.mem_of_find?_eq_some hfound
    have hid : current.id = call.1 :=
      of_decide_eq_true (List.find?_some (p := fun r : RadioEntry => decide (r.id = call.1)) hfound)
    constructor
    · rw [List.map_map]
      refine List.map_congr_left fun r _ => ?_
      simp only [Function.comp_apply]
      split_ifs with hr
      · exact hid.trans hr.symm
      · rfl
    · intro r' hr'
      obtain ⟨r, hr, rfl⟩ := List.mem_map.mp hr'
      split_ifs with hrid
      · refine Or.inr ⟨current, hcurrent, rfl, rfl, hsame, fun old => ?_⟩
        simp only [List.mem_append, List.mem_filter, decide_eq_true_eq, Option.mem_toList,
          Option.filter_eq_some_iff]
        exact or_congr Iff.rfl ⟨fun hold => hold.1,
          fun hold => ⟨hold, (h.keys current hcurrent old hold).ne_nil⟩⟩
      · exact Or.inl hr

/-- A call keeps the form of the keys and histories, and all keys that a radio had. -/
theorem RadioList.afterCall (h : RadioList IsStoredKey radios) (hrec : Recorded radios)
    (hcall : IsHexKey call.2) :
    RadioList IsStoredKey (afterCall L radios call) ∧ Recorded (Gateway.afterCall L radios call) ∧
      ∀ r' ∈ Gateway.afterCall L radios call, ∃ r ∈ radios, r.id = r'.id ∧
        ∀ old, r.Had old → r'.Had old := by
  obtain ⟨hids, hentry⟩ := afterCall_spec (L := L) h call
  refine ⟨⟨hids ▸ h.ids, fun r' hr' key hkey => ?_⟩, fun r' hr' old hold => ?_, fun r' hr' => ?_⟩
  · rcases hentry r' hr' with hsame | ⟨r, -, -, hset, -, -⟩
    · exact h.keys r' hsame key hkey
    · cases Option.some.inj (hset.symm.trans hkey)
      exact hcall.stored
  · rcases hentry r' hr' with hsame | ⟨r, hr, -, hset, hnew, hhistory⟩
    · exact hrec r' hsame old hold
    · rcases (hhistory old).mp hold with ⟨hin, hne⟩ | hpublic
      · exact ⟨(hrec r hr old hin).1, _, hset, hne.symm⟩
      · refine ⟨h.keys r hr old hpublic, _, hset, ?_⟩
        rintro rfl
        exact hnew hpublic
  · rcases hentry r' hr' with hsame | ⟨r, hr, hid, hset, -, hhistory⟩
    · exact ⟨r', hsame, rfl, fun _ => id⟩
    · refine ⟨r, hr, hid, fun old hold => ?_⟩
      by_cases heq : old = L.lower call.2
      · exact Or.inl (heq ▸ hset)
      · refine Or.inr ((hhistory old).mpr ?_)
        rcases hold with hpublic | hin
        · exact Or.inr hpublic
        · exact Or.inl ⟨hin, heq⟩

theorem RadioList.setPublicKeys (h : RadioList IsStoredKey radios) (hrec : Recorded radios)
    (hcalls : ∀ call ∈ calls, IsHexKey call.2) :
    RadioList IsStoredKey (setPublicKeys L radios calls) ∧
      Recorded (Gateway.setPublicKeys L radios calls) ∧
      ∀ r' ∈ Gateway.setPublicKeys L radios calls, ∃ r ∈ radios, r.id = r'.id ∧
        ∀ old, r.Had old → r'.Had old := by
  induction calls using List.reverseRecOn with
  | nil => exact ⟨h, hrec, fun r' hr' => ⟨r', hr', rfl, fun _ => id⟩⟩
  | append_singleton calls call ih =>
    obtain ⟨hlist, hrec', hhad⟩ := ih fun c hc => hcalls c (List.mem_append_left _ hc)
    rw [Gateway.setPublicKeys, List.foldl_append]
    obtain ⟨hlist', hrec'', hstep⟩ := hlist.afterCall (L := L) hrec'
      (hcalls call (List.mem_append_right _ (List.mem_singleton_self call)))
    refine ⟨hlist', hrec'', fun r' hr' => ?_⟩
    obtain ⟨r₁, hr₁, hid₁, hhad₁⟩ := hstep r' hr'
    obtain ⟨r, hr, hid, hhad'⟩ := hhad r₁ hr₁
    exact ⟨r, hr, hid.trans hid₁, fun old hold => hhad₁ old (hhad' old hold)⟩

/-- An earlier key leads to its radio, when no other radio has one that it begins. -/
theorem RadioList.resolve_old (h : RadioList IsStoredKey radios) (hrec : Recorded radios)
    (hr : r ∈ radios) (hold : old ∈ r.keyHistory)
    (hothers : ∀ other ∈ radios, other.id ≠ r.id → ∀ key, other.Had key → ¬ old <+: key) :
    ∃ key, resolve L old radios = some ⟨r.id, some key⟩ := by
  obtain ⟨⟨hlength, hhex⟩, publicKey, hpublic, hne⟩ := hrec r hr old hold
  obtain ⟨seen, hassigned⟩ := assigned (L := L) h
  have hnone : radioOf (assignUrlKeys L radios) old = none := by
    rw [Option.eq_none_iff_forall_not_mem]
    intro id hfound
    obtain ⟨r', hr', -, publicKey', hpublic', count, -, hname⟩ :=
      hassigned.named _ _ (mem_of_radioOf hfound)
    have hstored := h.keys r' (mem_byId.mp hr') publicKey' hpublic'
    have hshort := congrArg List.length (hname.trans (numbered_of_hex (hname ▸ hhex)))
    rw [hlength, hstored.baseOf.1, List.length_take, hstored.1] at hshort
    exact absurd hshort (by decide)
  have hcurrent : redirectToFirst radios (assignUrlKeys L radios) (hasKeyWith old) = none := by
    rw [Option.eq_none_iff_forall_not_mem]
    intro res hfound
    obtain ⟨r', hr', hhas, -⟩ := redirectToFirst_eq_some hfound
    obtain ⟨key, hkey, -, hstarts⟩ := hasKeyWith_iff.mp hhas
    by_cases hid : r'.id = r.id
    · rw [h.eq_of_id hr' hr hid] at hkey
      have heq := hstarts.eq_of_length (hlength.trans (h.keys r hr key hkey).1.symm)
      exact hne (Option.some.inj (hpublic.symm.trans (heq ▸ hkey)))
    · exact hothers r' hr' hid key (Or.inl hkey) hstarts
  obtain ⟨key, hget⟩ := hassigned.all r (mem_byId.mpr hr) publicKey hpublic
  obtain ⟨res, hfound⟩ := exists_redirectToFirst (p := hadKeyWith old) hr
    (hadKeyWith_iff.mpr ⟨old, hold, List.prefix_rfl⟩) hget
  rw [resolve_of_hex hhex (hlength ▸ by decide) hlength.le hnone, hcurrent, Option.none_or, hfound]
  obtain ⟨r', hr', hhad, hid, key', -, hkey'⟩ := redirectToFirst_eq_some hfound
  obtain ⟨k, hk, hstarts⟩ := hadKeyWith_iff.mp hhad
  have hsame : r'.id = r.id := by
    by_contra hother
    exact hothers r' hr' hother k (Or.inr hk) hstarts
  obtain ⟨radioId, redirectKey⟩ := res
  cases hid
  cases hkey'
  exact ⟨key', congrArg (fun id => some (⟨id, some key'⟩ : Resolution)) hsame⟩

/-- **Workspace URLs are unambiguous**, for keys that are stored in lower case, and what calls of
`set_public_key` leave keeps to it. -/
theorem workspace_urls (h : RadioList IsStoredKey radios) :
    Unambiguous L radios ∧ (Recorded radios → EarlierKeysKept L radios) := by
  refine ⟨h.unambiguous, fun hrec => ⟨fun calls hcalls r hr key hkey hin => ?_, ?_⟩⟩
  · obtain ⟨-, hrec', -⟩ := h.setPublicKeys (L := L) hrec hcalls
    obtain ⟨-, key', hkey', hne⟩ := hrec' r hr key hin
    exact hne (Option.some.inj (hkey'.symm.trans hkey))
  · intro f g hcalls r hr r' hr' hid old hold hnot hothers
    obtain ⟨hlist, hrec', -⟩ := h.setPublicKeys (L := L) hrec
      (fun call hcall => hcalls call (List.mem_append_left g hcall))
    obtain ⟨hlist', hrec'', -⟩ := h.setPublicKeys (L := L) hrec hcalls
    obtain ⟨-, -, hhad⟩ := hlist.setPublicKeys (L := L) hrec'
      (fun call hcall => hcalls call (List.mem_append_right f hcall))
    have happend : Gateway.setPublicKeys L radios (f ++ g) =
        Gateway.setPublicKeys L (Gateway.setPublicKeys L radios f) g := List.foldl_append
    obtain ⟨r₁, hr₁, hid₁, hhad₁⟩ := hhad r' (happend ▸ hr')
    rw [hlist.eq_of_id hr₁ hr (hid₁.trans hid)] at hhad₁
    exact hlist'.resolve_old hrec'' hr' ((hhad₁ old hold).resolve_left hnot) hothers

end Calls

/-! ### Keys in upper case -/

/-- `str.lower` as far as ASCII goes. -/
def asciiLowering : Lowering := ⟨fun s => s.map Char.toLower, fun _ _ => rfl⟩

/-- One radio without a history. -/
theorem workspace_urls_one : Unambiguous asciiLowering [⟨1, some (List.replicate 64 'a'), []⟩] ∧
    EarlierKeysKept asciiLowering [⟨1, some (List.replicate 64 'a'), []⟩] := by
  have hlist : RadioList IsStoredKey [⟨1, some (List.replicate 64 'a'), []⟩] := by
    refine ⟨List.nodup_singleton _, fun r hr key hkey => ?_⟩
    rw [List.mem_singleton.mp hr] at hkey
    cases hkey
    exact ⟨List.length_replicate, fun c hc => List.eq_of_mem_replicate hc ▸ by decide⟩
  have hurls := workspace_urls (L := asciiLowering) hlist
  refine ⟨hurls.1, hurls.2 fun r hr old hold => ?_⟩
  rw [List.mem_singleton.mp hr] at hold
  cases hold

/-- A part of a key that is stored in upper case leads to a radio that had it in lower case. -/
theorem not_forall_workspace_urls : ¬ ∀ (L : Lowering) (radios : List RadioEntry),
    RadioList IsHexKey radios →
      Unambiguous L radios ∧ (Recorded radios → EarlierKeysKept L radios) := by
  intro hall
  have hlist : RadioList IsHexKey [⟨1, some (List.replicate 64 'A'), []⟩,
      ⟨2, some (List.replicate 64 'b'), [List.replicate 64 'a']⟩] := by
    refine ⟨by decide, fun r hr key hkey => ?_⟩
    rcases List.mem_pair.mp hr with rfl | rfl
    · cases hkey
      exact ⟨List.length_replicate, fun c hc => List.eq_of_mem_replicate hc ▸ by decide⟩
    · cases hkey
      exact ⟨List.length_replicate, fun c hc => List.eq_of_mem_replicate hc ▸ by decide⟩
  obtain ⟨r, hr, hid, key, hkey, hstarts⟩ := (hall asciiLowering _ hlist).1.current
    (List.replicate 20 'A') (by decide) ⟨_, List.mem_cons_self, _, rfl, ⟨List.replicate 44 'A', rfl⟩⟩
    ⟨2, some (List.replicate 12 'b')⟩ (by decide +kernel)
  rcases List.mem_pair.mp hr with rfl | rfl
  · cases hid
  · cases hkey
    exact absurd (hstarts.subset (List.mem_replicate.mpr ⟨by decide, rfl⟩ : 'A' ∈ _)) (by decide)

end RtfmEv.Gateway
