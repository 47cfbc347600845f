import RtfmEv.Lib.Bytes
import RtfmEv.Lib.OrderedDict
import RtfmEv.Lib.Run
import RtfmEv.Lib.Table

/-!
# Radio challenges

A browser proves that it holds a radio's key by a signature over a nonce. The store keeps the
nonces that are not spent in the order of issue, and an index that finds the nonce of an owner
and a key. All that ever leaves the two goes by `_drop`, which keeps them inverse.
-/

namespace RtfmEv.Challenges

open RtfmEv.Lib

/-- What the store uses of Python and of the signature library. -/
structure Tools where
  /-- `str.strip` -/
  strip : String → String
  /-- `str.upper` -/
  upper : String → String
  /-- `VerifyKey(key).verify(message, signature)` without an exception -/
  verifyKey : Bytes → Bytes → Bytes → Bool

variable (T : Tools)

/-- `normalize_key`, `none` on `ValueError`. -/
def normalizeKey (publicKey : String) : Option String :=
  let key := T.upper (T.strip publicKey)
  if key.length ≠ 64 then none
  else if fromHex key.toList = none then none
  else some key

def challengeMessage (nonce publicKey : String) : Option Bytes :=
  (normalizeKey T publicKey).map (fun key =>
    ("rtfm-ev-wardrive:" ++ nonce ++ ":" ++ key).toUTF8.toList)

def verifySignature (publicKey : String) (message : Bytes) (signatureHex : String) : Bool :=
  match (normalizeKey T publicKey).bind (fun key => fromHex key.toList),
    fromHex signatureHex.toList with
  | some key, some signature => T.verifyKey key message signature
  | _, _ => false

/-! ### The store -/

structure Challenge where
  key : String
  issuedAt : ℚ
  owner : String
deriving DecidableEq

structure Store where
  /-- by nonce, in the order of issue -/
  pending : OrderedDict String Challenge
  byOwnerKey : Table (String × String) String

def maxPending : ℕ := 1000

namespace Store

def drop (s : Store) (nonce : String) : Store :=
  match s.pending.get? nonce with
  | none => s
  | some entry =>
    { pending := s.pending.erase nonce
      byOwnerKey :=
        if s.byOwnerKey.get (entry.owner, entry.key) = some nonce then
          s.byOwnerKey.erase (entry.owner, entry.key)
        else s.byOwnerKey }

/-- The expired challenges go when the store is full. -/
def sweep (s : Store) (ttlS now : ℚ) : Store :=
  if maxPending ≤ s.pending.size then
    ((s.pending.entries.filter (fun e => now - e.2.issuedAt > ttlS)).map Prod.fst).foldl drop s
  else s

theorem size_drop_lt {s : Store} {nonce : String} (h : nonce ∈ s.pending.keys) :
    (s.drop nonce).pending.size < s.pending.size := by
  rw [drop]
  cases hget : s.pending.get? nonce with
  | none => exact absurd h (OrderedDict.get?_eq_none_iff.mp hget)
  | some entry => exact OrderedDict.size_erase_lt h

/-- The oldest challenges go while the store is full. -/
def makeRoom (s : Store) : Store :=
  if maxPending ≤ s.pending.size then
    match _h : s.pending.keys with
    | [] => s
    | oldest :: _ => makeRoom (s.drop oldest)
  else s
termination_by s.pending.size
decreasing_by exact size_drop_lt (_h ▸ List.mem_cons_self)

/-- `issue`, with the nonce that is drawn; `none` on `ValueError`. -/
def issue (s : Store) (ttlS : ℚ) (publicKey : String) (now : ℚ) (owner nonce : String) :
    Option Store :=
  match normalizeKey T publicKey with
  | none => none
  | some key =>
    let dropped := ((s.byOwnerKey.get (owner, key)).map s.drop).getD s
    let room := (dropped.sweep ttlS now).makeRoom
    some
      { pending := room.pending.set nonce ⟨key, now, owner⟩
        byOwnerKey := room.byOwnerKey.set (owner, key) nonce }

inductive Result
  | answered (ok : Bool)
  | raised
deriving DecidableEq

/-- `hmac.compare_digest` takes texts in ASCII only. -/
def isAscii (text : String) : Bool := text.toList.all (fun c => c.toNat < 128)

def consume (s : Store) (ttlS : ℚ) (nonce publicKey signatureHex : String) (now : ℚ)
    (owner : String) : Result × Store :=
  match s.pending.get? nonce with
  | none => (.answered false, s)
  | some pending =>
    if !(isAscii pending.owner && isAscii owner) then (.raised, s)
    else if pending.owner ≠ owner then (.answered false, s)
    else
      match normalizeKey T publicKey with
      | none => (.answered false, s.drop nonce)
      | some key =>
        if key ≠ pending.key ∨ now - pending.issuedAt > ttlS then (.answered false, s.drop nonce)
        else
          match challengeMessage T nonce key with
          | none => (.raised, s.drop nonce)
          | some message =>
            (.answered (verifySignature T key message signatureHex), s.drop nonce)

end Store

/-! ### Calls -/

/-- The store, and the nonces that were ever drawn. -/
structure State where
  store : Store
  issued : List String

inductive Label
  | issue (publicKey : String) (now : ℚ) (owner nonce : String)
  | consume (nonce publicKey signatureHex : String) (now : ℚ) (owner : String)
deriving DecidableEq

def Label.owner : Label → String
  | issue _ _ owner _ => owner
  | consume _ _ _ _ owner => owner

/-- A call of the store. A nonce is drawn that was not drawn before. -/
def step (ttlS : ℚ) (s : State) : Label → Option State
  | .issue publicKey now owner nonce =>
    if nonce ∈ s.issued then none
    else
      match s.store.issue T ttlS publicKey now owner nonce with
      | none => some s
      | some store => some ⟨store, nonce :: s.issued⟩
  | .consume nonce publicKey signatureHex now owner =>
    some { s with store := (s.store.consume T ttlS nonce publicKey signatureHex now owner).2 }

def Step (ttlS : ℚ) (s : State) (l : Label) (s' : State) : Prop := step T ttlS s l = some s'

def State.empty : State := ⟨⟨OrderedDict.empty, Table.empty⟩, []⟩

/-- The call is a `consume` that returns `True`. -/
def Accepts (ttlS : ℚ) (e : Event State Label) (nonce publicKey signatureHex : String) (now : ℚ)
    (owner : String) : Prop :=
  e.label = .consume nonce publicKey signatureHex now owner ∧
    (e.pre.store.consume T ttlS nonce publicKey signatureHex now owner).1 = .answered true

/-! ### Two inverse maps -/

namespace Store

variable {s : Store} {n m : String} {c : Challenge}

/-- The index names exactly the pending nonces, one for an owner and a key. -/
def Indexed (s : Store) : Prop :=
  ∀ owner key nonce, s.byOwnerKey.get (owner, key) = some nonce ↔
    ∃ issuedAt, s.pending.get? nonce = some ⟨key, issuedAt, owner⟩

theorem get?_drop (s : Store) (n m : String) :
    (s.drop n).pending.get? m = if m = n then none else s.pending.get? m := by
  rw [drop]
  cases hget : s.pending.get? n with
  | none =>
    split_ifs with hm
    · rw [hm]
      exact hget
    · rfl
  | some entry => exact OrderedDict.get?_erase s.pending n m

theorem Indexed.drop (h : Indexed s) (n : String) : Indexed (s.drop n) := by
  intro owner key nonce
  rw [get?_drop, Store.drop]
  cases hget : s.pending.get? n with
  | none =>
    rw [h owner key nonce]
    split_ifs with hn
    · rw [hn, hget]
      simp
    · rfl
  | some entry =>
    have hnamed := (h entry.owner entry.key n).mpr ⟨entry.issuedAt, hget⟩
    simp only [if_pos hnamed]
    by_cases hslot : (owner, key) = (entry.owner, entry.key)
    · rw [hslot, Table.get_erase_self]
      cases hslot
      split_ifs with hn
      · simp
      · rw [← h entry.owner entry.key nonce, hnamed]
        simp [Ne.symm hn]
    · rw [Table.get_erase_of_ne _ hslot, h owner key nonce]
      split_ifs with hn
      · rw [hn, hget]
        constructor
        · rintro ⟨_, heq⟩
          rw [Option.some.inj heq] at hslot
          exact absurd rfl hslot
        · rintro ⟨_, heq⟩
          cases heq
      · rfl

/-- What some drops leave: the maps are inverse, and nothing is new. -/
structure Less (s s' : Store) : Prop where
  indexed : Indexed s → Indexed s'
  sub : ∀ n c, s'.pending.get? n = some c → s.pending.get? n = some c
  size : s'.pending.size ≤ s.pending.size

theorem Less.refl (s : Store) : Less s s := ⟨id, fun _ _ h => h, le_rfl⟩

theorem Less.trans {s' s'' : Store} (h : Less s s') (h' : Less s' s'') : Less s s'' :=
  ⟨h'.indexed ∘ h.indexed, fun n c hc => h.sub n c (h'.sub n c hc), h'.size.trans h.size⟩

theorem less_drop (s : Store) (n : String) : Less s (s.drop n) where
  indexed h := h.drop n
  sub m c hc := by
    rw [get?_drop] at hc
    split_ifs at hc
    exact hc
  size := by
    by_cases hn : n ∈ s.pending.keys
    · exact (size_drop_lt hn).le
    · rw [Store.drop, OrderedDict.get?_eq_none_iff.mpr hn]

theorem less_foldl (s : Store) (ns : List String) : Less s (ns.foldl Store.drop s) := by
  induction ns generalizing s with
  | nil => exact Less.refl s
  | cons n ns ih => exact (less_drop s n).trans (ih (s.drop n))

theorem less_sweep (s : Store) (ttlS now : ℚ) : Less s (s.sweep ttlS now) := by
  rw [sweep]
  split_ifs
  · exact less_foldl s _
  · exact Less.refl s

theorem makeRoom_spec (s : Store) : Less s s.makeRoom ∧ s.makeRoom.pending.size < maxPending := by
  induction s using makeRoom.induct with
  | case1 s hfull hnil =>
    have hzero : s.pending.size = 0 := by
      rw [OrderedDict.keys, List.map_eq_nil_iff] at hnil
      rw [OrderedDict.size, hnil, List.length_nil]
    rw [hzero] at hfull
    exact absurd hfull (by decide)
  | case2 s hfull oldest _ hkeys ih =>
    rw [makeRoom, if_pos hfull]
    split
    · rename_i hnil
      rw [hkeys] at hnil
      cases hnil
    · rename_i oldest' _ hkeys'
      rw [hkeys] at hkeys'
      cases hkeys'
      exact ⟨(less_drop s oldest).trans ih.1, ih.2⟩
  | case3 s hroom =>
    rw [makeRoom, if_neg hroom]
    exact ⟨Less.refl s, lt_of_not_ge hroom⟩

/-- `issue` up to its writes. -/
def room (s : Store) (ttlS now : ℚ) (owner key : String) : Store :=
  ((((s.byOwnerKey.get (owner, key)).map s.drop).getD s).sweep ttlS now).makeRoom

theorem room_spec (s : Store) (ttlS now : ℚ) (owner key : String) :
    Less s (s.room ttlS now owner key) ∧
      (s.room ttlS now owner key).pending.size < maxPending := by
  obtain ⟨hless, hsize⟩ :=
    makeRoom_spec ((((s.byOwnerKey.get (owner, key)).map s.drop).getD s).sweep ttlS now)
  have hfirst : Less s (((s.byOwnerKey.get (owner, key)).map s.drop).getD s) := by
    cases s.byOwnerKey.get (owner, key) with
    | none => exact Less.refl s
    | some previous => exact less_drop s previous
  exact ⟨(hfirst.trans (less_sweep _ ttlS now)).trans hless, hsize⟩

theorem room_index (h : Indexed s) (ttlS now : ℚ) (owner key : String) :
    (s.room ttlS now owner key).byOwnerKey.get (owner, key) = none := by
  rw [Option.eq_none_iff_forall_not_mem]
  intro nonce hin
  have hless := (room_spec s ttlS now owner key).1
  obtain ⟨issuedAt, hget⟩ := (hless.indexed h owner key nonce).mp hin
  have hold := (h owner key nonce).mpr ⟨issuedAt, hless.sub nonce _ hget⟩
  have hless' := (less_sweep (s.drop nonce) ttlS now).trans
    (makeRoom_spec ((s.drop nonce).sweep ttlS now)).1
  rw [room, hold] at hget
  have hnone := hless'.sub nonce _ hget
  rw [get?_drop, if_pos rfl] at hnone
  cases hnone

/-- With room left, neither loop drops anything. -/
theorem sweep_makeRoom (hroom : s.pending.size < maxPending) (ttlS now : ℚ) :
    s.sweep ttlS now = s ∧ s.makeRoom = s := by
  rw [sweep, makeRoom, if_neg (not_le.mpr hroom), if_neg (not_le.mpr hroom)]
  exact ⟨rfl, rfl⟩

/-- With room left, only the owner's own challenge goes. -/
theorem room_keeps (h : Indexed s) (hroom : s.pending.size < maxPending) {ttlS now : ℚ}
    {owner key : String} (hget : s.pending.get? n = some c) (hother : c.owner ≠ owner) :
    (s.room ttlS now owner key).pending.get? n = some c := by
  rw [room]
  cases hindex : s.byOwnerKey.get (owner, key) with
  | none =>
    obtain ⟨hsweep, hmake⟩ := sweep_makeRoom hroom ttlS now
    rw [Option.map_none, Option.getD_none, hsweep, hmake]
    exact hget
  | some previous =>
    obtain ⟨hsweep, hmake⟩ :=
      sweep_makeRoom ((less_drop s previous).size.trans_lt hroom) ttlS now
    rw [Option.map_some, Option.getD_some, hsweep, hmake, get?_drop, if_neg]
    · exact hget
    · rintro rfl
      obtain ⟨_, hprevious⟩ := (h owner key n).mp hindex
      rw [hget] at hprevious
      exact hother (congrArg Challenge.owner (Option.some.inj hprevious))

theorem Indexed.add (h : Indexed s) (hn : s.pending.get? n = none)
    (hnone : s.byOwnerKey.get (c.owner, c.key) = none) :
    Indexed ⟨s.pending.set n c, s.byOwnerKey.set (c.owner, c.key) n⟩ := by
  intro owner key nonce
  show (s.byOwnerKey.set (c.owner, c.key) n).get (owner, key) = some nonce ↔
    ∃ issuedAt, (s.pending.set n c).get? nonce = some ⟨key, issuedAt, owner⟩
  rw [OrderedDict.get?_set]
  by_cases hslot : (owner, key) = (c.owner, c.key)
  · cases hslot
    rw [Table.get_set_self]
    constructor
    · rintro heq
      rw [if_pos (Option.some.inj heq).symm]
      exact ⟨c.issuedAt, rfl⟩
    · rintro ⟨issuedAt, hget⟩
      split_ifs at hget with heq
      · rw [heq]
      · rw [(h c.owner c.key nonce).mpr ⟨issuedAt, hget⟩] at hnone
        cases hnone
  · rw [Table.get_set_of_ne _ _ hslot, h owner key nonce]
    split_ifs with heq
    · rw [heq, hn]
      constructor
      · rintro ⟨_, hno⟩
        cases hno
      · rintro ⟨_, hno⟩
        rw [Option.some.inj hno] at hslot
        exact absurd rfl hslot
    · rfl

variable {ttlS now : ℚ} {nonce publicKey signatureHex owner : String}

/-- A `consume` changes nothing, or spends a challenge of its own owner. -/
theorem consume_store (s : Store) (ttlS : ℚ) (nonce publicKey signatureHex : String) (now : ℚ)
    (owner : String) :
    (s.consume T ttlS nonce publicKey signatureHex now owner).2 = s ∨
      (s.consume T ttlS nonce publicKey signatureHex now owner).2 = s.drop nonce ∧
        ∃ c, s.pending.get? nonce = some c ∧ c.owner = owner := by
  rw [consume]
  split
  · exact Or.inl rfl
  · rename_i c hget
    split_ifs with hascii howner
    · exact Or.inl rfl
    · exact Or.inl rfl
    · have hspent : ∃ c, s.pending.get? nonce = some c ∧ c.owner = owner :=
        ⟨c, hget, not_not.mp howner⟩
      split
      · exact Or.inr ⟨rfl, hspent⟩
      · split_ifs
        · exact Or.inr ⟨rfl, hspent⟩
        · split <;> exact Or.inr ⟨rfl, hspent⟩

/-- What was proved when `consume` returns `True`. -/
theorem consume_true {s : Store}
    (h : (s.consume T ttlS nonce publicKey signatureHex now owner).1 = .answered true) :
    (s.consume T ttlS nonce publicKey signatureHex now owner).2 = s.drop nonce ∧
      ∃ key issuedAt message, s.pending.get? nonce = some ⟨key, issuedAt, owner⟩ ∧
        normalizeKey T publicKey = some key ∧ now - issuedAt ≤ ttlS ∧
        challengeMessage T nonce key = some message ∧
        verifySignature T key message signatureHex = true := by
  revert h
  rw [consume]
  split
  · rintro ⟨⟩
  · rename_i c hget
    split_ifs with hascii howner
    · rintro ⟨⟩
    · rintro ⟨⟩
    · split
      · rintro ⟨⟩
      · rename_i key hkey
        split_ifs with hwrong
        · rintro ⟨⟩
        · split
          · rintro ⟨⟩
          · rename_i message hmessage
            intro h
            rw [not_or, not_not, not_lt] at hwrong
            have hverified : verifySignature T key message signatureHex = true := by
              simpa using h
            refine ⟨rfl, key, c.issuedAt, message, ?_, hkey, hwrong.2, hmessage, hverified⟩
            rw [hget, hwrong.1, ← not_not.mp howner]

end Store

/-! ### Runs -/

/-- What the calls so far say about the store. -/
structure Good (ttlS : ℚ) (h : List (Event State Label)) (s : State) : Prop where
  indexed : s.store.Indexed
  size : s.store.pending.size ≤ maxPending
  came : ∀ n c, s.store.pending.get? n = some c → n ∈ s.issued ∧
    ∃ i ∈ h, ∃ publicKey, i.label = .issue publicKey c.issuedAt c.owner n ∧
      normalizeKey T publicKey = some c.key
  spent : ∀ e ∈ h, ∀ nonce publicKey signatureHex now owner,
    Accepts T ttlS e nonce publicKey signatureHex now owner →
      nonce ∈ s.issued ∧ s.store.pending.get? nonce = none

variable {T} {ttlS : ℚ} {h : List (Event State Label)} {s : State}

/-- **Every call keeps the store good**, and leaves alone what is another's while there is
room. -/
theorem Good.step {e : Event State Label} (hg : Good T ttlS h e.pre)
    (hs : Step T ttlS e.pre e.label e.post) :
    Good T ttlS (h ++ [e]) e.post ∧ ∀ n c, e.pre.store.pending.get? n = some c →
      c.owner ≠ e.label.owner → e.pre.store.pending.size < maxPending →
        e.post.store.pending.get? n = some c := by
  obtain ⟨s, l, s'⟩ := e
  have hcame : ∀ n c, s.store.pending.get? n = some c → n ∈ s.issued ∧
      ∃ i ∈ h ++ [⟨s, l, s'⟩], ∃ publicKey, i.label = .issue publicKey c.issuedAt c.owner n ∧
        normalizeKey T publicKey = some c.key := fun n c hc => by
    obtain ⟨hin, i, hi, hissue⟩ := hg.came n c hc
    exact ⟨hin, i, List.mem_append_left _ hi, hissue⟩
  cases l with
  | issue publicKey now owner nonce =>
    have hspent : ∀ e ∈ h ++ [⟨s, .issue publicKey now owner nonce, s'⟩],
        ∀ nonce' publicKey' signatureHex now' owner',
        Accepts T ttlS e nonce' publicKey' signatureHex now' owner' →
          nonce' ∈ s.issued ∧ s.store.pending.get? nonce' = none := by
      intro e he nonce' publicKey' signatureHex now' owner' hacc
      rcases List.mem_append.mp he with he | he
      · exact hg.spent e he nonce' publicKey' signatureHex now' owner' hacc
      · rw [List.mem_singleton.mp he] at hacc
        cases hacc.1
    simp only [Step, Challenges.step] at hs
    split_ifs at hs with hfresh
    have hnew : s.store.pending.get? nonce = none := by
      rw [Option.eq_none_iff_forall_not_mem]
      exact fun c hc => hfresh (hg.came nonce c hc).1
    rw [Store.issue] at hs
    cases hkey : normalizeKey T publicKey with
    | none =>
      rw [hkey] at hs
      cases hs
      exact ⟨⟨hg.indexed, hg.size, hcame, hspent⟩, fun n c hc _ _ => hc⟩
    | some key =>
      rw [hkey] at hs
      cases hs
      obtain ⟨hless, hroom⟩ := Store.room_spec s.store ttlS now owner key
      have hnone : (s.store.room ttlS now owner key).pending.get? nonce = none := by
        rw [Option.eq_none_iff_forall_not_mem]
        intro c hc
        rw [hless.sub nonce c hc] at hnew
        cases hnew
      have hget : ∀ n, ((s.store.room ttlS now owner key).pending.set nonce
          ⟨key, now, owner⟩).get? n = if n = nonce then some ⟨key, now, owner⟩
            else (s.store.room ttlS now owner key).pending.get? n :=
        fun n => OrderedDict.get?_set _ nonce n _
      refine ⟨⟨?_, ?_, ?_, ?_⟩, ?_⟩
      · exact (hless.indexed hg.indexed).add (c := ⟨key, now, owner⟩) hnone
          (Store.room_index hg.indexed ttlS now owner key)
      · exact (OrderedDict.size_set_le _ nonce _).trans hroom
      · intro n c hc
        have hc' := (hget n).symm.trans hc
        split_ifs at hc' with hn
        · cases hc'
          exact ⟨hn ▸ List.mem_cons_self, _, List.mem_concat_self,
            publicKey, hn ▸ rfl, hkey⟩
        · obtain ⟨hin, hissue⟩ := hcame n c (hless.sub n c hc')
          exact ⟨List.mem_cons_of_mem _ hin, hissue⟩
      · intro e he nonce' publicKey' signatureHex now' owner' hacc
        obtain ⟨hin, hgone⟩ := hspent e he nonce' publicKey' signatureHex now' owner' hacc
        refine ⟨List.mem_cons_of_mem _ hin, ?_⟩
        rw [Option.eq_none_iff_forall_not_mem]
        intro c hc
        have hc' := (hget nonce').symm.trans hc
        split_ifs at hc' with hn
        · exact hfresh (hn ▸ hin)
        · rw [hless.sub nonce' c hc'] at hgone
          cases hgone
      · intro n c hc hother hlt
        refine (hget n).trans ?_
        rw [if_neg]
        · exact Store.room_keeps hg.indexed hlt hc hother
        · rintro rfl
          rw [hnew] at hc
          cases hc
  | consume nonce publicKey signatureHex now owner =>
    simp only [Step, Challenges.step, Option.some.injEq] at hs
    subst hs
    have hless : Store.Less s.store
        (s.store.consume T ttlS nonce publicKey signatureHex now owner).2 := by
      rcases s.store.consume_store T ttlS nonce publicKey signatureHex now owner with
        heq | ⟨heq, -⟩
      · rw [heq]
        exact Store.Less.refl _
      · rw [heq]
        exact Store.less_drop _ _
    refine ⟨⟨hless.indexed hg.indexed, hless.size.trans hg.size,
      fun n c hc => hcame n c (hless.sub n c hc), ?_⟩, ?_⟩
    · intro e he nonce' publicKey' signatureHex' now' owner' hacc
      rcases List.mem_append.mp he with he | he
      · obtain ⟨hin, hgone⟩ := hg.spent e he nonce' publicKey' signatureHex' now' owner' hacc
        refine ⟨hin, ?_⟩
        rw [Option.eq_none_iff_forall_not_mem]
        intro c hc
        rw [hless.sub nonce' c hc] at hgone
        cases hgone
      · rw [List.mem_singleton.mp he] at hacc
        obtain ⟨hlabel, htrue⟩ := hacc
        cases hlabel
        obtain ⟨hdrop, key, issuedAt, message, hget, -⟩ := Store.consume_true T htrue
        refine ⟨(hg.came _ _ hget).1, ?_⟩
        rw [hdrop, Store.get?_drop, if_pos rfl]
    · intro n c hc hother _
      rcases s.store.consume_store T ttlS nonce publicKey signatureHex now owner with
        heq | ⟨heq, c', hget, howner⟩
      · rw [heq]
        exact hc
      · rw [heq, Store.get?_drop, if_neg]
        · exact hc
        · rintro rfl
          rw [hc] at hget
          exact hother (Option.some.inj hget ▸ howner)

theorem good_of_run (r : Run (Step T ttlS) State.empty h s) : Good T ttlS h s := by
  refine r.history (C := fun _ => True) (fun _ _ => trivial) ?_
    (fun _ _ hs _ hg => (hg.step hs).1)
  exact ⟨fun _ _ _ => ⟨fun h => (nomatch h), fun ⟨_, h⟩ => (nomatch h)⟩, Nat.zero_le _,
    fun _ _ h => (nomatch h), fun _ h => (nomatch h)⟩

/-- **A radio challenge is spent at most once and only by who asked for it.** -/
theorem challenge_spent_once (r : Run (Step T ttlS) State.empty h s) :
    (∀ f e g, h = f ++ e :: g → ∀ nonce publicKey signatureHex now owner,
      Accepts T ttlS e nonce publicKey signatureHex now owner →
        (∃ i ∈ f, ∃ issuedFor issuedAt key message,
          i.label = .issue issuedFor issuedAt owner nonce ∧ normalizeKey T issuedFor = some key ∧
          normalizeKey T publicKey = some key ∧ now - issuedAt ≤ ttlS ∧
          challengeMessage T nonce key = some message ∧
          verifySignature T key message signatureHex = true) ∧
        ∀ e' ∈ g, ∀ nonce' publicKey' signatureHex' now' owner',
          Accepts T ttlS e' nonce' publicKey' signatureHex' now' owner' → nonce' ≠ nonce) ∧
    (∀ e ∈ h, ∀ n c, e.pre.store.pending.get? n = some c → c.owner ≠ e.label.owner →
      e.pre.store.pending.size < maxPending → e.post.store.pending.get? n = some c) ∧
    s.store.pending.size ≤ maxPending ∧
    s.store.Indexed := by
  refine ⟨?_, ?_, (good_of_run r).size, (good_of_run r).indexed⟩
  · rintro f e g rfl nonce publicKey signatureHex now owner hacc
    obtain ⟨hbefore, -, -⟩ := r.at_event
    obtain ⟨-, key, issuedAt, message, hget, hkey, hage, hmessage, hverified⟩ :=
      Store.consume_true T hacc.2
    obtain ⟨-, i, hi, issuedFor, hlabel, hissued⟩ := (good_of_run hbefore).came _ _ hget
    refine ⟨⟨i, hi, issuedFor, issuedAt, key, message, hlabel, hissued, hkey, hage, hmessage,
      hverified⟩, ?_⟩
    rintro e' he' nonce' publicKey' signatureHex' now' owner' hacc' rfl
    obtain ⟨g₁, g₂, rfl⟩ := List.append_of_mem he'
    have hcut : f ++ e :: (g₁ ++ e' :: g₂) = (f ++ e :: g₁) ++ e' :: g₂ := by simp
    rw [hcut] at r
    have hgone := ((good_of_run r.at_event.1).spent e
      (List.mem_append_right _ List.mem_cons_self) _ _ _ _ _ hacc).2
    obtain ⟨-, _, _, _, hget', -⟩ := Store.consume_true T hacc'.2
    rw [hgone] at hget'
    cases hget'
  · intro e he n c
    obtain ⟨f, g, rfl⟩ := List.append_of_mem he
    obtain ⟨hbefore, hstep, -⟩ := r.at_event
    exact ((good_of_run hbefore).step hstep).2 n c

/-- A signature that never verifies, and a key that is normal as it is. -/
def plainTools : Tools := ⟨id, id, fun _ _ _ => false⟩

def zeroKey : String := String.ofList (List.replicate 64 '0')

/-- A store with one challenge. -/
def oneChallenge : State :=
  ⟨⟨OrderedDict.empty.set "n" ⟨zeroKey, 0, "a"⟩, Table.empty.set ("a", zeroKey) "n"⟩, ["n"]⟩

/-- A challenge that another owner has tried to spend. -/
theorem challenge_spent_once_refused : ∃ h, Run (Step plainTools 300) State.empty h oneChallenge ∧
    oneChallenge.store.Indexed := by
  have hkey : normalizeKey plainTools zeroKey = some zeroKey := by decide +kernel
  obtain ⟨hsweep, hmake⟩ :=
    Store.sweep_makeRoom (s := State.empty.store) (show 0 < maxPending by decide) 300 0
  have hissue : Step plainTools 300 State.empty (.issue zeroKey 0 "a" "n") oneChallenge := by
    simp only [Step, step, Store.issue, hkey]
    show (if "n" ∈ ([] : List String) then none else some (State.mk ⟨(State.empty.store.sweep 300
      0).makeRoom.pending.set "n" _, (State.empty.store.sweep 300 0).makeRoom.byOwnerKey.set _ _⟩
        ["n"])) = _
    rw [hsweep, hmake]
    rfl
  have hrefused : Step plainTools 300 oneChallenge (.consume "n" zeroKey "00" 1 "b")
      oneChallenge := rfl
  have r := (Run.single hissue).append (Run.single hrefused)
  exact ⟨_, r, (challenge_spent_once r).2.2.2⟩

end RtfmEv.Challenges
