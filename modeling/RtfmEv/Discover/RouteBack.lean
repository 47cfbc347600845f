import RtfmEv.Discover.ContactPath

/-!
# A contact's route is given back

A contact is as it came onto the companion, or it is that contact with a route of zero hops and
a stored record holds its frame. The second dance on a contact that is still owed reads the
zero-hop frame and stores nothing, so no record is ever written from an override.
-/

namespace RtfmEv.Discover

open RtfmEv.Lib RtfmEv.WardriveRadio

/-! ### Frames and records -/

theorem hexValue_hexDigit : ∀ n : Fin 16, hexValue (hexDigit n) = some n.val := by decide

theorem decodeHex_toHex (b : Bytes) : decodeHex (toHex b) = some b := by
  induction b with
  | nil => rfl
  | cons b bs ih =>
    have hlt := b.toNat_lt
    have hhigh : hexValue (hexDigit (b.toNat / 16)) = some (b.toNat / 16) :=
      hexValue_hexDigit ⟨b.toNat / 16, by omega⟩
    have hlow : hexValue (hexDigit (b.toNat % 16)) = some (b.toNat % 16) :=
      hexValue_hexDigit ⟨b.toNat % 16, by omega⟩
    have hcons : toHex (b :: bs) =
        hexDigit (b.toNat / 16) :: hexDigit (b.toNat % 16) :: toHex bs := rfl
    rw [hcons, decodeHex, hhigh, hlow, ih]
    show some (UInt8.ofNat (16 * (b.toNat / 16) + b.toNat % 16) :: bs) = _
    rw [Nat.div_add_mod, UInt8.ofNat_toNat]

theorem decodeRecord_storedOf (self target : Key) (c : Contact) :
    decodeRecord (storedOf self target c.raw) = some ⟨self, target, c.raw⟩ := by
  rw [storedOf, decodeRecord, length_toHex, c.length, if_neg (by omega), decodeHex_toHex]

/-- The contact with a route of zero hops. -/
def Contact.zeroHop (c : Contact) : Contact :=
  ⟨(buildOverrideFrame c.raw).set 0 respContact, by
    rw [List.length_set, buildOverrideFrame, List.length_set, List.length_set, c.length], by
    obtain ⟨raw, hlen, _⟩ := c
    cases raw with
    | nil => exact absurd hlen (by decide)
    | cons => rfl⟩

theorem written_override (c : Contact) : written (buildOverrideFrame c.raw) = some c.zeroHop := by
  have hlen : (buildOverrideFrame c.raw).length = contactFrameLen := by
    rw [buildOverrideFrame, List.length_set, List.length_set, c.length]
  rw [written, dif_pos hlen]
  rfl

/-- **The restore frame gives the contact back in every byte.** -/
theorem written_restore (c : Contact) : written (buildRestoreFrame c.raw) = some c := by
  have hlen : (buildRestoreFrame c.raw).length = contactFrameLen := by
    rw [buildRestoreFrame, List.length_set, c.length]
  rw [written, dif_pos hlen]
  congr 1
  apply Contact.ext
  obtain ⟨raw, _, hhead⟩ := c
  cases raw with
  | nil => cases hhead
  | cons b raw =>
    have hb : b = respContact := Option.some.inj hhead
    subst hb
    rfl

theorem outPathLen_zeroHop (c : Contact) : outPathLen c.zeroHop.raw = 0 := by
  have hlen : outPathLenAt < c.raw.length := by
    rw [c.length]
    decide
  show (((c.raw.set 0 cmdAddUpdateContact).set outPathLenAt 0).set 0 respContact).getD
    outPathLenAt 0 = 0
  rw [List.getD_eq_getElem?_getD, List.getElem?_set_ne (by decide), List.getElem?_set_self
    (by rw [List.length_set]; exact hlen)]
  rfl

/-- What a read of a contact can give: nothing, that there is none, or its frame. -/
theorem readOf_cases (s : State) (self target : Key) (answered : Bool) :
    s.readOf self target answered = none ∨
      s.readOf self target answered = some .notFound ∧ s.contacts self target = none ∨
      ∃ c pubkey, s.contacts self target = some c ∧
        s.readOf self target answered = some (.contact pubkey c.raw) := by
  unfold State.readOf
  split_ifs with hans
  · cases hc : s.contacts self target with
    | none => exact Or.inr (Or.inl ⟨rfl, rfl⟩)
    | some c =>
      have herr : ¬ c.raw.code = some respErr := by
        rw [c.head]
        decide
      have hparse : parseContactReply c.raw =
          some (.contact ((c.raw.drop 1).take 32) c.raw) := by
        rw [parseContactReply, if_neg herr, if_pos ⟨c.head, c.length.ge⟩,
          List.take_of_length_le c.length.le]
      dsimp only
      rw [acceptContact, hparse]
      dsimp only
      split_ifs
      · exact Or.inl rfl
      · exact Or.inr (Or.inr ⟨c, _, rfl, rfl⟩)
  · exact Or.inl rfl

/-! ### What holds in every state -/

/-- The stored record of the contact holds its original frame. -/
def State.Owed (s : State) (self target : Key) (o : Contact) : Prop :=
  s.localStorage.get? (self, target) = some (storedOf self target o.raw)

/-- The contacts and the records. -/
structure World (s : State) : Prop where
  records : ∀ k v, s.localStorage.get? k = some v →
    ∃ o, s.original k.1 k.2 = some o ∧ v = storedOf k.1 k.2 o.raw
  given : ∀ self target, s.contacts self target = s.original self target ∨
    ∃ o, s.original self target = some o ∧ s.contacts self target = some o.zeroHop ∧
      s.Owed self target o
  restored : ∀ self target, s.restored = some (self, target) →
    s.contacts self target = s.original self target ∧
      s.localStorage.get? (self, target) = none

/-- A restore of the frame: it is the original one, and it is back once the write is applied. -/
def State.Restores (s : State) (self target : Key) (raw : Frame) (applied : Bool) : Prop :=
  ∃ o, s.original self target = some o ∧ raw = o.raw ∧
    (applied = true → s.contacts self target = some o)

/-- What is known where a call waits. -/
def State.AwaitOk (s : State) (self : Key) : Await → Prop
  | .read _ _ => True
  | .ask target none => ∀ c, s.contacts self target = some c → outPathLen c.raw = 0
  | .ask target (some raw) => ∃ o, s.original self target = some o ∧ raw = o.raw ∧
      s.contacts self target = some o.zeroHop
  | .override target raw applied => ∃ o, s.original self target = some o ∧ raw = o.raw ∧
      s.Owed self target o ∧ (applied = true → s.contacts self target = some o.zeroHop)
  | .restore target raw applied => s.Restores self target raw applied
  | .replay rest target raw applied => s.Restores self target raw applied ∧
      ∀ e ∈ rest, ∃ o, s.original e.1.1 e.1.2 = some o ∧ e.2 = storedOf e.1.1 e.1.2 o.raw

structure Good (s : State) : Prop extends World s where
  single : ∀ m n self, (s.pages m).Uses self → (s.pages n).Uses self → m = n
  awaits : ∀ n self a, (s.pages n).running = some (self, a) → s.AwaitOk self a

/-- Nothing is lost of what came onto the companions. -/
def Grows (s t : State) : Prop :=
  ∀ self target o, s.original self target = some o → t.original self target = some o

/-- The step does not touch the contacts and records of the companion. -/
def Same (self : Key) (s t : State) : Prop :=
  ∀ target, t.contacts self target = s.contacts self target ∧
    t.localStorage.get? (self, target) = s.localStorage.get? (self, target)

variable {s t : State} {self target : Key} {n : ℕ}

theorem State.Restores.frame {raw : Frame} {applied : Bool}
    (h : s.Restores self target raw applied) (hgrow : Grows s t) (hsame : Same self s t) :
    t.Restores self target raw applied := by
  obtain ⟨o, ho, hraw, happ⟩ := h
  exact ⟨o, hgrow _ _ _ ho, hraw, fun ha => (hsame target).1.trans (happ ha)⟩

theorem State.AwaitOk.frame {a : Await} (h : s.AwaitOk self a)
    (hgrow : Grows s t) (hsame : Same self s t) : t.AwaitOk self a := by
  cases a with
  | read => trivial
  | ask target raw =>
    cases raw with
    | none =>
      intro c hc
      exact h c ((hsame target).1.symm.trans hc)
    | some raw =>
      obtain ⟨o, ho, hraw, hc⟩ := h
      exact ⟨o, hgrow _ _ _ ho, hraw, (hsame target).1.trans hc⟩
  | override target raw applied =>
    obtain ⟨o, ho, hraw, howed, happ⟩ := h
    exact ⟨o, hgrow _ _ _ ho, hraw, (hsame target).2.trans howed,
      fun ha => (hsame target).1.trans (happ ha)⟩
  | restore => exact State.Restores.frame h hgrow hsame
  | replay rest target raw applied =>
    refine ⟨h.1.frame hgrow hsame, fun e he => ?_⟩
    obtain ⟨o, ho, hv⟩ := h.2 e he
    exact ⟨o, hgrow _ _ _ ho, hv⟩

/-- **What one page does keeps everything**, if it touches the companion of its own call only. -/
theorem Good.of_page (h : Good s)
    (huse : (s.pages n).Uses self) (hpages : ∀ m, m ≠ n → t.pages m = s.pages m)
    (huses : ∀ x, (t.pages n).Uses x → (s.pages n).Uses x) (hgrow : Grows s t)
    (hsame : ∀ x, x ≠ self → Same x s t) (hworld : World t)
    (hawait : ∀ x a, (t.pages n).running = some (x, a) → x = self ∧ t.AwaitOk self a) :
    Good t where
  toWorld := hworld
  single := by
    intro m m' x hm hm'
    have hback : ∀ k, (t.pages k).Uses x → (s.pages k).Uses x := by
      intro k hk
      by_cases hkn : k = n
      · rw [hkn] at hk ⊢
        exact huses x hk
      · rw [hpages k hkn] at hk
        exact hk
    exact h.single m m' x (hback m hm) (hback m' hm')
  awaits := by
    intro m x a hrun
    by_cases hmn : m = n
    · rw [hmn] at hrun
      obtain ⟨rfl, hok⟩ := hawait x a hrun
      exact hok
    · rw [hpages m hmn] at hrun
      have hx : x ≠ self := by
        intro hx
        rw [hx] at hrun
        exact hmn (h.single m n self (Or.inr ⟨a, hrun⟩) huse)
      exact (h.awaits m x a hrun).frame hgrow (hsame x hx)

/-! ### The contacts and the records, write by write -/

/-- The part of the state that `World` speaks of is as it was. -/
theorem World.of_eq (h : World s) (hc : t.contacts = s.contacts)
    (ho : t.original = s.original) (hl : t.localStorage = s.localStorage)
    (hr : t.restored = none ∨ t.restored = s.restored) : World t where
  records := by
    rw [hl, ho]
    exact h.records
  given := by
    unfold State.Owed
    rw [hc, ho, hl]
    exact h.given
  restored := by
    intro self target hres
    rw [hc, ho, hl]
    rcases hr with hr | hr
    · rw [hr] at hres
      cases hres
    · rw [hr] at hres
      exact h.restored self target hres

section
variable {s : State} {self target : Key} {o : Contact}

@[simp]
theorem setContact_self (c : Contact) :
    (s.setContact self target c).contacts self target = some c := by
  show Function.update s.contacts self _ self target = _
  rw [Function.update_self, Function.update_self]

theorem setContact_of_ne (c : Contact) {self' target' : Key}
    (hne : (self', target') ≠ (self, target)) :
    (s.setContact self target c).contacts self' target' = s.contacts self' target' := by
  show Function.update s.contacts self _ self' target' = _
  by_cases hself : self' = self
  · subst hself
    have htarget : target' ≠ target := fun h => hne (by rw [h])
    rw [Function.update_self, Function.update_of_ne htarget]
  · rw [Function.update_of_ne hself]

theorem World.setItem (h : World s) (hr : s.restored = none)
    (ho : s.original self target = some o) : World (s.setItem self target o.raw) where
  records := by
    intro k v hv
    have hget : (s.localStorage.set (self, target) (storedOf self target o.raw)).get? k = some v := hv
    rw [OrderedDict.get?_set] at hget
    split_ifs at hget with hk
    · rw [hk]
      exact ⟨o, ho, (Option.some.inj hget).symm⟩
    · exact h.records k v hget
  given := by
    intro self' target'
    rcases h.given self' target' with heq | ⟨o', ho', hc, howed⟩
    · exact Or.inl heq
    refine Or.inr ⟨o', ho', hc, ?_⟩
    show (s.localStorage.set (self, target) (storedOf self target o.raw)).get? (self', target') = _
    rw [OrderedDict.get?_set]
    split_ifs with hk
    · cases hk
      rw [ho] at ho'
      rw [Option.some.inj ho']
    · exact howed
  restored := by
    intro self' target' hres
    have hnone : some (self', target') = none := hres.symm.trans hr
    cases hnone

/-- The write of a contact that the record, or the contact itself, accounts for. -/
theorem World.setContact (h : World s) (hr : s.restored = none) {c : Contact}
    (ho : s.original self target = some o) (hc : c = o ∨ c = o.zeroHop ∧ s.Owed self target o) :
    World (s.setContact self target c) where
  records := h.records
  given := by
    intro self' target'
    by_cases hk : (self', target') = (self, target)
    · cases hk
      rw [setContact_self]
      rcases hc with rfl | ⟨rfl, howed⟩
      · exact Or.inl ho.symm
      · exact Or.inr ⟨o, ho, rfl, howed⟩
    · rw [setContact_of_ne c hk]
      exact h.given self' target'
  restored := by
    intro self' target' hres
    have hnone : some (self', target') = none := hres.symm.trans hr
    cases hnone

theorem World.giveBack (h : World s) (ho : s.original self target = some o)
    (hc : s.contacts self target = some o) : World (s.giveBack self target) where
  records := by
    intro k v hv
    have hget : (s.localStorage.erase (self, target)).get? k = some v := hv
    rw [OrderedDict.get?_erase] at hget
    split_ifs at hget
    exact h.records k v hget
  given := by
    intro self' target'
    by_cases hk : (self', target') = (self, target)
    · cases hk
      exact Or.inl (hc.trans ho.symm)
    · rcases h.given self' target' with heq | ⟨o', ho', hc', howed⟩
      · exact Or.inl heq
      refine Or.inr ⟨o', ho', hc', ?_⟩
      show (s.localStorage.erase (self, target)).get? (self', target') = _
      rw [OrderedDict.get?_erase, if_neg hk]
      exact howed
  restored := by
    intro self' target' hres
    cases hres
    refine ⟨hc.trans ho.symm, ?_⟩
    show (s.localStorage.erase (self, target)).get? (self, target) = none
    rw [OrderedDict.get?_erase, if_pos rfl]

end

/-- Only the page itself changes, and it takes up no other call. -/
def OwnPage (n : ℕ) (s t : State) : Prop :=
  (∀ m, m ≠ n → t.pages m = s.pages m) ∧
    ∀ job ∈ (t.pages n).linkTurn, job ∈ (s.pages n).linkTurn

theorem OwnPage.rfl : OwnPage n s s := ⟨fun _ _ => Eq.refl _, fun _ h => h⟩

/-- A call goes on to `a`, in a world that is as it should be. -/
theorem Good.await {a : Await} (h : Good s)
    (huse : (s.pages n).Uses self) (hpages : OwnPage n s t) (hgrow : Grows s t)
    (hsame : ∀ x, x ≠ self → Same x s t) (hworld : World t) (hok : t.AwaitOk self a) :
    Good (t.await n self a) := by
  have hpage : (t.await n self a).pages n = { t.pages n with running := some (self, a) } :=
    Function.update_self ..
  refine h.of_page huse (fun m hm => ?_) (fun x hx => ?_) hgrow hsame
    (hworld.of_eq rfl rfl rfl (Or.inr rfl)) (fun x a' hrun => ?_)
  · show Function.update t.pages n _ m = _
    rw [Function.update_of_ne hm, hpages.1 m hm]
  · rw [hpage] at hx
    rcases hx with ⟨job, hjob, hself⟩ | ⟨a', hrun⟩
    · exact Or.inl ⟨job, hpages.2 job hjob, hself⟩
    · cases hrun
      exact huse
  · rw [hpage] at hrun
    cases hrun
    exact ⟨rfl, hok.frame (fun _ _ _ ho => ho) (fun _ => ⟨rfl, rfl⟩)⟩

theorem Good.done (h : Good s)
    (huse : (s.pages n).Uses self) (hpages : OwnPage n s t) (hgrow : Grows s t)
    (hsame : ∀ x, x ≠ self → Same x s t) (hworld : World t) : Good (t.done n) := by
  have hpage : (t.done n).pages n = { t.pages n with running := none } := Function.update_self ..
  refine h.of_page huse (fun m hm => ?_) (fun x hx => ?_) hgrow hsame
    (hworld.of_eq rfl rfl rfl (Or.inr rfl)) (fun x a' hrun => ?_)
  · show Function.update t.pages n _ m = _
    rw [Function.update_of_ne hm, hpages.1 m hm]
  · rw [hpage] at hx
    rcases hx with ⟨job, hjob, hself⟩ | ⟨a', hrun⟩
    · exact Or.inl ⟨job, hpages.2 job hjob, hself⟩
    · cases hrun
  · rw [hpage] at hrun
    cases hrun

/-- The loop over the stored records goes on with the next one of the companion, or ends. -/
theorem Good.replayNext (h : Good s)
    (huse : (s.pages n).Uses self) (hpages : OwnPage n s t) (hgrow : Grows s t)
    (hsame : ∀ x, x ≠ self → Same x s t) (hworld : World t)
    (stored : List (RestoreKey × Stored))
    (hstored : ∀ e ∈ stored, ∃ o, t.original e.1.1 e.1.2 = some o ∧
      e.2 = storedOf e.1.1 e.1.2 o.raw) : Good (t.replayNext n self stored) := by
  induction stored with
  | nil => exact h.done huse hpages hgrow hsame hworld
  | cons e rest ih =>
    obtain ⟨key, value⟩ := e
    obtain ⟨o, ho, hv⟩ := hstored _ List.mem_cons_self
    have hrest := fun e he => hstored e (List.mem_cons_of_mem _ he)
    have hdec : decodeRecord value = some ⟨key.1, key.2, o.raw⟩ := by
      rw [show value = storedOf key.1 key.2 o.raw from hv]
      exact decodeRecord_storedOf _ _ _
    rw [State.replayNext, hdec]
    dsimp only
    split_ifs with hself
    · exact ih hrest
    · have hkey : key.1 = self := not_not.mp hself
      refine h.await huse hpages hgrow hsame hworld ⟨⟨o, ?_, rfl, fun ha => (nomatch ha)⟩, hrest⟩
      rw [← hkey]
      exact ho

/-! ### The steps -/

theorem Good.quiet (h : Good s) : Good { s with restored := none } where
  toWorld := h.toWorld.of_eq rfl rfl rfl (Or.inl rfl)
  single := h.single
  awaits := fun n self a hrun =>
    (h.awaits n self a hrun).frame (fun _ _ _ ho => ho) (fun _ => ⟨rfl, rfl⟩)

theorem grows_rfl : Grows s s := fun _ _ _ ho => ho

theorem same_rfl : Same self s s := fun _ => ⟨rfl, rfl⟩

theorem same_setContact {c : Contact} {x : Key} (hx : x ≠ self) :
    Same x s (s.setContact self target c) := by
  intro t
  refine ⟨setContact_of_ne c (fun h => hx (Prod.mk.inj h).1), rfl⟩

theorem same_setItem {raw : Frame} {x : Key} (hx : x ≠ self) :
    Same x s (s.setItem self target raw) := by
  intro t
  refine ⟨rfl, ?_⟩
  show (s.localStorage.set (self, target) _).get? (x, t) = _
  rw [OrderedDict.get?_set, if_neg (fun h => hx (Prod.mk.inj h).1)]

theorem same_giveBack {x : Key} (hx : x ≠ self) : Same x s (s.giveBack self target) := by
  intro t
  refine ⟨rfl, ?_⟩
  show (s.localStorage.erase (self, target)).get? (x, t) = _
  rw [OrderedDict.get?_erase, if_neg (fun h => hx (Prod.mk.inj h).1)]

section
variable {s : State} {n : ℕ} {self : Key}

/-- **A dance overrides only a contact that has its own route**, and has stored its frame. -/
theorem Good.dance (h : Good s) (hr : s.restored = none) (huse : (s.pages n).Uses self)
    (target : Key) (askNonContact answered stored : Bool) :
    Good (s.dance n self target askNonContact stored (s.readOf self target answered)) := by
  have hdone : Good (s.done n) :=
    h.done huse OwnPage.rfl grows_rfl (fun _ _ => same_rfl) h.toWorld
  have hask : ∀ a, s.AwaitOk self a → Good (s.await n self a) := fun a hok =>
    h.await huse OwnPage.rfl grows_rfl (fun _ _ => same_rfl) h.toWorld hok
  rcases readOf_cases s self target answered with hread | ⟨hread, hnone⟩ | ⟨c, pubkey, hc, hread⟩
  · rw [hread]
    exact hdone
  · rw [hread, State.dance]
    split_ifs
    · refine hask _ (fun c hc => ?_)
      rw [hnone] at hc
      cases hc
    · exact hdone
  · rw [hread, State.dance]
    split_ifs with hroute hstored
    · refine hask _ (fun c' hc' => ?_)
      rw [hc] at hc'
      rw [← Option.some.inj hc']
      exact hroute
    · -- a contact with a route is no override, so it is the original
      have ho : s.original self target = some c := by
        rcases h.given self target with heq | ⟨o, _, hzero, _⟩
        · rw [← heq, hc]
        · rw [hc] at hzero
          rw [Option.some.inj hzero] at hroute
          exact absurd (outPathLen_zeroHop o) hroute
      refine h.await huse ⟨fun _ _ => rfl, fun _ hj => hj⟩ (fun _ _ _ ho => ho)
        (fun x hx => same_setItem hx) (h.toWorld.setItem hr ho) ⟨c, ho, rfl, ?_, nofun⟩
      show (s.localStorage.set (self, target) _).get? (self, target) = _
      rw [OrderedDict.get?_set, if_pos rfl]
    · exact hdone

theorem Good.begin (h : Good s) (hr : s.restored = none) {job : Job} {rest : List Job}
    (hturn : (s.pages n).linkTurn = job :: rest) :
    Good ((s.setPage n { s.pages n with linkTurn := rest }).begin n job) := by
  have hpage : (s.setPage n { s.pages n with linkTurn := rest }).pages n =
      { s.pages n with linkTurn := rest } := Function.update_self ..
  have hown : OwnPage n s (s.setPage n { s.pages n with linkTurn := rest }) := by
    refine ⟨fun m hm => Function.update_of_ne hm _ _, fun job' hjob' => ?_⟩
    rw [hpage] at hjob'
    rw [hturn]
    exact List.mem_cons_of_mem _ hjob'
  have huse : (s.pages n).Uses job.self := Or.inl ⟨job, by rw [hturn]; exact List.mem_cons_self, rfl⟩
  have hworld : World (s.setPage n { s.pages n with linkTurn := rest }) :=
    h.toWorld.of_eq rfl rfl rfl (Or.inl hr)
  cases job with
  | ask self target askNonContact =>
    exact h.await huse hown grows_rfl (fun _ _ => same_rfl) hworld trivial
  | replay self =>
    refine h.replayNext huse hown grows_rfl (fun _ _ => same_rfl) hworld _ (fun e he => ?_)
    exact h.records e.1 e.2 (OrderedDict.get?_eq_some_iff.mpr he)

/-- The write of a restore frame gives the contact back. -/
theorem Good.write_restore (h : Good s) (hr : s.restored = none) (huse : (s.pages n).Uses self)
    {target : Key} {raw : Frame} {applied : Bool} (hok : s.Restores self target raw applied)
    {a : Await}
    (hnext : ∀ t, Grows s t → t.Restores self target raw true → t.AwaitOk self a) :
    Good ((s.write self target (buildRestoreFrame raw)).await n self a) := by
  obtain ⟨o, ho, rfl, -⟩ := hok
  have hwrite : s.write self target (buildRestoreFrame o.raw) = s.setContact self target o := by
    rw [State.write, written_restore]
  rw [hwrite]
  exact h.await huse ⟨fun _ _ => rfl, fun _ hj => hj⟩ grows_rfl (fun x hx => same_setContact hx)
    (h.toWorld.setContact hr ho (Or.inl rfl))
    (hnext _ grows_rfl ⟨o, ho, rfl, fun _ => setContact_self o⟩)

theorem Good.applyWrite (h : Good s) (hr : s.restored = none) {a : Await}
    (hrun : (s.pages n).running = some (self, a)) {t : State}
    (ht : s.applyWrite n self a = some t) : Good t := by
  have huse : (s.pages n).Uses self := Or.inr ⟨a, hrun⟩
  have hok := h.awaits n self a hrun
  cases a with
  | read => cases ht
  | ask => cases ht
  | override target raw applied =>
    cases applied with
    | true => cases ht
    | false =>
      cases ht
      obtain ⟨o, ho, rfl, howed, -⟩ := hok
      have hwrite : s.write self target (buildOverrideFrame o.raw) =
          s.setContact self target o.zeroHop := by
        rw [State.write, written_override]
      rw [hwrite]
      exact h.await huse ⟨fun _ _ => rfl, fun _ hj => hj⟩ grows_rfl
        (fun x hx => same_setContact hx)
        (h.toWorld.setContact hr ho (Or.inr ⟨rfl, howed⟩))
        ⟨o, ho, rfl, howed, fun _ => setContact_self _⟩
  | restore target raw applied =>
    cases applied with
    | true => cases ht
    | false =>
      cases ht
      exact h.write_restore hr huse hok (fun t _ hres => hres)
  | replay rest target raw applied =>
    cases applied with
    | true => cases ht
    | false =>
      cases ht
      refine h.write_restore hr huse hok.1 (fun t hgrow hres => ⟨hres, fun e he => ?_⟩)
      obtain ⟨o, ho, hv⟩ := hok.2 e he
      exact ⟨o, hgrow _ _ _ ho, hv⟩

/-- A restore that was acknowledged: the contact is back, and the record goes. -/
theorem Good.world_giveBack (h : Good s) {target : Key} {raw : Frame}
    (hok : s.Restores self target raw true) : World (s.giveBack self target) := by
  obtain ⟨o, ho, -, happ⟩ := hok
  exact h.toWorld.giveBack ho (happ rfl)

theorem Good.writeResult (h : Good s) {a : Await}
    (hrun : (s.pages n).running = some (self, a)) {acked : Bool} {t : State}
    (ht : s.writeResult n self acked a = some t) : Good t := by
  have huse : (s.pages n).Uses self := Or.inr ⟨a, hrun⟩
  have hok := h.awaits n self a hrun
  -- a result that is true is of a write that was applied
  have happlied : ∀ {applied : Bool}, ¬ (acked && !applied) = true → acked = true →
      applied = true := by
    intro applied hne hack
    rw [hack] at hne
    cases applied with
    | true => rfl
    | false => exact absurd rfl hne
  cases a with
  | read => cases ht
  | ask => cases ht
  | override target raw applied =>
    rw [State.writeResult] at ht
    split_ifs at ht with hfalse hack
    · cases ht
      obtain ⟨o, ho, hraw, howed, happ⟩ := hok
      exact h.await huse OwnPage.rfl grows_rfl (fun _ _ => same_rfl) h.toWorld
        ⟨o, ho, hraw, happ (happlied hfalse hack)⟩
    · cases ht
      obtain ⟨o, ho, hraw, howed, happ⟩ := hok
      exact h.await huse OwnPage.rfl grows_rfl (fun _ _ => same_rfl) h.toWorld
        ⟨o, ho, hraw, nofun⟩
  | restore target raw applied =>
    rw [State.writeResult] at ht
    split_ifs at ht with hfalse hack
    · cases ht
      have hok' : s.Restores self target raw true := by
        rw [← happlied hfalse hack]
        exact hok
      exact h.done huse ⟨fun _ _ => rfl, fun _ hj => hj⟩ grows_rfl
        (fun x hx => same_giveBack hx) (h.world_giveBack hok')
    · cases ht
      exact h.done huse OwnPage.rfl grows_rfl (fun _ _ => same_rfl) h.toWorld
  | replay rest target raw applied =>
    rw [State.writeResult] at ht
    split_ifs at ht with hfalse hack
    · cases ht
      have hok' : s.Restores self target raw true := by
        rw [← happlied hfalse hack]
        exact hok.1
      exact h.replayNext (t := s.giveBack self target) huse
        ⟨fun _ _ => rfl, fun _ hj => hj⟩ grows_rfl
        (fun x hx => same_giveBack hx) (h.world_giveBack hok') rest hok.2
    · cases ht
      exact h.replayNext huse OwnPage.rfl grows_rfl (fun _ _ => same_rfl) h.toWorld rest hok.2

end

/-- The radio adds the node that an anonymous request goes to: it had no such contact. -/
theorem Good.addContact (h : Good s) (c : Contact)
    (hrun : (s.pages n).running = some (self, .ask target none))
    (hnone : s.contacts self target = none) (hroute : outPathLen c.raw = 0) :
    Good { s.setContact self target c with
      original := Function.update s.original self
        (Function.update (s.original self) target (some c))
      restored := none } := by
  have hbefore : s.original self target = none := by
    rcases h.given self target with heq | ⟨o, _, hc, _⟩
    · rw [← heq, hnone]
    · rw [hnone] at hc
      cases hc
  have hother : ∀ self' target', (self', target') ≠ (self, target) →
      Function.update s.original self (Function.update (s.original self) target (some c))
        self' target' = s.original self' target' :=
    fun self' target' hne => setContact_of_ne (s := { s with contacts := s.original }) c hne
  have hself : Function.update s.original self
      (Function.update (s.original self) target (some c)) self target = some c :=
    setContact_self (s := { s with contacts := s.original }) c
  have hgrow : ∀ self' target' o, s.original self' target' = some o →
      Function.update s.original self (Function.update (s.original self) target (some c))
        self' target' = some o := by
    intro self' target' o ho
    refine (hother self' target' (fun hk => ?_)).trans ho
    cases hk
    rw [hbefore] at ho
    cases ho
  have huse : (s.pages n).Uses self := Or.inr ⟨_, hrun⟩
  refine h.of_page huse (fun _ _ => rfl) (fun _ hx => hx)
    hgrow (fun x hx t => ⟨(same_setContact hx t).1, rfl⟩) ⟨?_, ?_, nofun⟩ ?_
  · intro k v hv
    obtain ⟨o, ho, hval⟩ := h.records k v hv
    exact ⟨o, hgrow _ _ _ ho, hval⟩
  · intro self' target'
    by_cases hk : (self', target') = (self, target)
    · cases hk
      exact Or.inl ((setContact_self c).trans hself.symm)
    · rcases h.given self' target' with heq | ⟨o, ho, hc, howed⟩
      · refine Or.inl ((setContact_of_ne c hk).trans (heq.trans ?_))
        exact (hother _ _ hk).symm
      · exact Or.inr ⟨o, hgrow _ _ _ ho, (setContact_of_ne c hk).trans hc, howed⟩
  · intro x a hrun'
    have hsame : some (self, Await.ask target none) = some (x, a) := hrun.symm.trans hrun'
    cases hsame
    refine ⟨rfl, fun c' hc' => ?_⟩
    rw [← Option.some.inj ((setContact_self c).symm.trans hc')]
    exact hroute

theorem good_init (contacts : Key → Key → Option Contact) : Good (State.init contacts) where
  records := fun _ _ hv => (nomatch hv)
  given := fun _ _ => Or.inl rfl
  restored := fun _ _ hres => (nomatch hres)
  single := by
    rintro m n self (⟨job, hjob, -⟩ | ⟨a, hrun⟩)
    · cases hjob
    · cases hrun
  awaits := fun _ _ _ hrun => (nomatch hrun)

/-- **Every step keeps the records and the contacts in line.** -/
theorem Good.step {l : Label} (h : Good s) (hstep : Step s l t) : Good t := by
  have hq := h.quiet
  cases hstep with
  | call n job hfree =>
    have huses : ∀ m self, ((({ s with restored := none } : State).setPage n
        { s.pages n with linkTurn := (s.pages n).linkTurn ++ [job] }).pages m).Uses self →
        (s.pages m).Uses self ∨ m = n ∧ self = job.self := by
      intro m self hm
      by_cases hmn : m = n
      · subst hmn
        rw [show (({ s with restored := none } : State).setPage m _).pages m = _ from
          Function.update_self ..] at hm
        rcases hm with ⟨job', hjob', hself⟩ | hrun
        · rcases List.mem_append.mp hjob' with hold | hnew
          · exact Or.inl (Or.inl ⟨job', hold, hself⟩)
          · rw [List.mem_singleton.mp hnew] at hself
            exact Or.inr ⟨rfl, hself.symm⟩
        · exact Or.inl (Or.inr hrun)
      · rw [show (({ s with restored := none } : State).setPage n _).pages m = _ from
          Function.update_of_ne hmn _ _] at hm
        exact Or.inl hm
    refine ⟨hq.toWorld.of_eq rfl rfl rfl (Or.inr rfl), ?_, ?_⟩
    · intro m m' self hm hm'
      -- the page that is called has the companion to itself
      have hown : ∀ k, (s.pages k).Uses self → self = job.self → k = n := by
        intro k hk hself
        rw [hself] at hk
        exact Classical.byContradiction fun hne => hfree k hne hk
      rcases huses m self hm with hold | ⟨hn, hself⟩
      · rcases huses m' self hm' with hold' | ⟨hn', hself'⟩
        · exact h.single m m' self hold hold'
        · rw [hn']
          exact hown m hold hself'
      · rcases huses m' self hm' with hold' | ⟨hn', -⟩
        · rw [hn]
          exact (hown m' hold' hself).symm
        · rw [hn, hn']
    · intro m self a hrun
      have hold : (s.pages m).running = some (self, a) := by
        by_cases hmn : m = n
        · subst hmn
          rw [show (({ s with restored := none } : State).setPage m _).pages m = _ from
            Function.update_self ..] at hrun
          exact hrun
        · rw [show (({ s with restored := none } : State).setPage n _).pages m = _ from
            Function.update_of_ne hmn _ _] at hrun
          exact hrun
      exact (h.awaits m self a hold).frame grows_rfl (fun _ => ⟨rfl, rfl⟩)
  | begin n job rest hidle hturn => exact hq.begin rfl hturn
  | readResult n self target askNonContact answered stored hrun =>
    exact hq.dance rfl (Or.inr ⟨_, hrun⟩) target askNonContact answered stored
  | applyWrite n self a t hrun ht => exact hq.applyWrite rfl hrun ht
  | writeResult n self a acked t hrun ht => exact hq.writeResult hrun ht
  | addContact n self target c hrun hnone hroute => exact h.addContact c hrun hnone hroute
  | askDone n self target raw hrun =>
    have huse : (s.pages n).Uses self := Or.inr ⟨_, hrun⟩
    cases raw with
    | none => exact hq.done huse OwnPage.rfl grows_rfl (fun _ _ => same_rfl) hq.toWorld
    | some raw =>
      obtain ⟨o, ho, hraw, -⟩ := h.awaits n self _ hrun
      have hres : ({ s with restored := none } : State).Restores self target raw false :=
        ⟨o, ho, hraw, nofun⟩
      exact hq.await huse OwnPage.rfl grows_rfl (fun _ _ => same_rfl) hq.toWorld hres
  | close n =>
    refine ⟨hq.toWorld.of_eq rfl rfl rfl (Or.inr rfl), ?_, ?_⟩
    · intro m m' self hm hm'
      have hback : ∀ k, ((({ s with restored := none } : State).setPage n
          Page.closed).pages k).Uses self → (s.pages k).Uses self := by
        intro k hk
        by_cases hkn : k = n
        · subst hkn
          rw [show (({ s with restored := none } : State).setPage k _).pages k = _ from
            Function.update_self ..] at hk
          rcases hk with ⟨job, hjob, -⟩ | ⟨a, hrun⟩
          · cases hjob
          · cases hrun
        · rw [show (({ s with restored := none } : State).setPage n _).pages k = _ from
            Function.update_of_ne hkn _ _] at hk
          exact hk
      exact h.single m m' self (hback m hm) (hback m' hm')
    · intro m self a hrun
      by_cases hmn : m = n
      · subst hmn
        rw [show (({ s with restored := none } : State).setPage m _).pages m = _ from
          Function.update_self ..] at hrun
        cases hrun
      · rw [show (({ s with restored := none } : State).setPage n _).pages m = _ from
          Function.update_of_ne hmn _ _] at hrun
        exact (h.awaits m self a hrun).frame grows_rfl (fun _ => ⟨rfl, rfl⟩)

theorem original_replayNext (n : ℕ) (self : Key) (s : State)
    (stored : List (RestoreKey × Stored)) :
    (s.replayNext n self stored).original = s.original := by
  induction stored generalizing s with
  | nil => rfl
  | cons e rest ih =>
    obtain ⟨key, value⟩ := e
    rw [State.replayNext]
    split
    · exact ih _
    · split_ifs
      · exact ih _
      · rfl

theorem original_write (s : State) (self target : Key) (frame : Frame) :
    (s.write self target frame).original = s.original := by
  unfold State.write
  split <;> rfl

theorem Good.grows {l : Label} (h : Good s) (hstep : Step s l t) : Grows s t := by
  have hof : t.original = s.original → Grows s t := by
    intro heq self target o ho
    rw [heq]
    exact ho
  cases hstep with
  | call => exact hof rfl
  | close => exact hof rfl
  | begin n job rest hidle hturn =>
    cases job with
    | ask => exact hof rfl
    | replay => exact hof (original_replayNext ..)
  | readResult n self target askNonContact answered stored hrun =>
    refine hof ?_
    unfold State.dance
    split
    · split_ifs <;> rfl
    · split_ifs <;> rfl
    · rfl
  | applyWrite n self a t hrun ht =>
    cases a with
    | read => cases ht
    | ask => cases ht
    | override target raw applied | restore target raw applied | replay rest target raw applied =>
      cases applied <;> cases ht
      exact hof (original_write ..)
  | writeResult n self a acked t hrun ht =>
    cases a with
    | read => cases ht
    | ask => cases ht
    | override target raw applied | restore target raw applied =>
      rw [State.writeResult] at ht
      split_ifs at ht <;> cases ht <;> exact hof rfl
    | replay rest target raw applied =>
      rw [State.writeResult] at ht
      split_ifs at ht <;> cases ht <;> exact hof (original_replayNext ..)
  | addContact n self target c hrun hnone hroute =>
    have hbefore : s.original self target = none := by
      rcases h.given self target with heq | ⟨o, _, hc, _⟩
      · rw [← heq, hnone]
      · rw [hnone] at hc
        cases hc
    intro self' target' o ho
    refine (setContact_of_ne (s := { s with contacts := s.original }) c (fun hk => ?_)).trans ho
    cases hk
    rw [hbefore] at ho
    cases ho
  | askDone n self target raw hrun => cases raw <;> exact hof rfl

/-- **A contact's route is given back, and a known contact is never asked by flood.** A contact
that is not as it came onto the companion has its frame stored, an ask for a known contact runs
only while its route is of zero hops, and a restore that was acknowledged leaves the contact as
it came, with no record of it. -/
theorem route_given_back {contacts : Key → Key → Option Contact} {h : List (Event State Label)}
    {s : State} (hrun : Run Step (State.init contacts) h s) :
    (∀ self target, s.contacts self target ≠ s.original self target →
      ∃ o v, s.original self target = some o ∧ s.localStorage.get? (self, target) = some v ∧
        decodeRecord v = some ⟨self, target, o.raw⟩) ∧
    (∀ n self target raw c, (s.pages n).running = some (self, .ask target raw) →
      s.contacts self target = some c → outPathLen c.raw = 0) ∧
    (∀ self target, s.restored = some (self, target) →
      s.contacts self target = s.original self target ∧
        s.localStorage.get? (self, target) = none) ∧
    ∀ self target c, contacts self target = some c → s.original self target = some c := by
  have hboth : Good s ∧ Grows (State.init contacts) s := by
    refine hrun.invariant (P := fun s => Good s ∧ Grows (State.init contacts) s)
      (C := fun _ => True) (fun _ _ => trivial) ?_ ⟨good_init contacts, grows_rfl⟩
    intro e hstep _ ⟨hgood, hgrow⟩
    exact ⟨hgood.step hstep, fun _ _ _ ho => hgood.grows hstep _ _ _ (hgrow _ _ _ ho)⟩
  obtain ⟨hgood, hgrow⟩ := hboth
  refine ⟨fun self target hne => ?_, fun n self target raw c hask hc => ?_, hgood.restored,
    hgrow⟩
  · rcases hgood.given self target with heq | ⟨o, ho, hc, howed⟩
    · exact absurd heq hne
    · exact ⟨o, _, ho, howed, decodeRecord_storedOf self target o⟩
  · have hok := hgood.awaits n self _ hask
    cases raw with
    | none => exact hok c hc
    | some raw =>
      obtain ⟨o, -, -, hzero⟩ := hok
      rw [hc] at hzero
      rw [Option.some.inj hzero]
      exact outPathLen_zeroHop o

/-- A contact with a route of three hops. -/
def farContact : Contact where
  raw := respContact :: (List.replicate 32 7 ++ [1, 0, 3] ++ List.replicate 112 0)
  length := by decide +kernel
  head := rfl

def farKey : Key := List.replicate 32 7

/-- One companion, with the contact above. -/
def farContacts (self target : Key) : Option Contact :=
  if self = [1] ∧ target = farKey then some farContact else none

/-- A dance with every write applied and acknowledged. -/
theorem route_given_back_dance :
    ∃ h s, Run Step (State.init farContacts) h s ∧ s.contacts [1] farKey = some farContact ∧
      s.localStorage.get? ([1], farKey) = none := by
  have hrun : ∃ h s, Run Step (State.init farContacts) h s ∧ s.restored = some ([1], farKey) := by
    obtain ⟨s₁, h₁, hturn, hidle, hc₁⟩ : ∃ s₁, Step (State.init farContacts)
        (.call 0 (.ask [1] farKey false)) s₁ ∧
        (s₁.pages 0).linkTurn = [.ask [1] farKey false] ∧ (s₁.pages 0).running = none ∧
        s₁.contacts = farContacts := by
      refine ⟨_, Step.call 0 _ ?_, rfl, rfl, rfl⟩
      rintro m - (⟨job, hjob, -⟩ | ⟨a, ha⟩)
      · cases hjob
      · cases ha
    obtain ⟨s₂, h₂, hread, hc₂⟩ : ∃ s₂, Step s₁ (.begin 0) s₂ ∧
        (s₂.pages 0).running = some ([1], .read farKey false) ∧ s₂.contacts = s₁.contacts :=
      ⟨_, Step.begin 0 _ _ hidle hturn, rfl, rfl⟩
    obtain ⟨s₃, h₃, hoverride⟩ : ∃ s₃, Step s₂ (.readResult 0 true true) s₃ ∧
        (s₃.pages 0).running = some ([1], .override farKey farContact.raw false) := by
      refine ⟨_, Step.readResult 0 [1] farKey false true true hread, ?_⟩
      have hfar : s₂.contacts [1] farKey = some farContact := by
        rw [hc₂, hc₁]
        rfl
      have hreading : s₂.readOf [1] farKey true = some (.contact farKey farContact.raw) := by
        rw [State.readOf, if_pos rfl, hfar]
        decide +kernel
      have hroute : ¬ outPathLen farContact.raw = 0 := by decide +kernel
      rw [hreading, State.dance, if_neg hroute]
      rfl
    obtain ⟨s₄, h₄, happlied⟩ : ∃ s₄, Step s₃ (.applyWrite 0) s₄ ∧
        (s₄.pages 0).running = some ([1], .override farKey farContact.raw true) :=
      ⟨_, Step.applyWrite 0 _ _ _ hoverride rfl, rfl⟩
    obtain ⟨s₅, h₅, hask⟩ : ∃ s₅, Step s₄ (.writeResult 0 true) s₅ ∧
        (s₅.pages 0).running = some ([1], .ask farKey (some farContact.raw)) :=
      ⟨_, Step.writeResult 0 _ _ true _ happlied rfl, rfl⟩
    obtain ⟨s₆, h₆, hrestore⟩ : ∃ s₆, Step s₅ (.askDone 0) s₆ ∧
        (s₆.pages 0).running = some ([1], .restore farKey farContact.raw false) :=
      ⟨_, Step.askDone 0 _ _ _ hask, rfl⟩
    obtain ⟨s₇, h₇, hback⟩ : ∃ s₇, Step s₆ (.applyWrite 0) s₇ ∧
        (s₇.pages 0).running = some ([1], .restore farKey farContact.raw true) :=
      ⟨_, Step.applyWrite 0 _ _ _ hrestore rfl, rfl⟩
    obtain ⟨s₈, h₈, hrestored⟩ : ∃ s₈, Step s₇ (.writeResult 0 true) s₈ ∧
        s₈.restored = some ([1], farKey) :=
      ⟨_, Step.writeResult 0 _ _ true _ hback rfl, rfl⟩
    exact ⟨_, s₈, (((((((Run.single h₁).snoc h₂).snoc h₃).snoc h₄).snoc h₅).snoc h₆).snoc
      h₇).snoc h₈, hrestored⟩
  obtain ⟨h, s, hrun, hres⟩ := hrun
  obtain ⟨-, -, hback, horig⟩ := route_given_back hrun
  obtain ⟨hcontact, hnone⟩ := hback _ _ hres
  exact ⟨h, s, hrun, hcontact.trans (horig [1] farKey farContact rfl), hnone⟩

end RtfmEv.Discover
