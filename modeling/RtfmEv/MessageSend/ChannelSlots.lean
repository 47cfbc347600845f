import RtfmEv.Lib.Bytes
import RtfmEv.Lib.OrderedDict
import RtfmEv.Lib.Table

/-!
# Channel slots of the radio (`app/radio.py`)

The radio has a fixed number of channel slots. The manager remembers which
channel it has last loaded into which slot, and the channel that was not used
for the longest time gives its slot up first. `ChannelCache` are the two maps,
`ChannelCache.Faithful` says that they agree with each other and with the radio.
-/

namespace RtfmEv.MessageSend

open RtfmEv.Lib

/-- What the manager knows of the connection and of the radio behind it. -/
structure RadioManager where
  connectionInfo : Option String
  connectionType : String
  forceChannelSlotReconfigure : Bool
  maxChannels : Option ℤ
  firmwareVerCode : Option ℕ
  pathHashMode : ℤ
  pathHashModeSupported : Bool
  slotByKey : OrderedDict String ℕ
  keyBySlot : Table ℕ String

namespace RadioManager

def resetChannelSendCache (m : RadioManager) : RadioManager :=
  { m with slotByKey := .empty, keyBySlot := .empty }

def channelSlotReuseEnabled (m : RadioManager) : Bool :=
  if m.forceChannelSlotReconfigure then false
  else
    match m.connectionInfo with
    | none => m.connectionType != "tcp"
    | some info =>
      if info = "" then m.connectionType != "tcp" else !textStartsWith info "TCP:"

/-- The capacity of the cache; one when the number of channels is not a number. -/
def channelSendCacheCapacity (m : RadioManager) : ℕ :=
  match m.maxChannels with
  | some n => (max 1 n).toNat
  | none => 1

/-- The first free slot, the preferred one if it is free. -/
def findFirstFreeChannelSlot (capacity preferredSlot : ℕ) (m : RadioManager) : ℕ :=
  if preferredSlot < capacity ∧ m.keyBySlot.get preferredSlot = none then preferredSlot
  else
    ((List.range capacity).find? (fun slot => (m.keyBySlot.get slot).isNone)).getD preferredSlot

/-- A slot for a channel, whether it has to be loaded, and the channel that gives
the slot up for it. -/
def planChannelSendSlot (channelKey : String) (preferredSlot : ℕ) (m : RadioManager) :
    ℕ × Bool × Option String :=
  if !m.channelSlotReuseEnabled then (preferredSlot, true, none)
  else
    match m.slotByKey.get? (upperAscii channelKey) with
    | some cachedSlot => (cachedSlot, false, none)
    | none =>
      let capacity := m.channelSendCacheCapacity
      if m.slotByKey.size < capacity then
        (m.findFirstFreeChannelSlot capacity preferredSlot, true, none)
      else
        match m.slotByKey.entries with
        | [] => (preferredSlot, true, none)
        | (evictedKey, slot) :: _ => (slot, true, some evictedKey)

def noteChannelSlotLoaded (channelKey : String) (slot : ℕ) (m : RadioManager) : RadioManager :=
  if !m.channelSlotReuseEnabled then m
  else
    let key := upperAscii channelKey
    let keyBySlot :=
      match m.slotByKey.get? key with
      | some previousSlot =>
        if previousSlot ≠ slot then m.keyBySlot.erase previousSlot else m.keyBySlot
      | none => m.keyBySlot
    let slotByKey := m.slotByKey.erase key
    let slotByKey :=
      match keyBySlot.get slot with
      | some displacedKey => if displacedKey ≠ key then slotByKey.erase displacedKey else slotByKey
      | none => slotByKey
    { m with keyBySlot := keyBySlot.set slot key, slotByKey := slotByKey.set key slot }

def noteChannelSlotUsed (channelKey : String) (m : RadioManager) : RadioManager :=
  if !m.channelSlotReuseEnabled then m
  else
    let key := upperAscii channelKey
    match m.slotByKey.get? key with
    | none => m
    | some slot =>
      { m with slotByKey := m.slotByKey.moveToEnd key, keyBySlot := m.keyBySlot.set slot key }

def invalidateCachedChannelSlot (channelKey : String) (m : RadioManager) : RadioManager :=
  let key := upperAscii channelKey
  match m.slotByKey.get? key with
  | none => m
  | some slot =>
    { m with
      slotByKey := m.slotByKey.erase key
      keyBySlot :=
        if m.keyBySlot.get slot = some key then m.keyBySlot.erase slot else m.keyBySlot }

/-! ### A faithful cache -/

/-- The two maps are inverse to each other, with normalized keys and slots below
the capacity, and every channel is in the slot of the radio that the cache says. -/
structure Faithful (slots : Table ℕ Bytes) (m : RadioManager) : Prop where
  inverse : ∀ key slot, m.slotByKey.get? key = some slot ↔ m.keyBySlot.get slot = some key
  upper : ∀ {key slot}, m.slotByKey.get? key = some slot → upperAscii key = key
  bounded : ∀ {key slot}, m.slotByKey.get? key = some slot → slot < m.channelSendCacheCapacity
  loaded : ∀ {key slot}, m.slotByKey.get? key = some slot →
    ∃ bytes, fromHex key.toList = some bytes ∧ slots.get slot = some bytes

variable {slots : Table ℕ Bytes} {m : RadioManager}

theorem capacity_pos (m : RadioManager) : 0 < m.channelSendCacheCapacity := by
  unfold channelSendCacheCapacity
  split <;> omega

theorem faithful_reset (slots : Table ℕ Bytes) (m : RadioManager) :
    Faithful slots m.resetChannelSendCache where
  inverse := by
    intro key slot
    show (OrderedDict.empty : OrderedDict String ℕ).get? key = some slot ↔ _
    simp [OrderedDict.empty, OrderedDict.get?, resetChannelSendCache]
  upper := by
    intro key slot h
    cases h
  bounded := by
    intro key slot h
    cases h
  loaded := by
    intro key slot h
    cases h

theorem Faithful.slot_unique (h : Faithful slots m) {key key' : String} {slot : ℕ}
    (hk : m.slotByKey.get? key = some slot) (hk' : m.slotByKey.get? key' = some slot) :
    key = key' := by
  have h1 := (h.inverse key slot).mp hk
  have h2 := (h.inverse key' slot).mp hk'
  exact Option.some.inj (h1.symm.trans h2)

theorem Faithful.size_le (h : Faithful slots m) :
    m.slotByKey.size ≤ m.channelSendCacheCapacity := by
  apply OrderedDict.size_le_of_injective
  · intro key slot hk
    exact h.bounded hk
  · intro key key' slot hk hk'
    exact h.slot_unique hk hk'

theorem Faithful.exists_free (h : Faithful slots m)
    (hsize : m.slotByKey.size < m.channelSendCacheCapacity) :
    ∃ slot < m.channelSendCacheCapacity, m.keyBySlot.get slot = none := by
  by_contra hfull
  have hused : ∀ slot ∈ List.range m.channelSendCacheCapacity,
      slot ∈ m.slotByKey.entries.map Prod.snd := by
    intro slot hslot
    have hlt := List.mem_range.mp hslot
    cases hk : m.keyBySlot.get slot with
    | none => exact absurd ⟨slot, hlt, hk⟩ hfull
    | some key =>
      have hget := (h.inverse key slot).mpr hk
      exact List.mem_map.mpr ⟨_, OrderedDict.get?_eq_some_iff.mp hget, rfl⟩
  have hlen := (List.nodup_range.subperm hused).length_le
  rw [List.length_range, List.length_map] at hlen
  exact absurd hsize (not_lt.mpr hlen)

theorem Faithful.findFirstFree (h : Faithful slots m) {preferred : ℕ}
    (hsize : m.slotByKey.size < m.channelSendCacheCapacity) :
    m.findFirstFreeChannelSlot m.channelSendCacheCapacity preferred <
        m.channelSendCacheCapacity ∧
      m.keyBySlot.get (m.findFirstFreeChannelSlot m.channelSendCacheCapacity preferred) = none := by
  unfold findFirstFreeChannelSlot
  split
  · rename_i hpref
    exact hpref
  · obtain ⟨slot, hlt, hfree⟩ := h.exists_free hsize
    have hsome : ((List.range m.channelSendCacheCapacity).find?
        (fun slot => (m.keyBySlot.get slot).isNone)).isSome = true := by
      rw [List.find?_isSome]
      exact ⟨slot, List.mem_range.mpr hlt, by rw [hfree]; rfl⟩
    obtain ⟨found, hfound⟩ := Option.isSome_iff_exists.mp hsome
    rw [hfound, Option.getD_some]
    have hmem := List.mem_of_find?_eq_some hfound
    have hnone := List.find?_some hfound
    exact ⟨List.mem_range.mp hmem, Option.isNone_iff_eq_none.mp hnone⟩

/-- How a send gets its slot: the channel is cached there, the slot is free, or
the oldest channel has it. -/
inductive Planned (key : String) (m : RadioManager) : ℕ × Bool × Option String → Prop
  | cached {slot : ℕ} (h : m.slotByKey.get? key = some slot) : Planned key m (slot, false, none)
  | free {slot : ℕ} (hnew : m.slotByKey.get? key = none) (hlt : slot < m.channelSendCacheCapacity)
      (h : m.keyBySlot.get slot = none) : Planned key m (slot, true, none)
  | evicts {slot : ℕ} {evicted : String} (hnew : m.slotByKey.get? key = none)
      (h : m.slotByKey.get? evicted = some slot) : Planned key m (slot, true, some evicted)

theorem Faithful.planned (h : Faithful slots m) (hreuse : m.channelSlotReuseEnabled = true)
    (channelKey : String) (preferred : ℕ) :
    Planned (upperAscii channelKey) m (m.planChannelSendSlot channelKey preferred) := by
  unfold planChannelSendSlot
  rw [hreuse]
  cases hkey : m.slotByKey.get? (upperAscii channelKey) with
  | some slot => exact .cached hkey
  | none =>
    show Planned _ m (if m.slotByKey.size < m.channelSendCacheCapacity then _ else _)
    split
    · rename_i hsize
      obtain ⟨hlt, hfree⟩ := h.findFirstFree hsize
      exact .free hkey hlt hfree
    · rename_i hfull
      cases hent : m.slotByKey.entries with
      | nil =>
        have hzero : m.slotByKey.size = 0 := by rw [OrderedDict.size, hent]; rfl
        have hpos := capacity_pos m
        omega
      | cons e rest =>
        obtain ⟨evicted, slot⟩ := e
        refine .evicts hkey (OrderedDict.get?_eq_some_iff.mpr ?_)
        rw [hent]
        exact List.mem_cons_self

/-! ### What the operations do to a faithful cache -/

theorem slotByKey_invalidate (m : RadioManager) (channelKey key : String) :
    (m.invalidateCachedChannelSlot channelKey).slotByKey.get? key =
      if key = upperAscii channelKey then none else m.slotByKey.get? key := by
  unfold invalidateCachedChannelSlot
  dsimp only
  cases hkey : m.slotByKey.get? (upperAscii channelKey) with
  | none =>
    show m.slotByKey.get? key = _
    split_ifs with heq
    · rw [heq, hkey]
    · rfl
  | some slot => exact OrderedDict.get?_erase _ _ _

theorem keyBySlot_invalidate (h : Faithful slots m) (channelKey : String) (slot : ℕ) :
    (m.invalidateCachedChannelSlot channelKey).keyBySlot.get slot =
      if m.keyBySlot.get slot = some (upperAscii channelKey) then none
      else m.keyBySlot.get slot := by
  unfold invalidateCachedChannelSlot
  dsimp only
  cases hkey : m.slotByKey.get? (upperAscii channelKey) with
  | none =>
    show m.keyBySlot.get slot = _
    split_ifs with heq
    · rw [(h.inverse _ slot).mpr heq] at hkey
      cases hkey
    · rfl
  | some cached =>
    have hcached := (h.inverse _ cached).mp hkey
    show Table.get (if m.keyBySlot.get cached = _ then m.keyBySlot.erase cached
      else m.keyBySlot) slot = _
    rw [if_pos hcached]
    by_cases hslot : slot = cached
    · rw [hslot, Table.get_erase_self, if_pos hcached]
    · rw [Table.get_erase_of_ne _ hslot, if_neg]
      intro heq
      have hsame := (h.inverse _ slot).mpr heq
      rw [hkey] at hsame
      exact hslot (Option.some.inj hsame).symm

theorem Faithful.invalidate (h : Faithful slots m) (channelKey : String) :
    Faithful slots (m.invalidateCachedChannelSlot channelKey) := by
  have hcap : (m.invalidateCachedChannelSlot channelKey).channelSendCacheCapacity =
      m.channelSendCacheCapacity := by
    unfold invalidateCachedChannelSlot
    dsimp only
    split <;> rfl
  have hkept : ∀ {key slot},
      (m.invalidateCachedChannelSlot channelKey).slotByKey.get? key = some slot →
        m.slotByKey.get? key = some slot := by
    intro key slot hk
    rw [slotByKey_invalidate m] at hk
    split_ifs at hk with heq
    exact hk
  refine ⟨?_, ?_, ?_, ?_⟩
  · intro key slot
    rw [slotByKey_invalidate m, keyBySlot_invalidate h]
    have hinv := h.inverse key slot
    split_ifs with hk hs hs
    · simp
    · constructor
      · intro hnone
        cases hnone
      · intro hsome
        rw [hk] at hsome
        exact absurd hsome hs
    · constructor
      · intro hsome
        have hsome' := hinv.mp hsome
        rw [hs] at hsome'
        exact absurd (Option.some.inj hsome').symm hk
      · intro hnone
        cases hnone
    · exact hinv
  · intro key slot hk
    exact h.upper (hkept hk)
  · intro key slot hk
    rw [hcap]
    exact h.bounded (hkept hk)
  · intro key slot hk
    exact h.loaded (hkept hk)

theorem Faithful.setFree (h : Faithful slots m) {slot : ℕ} (hfree : m.keyBySlot.get slot = none)
    (bytes : Bytes) : Faithful (slots.set slot bytes) m := by
  refine ⟨h.inverse, h.upper, h.bounded, ?_⟩
  intro key slot' hk
  obtain ⟨b, hb, hslot⟩ := h.loaded hk
  refine ⟨b, hb, ?_⟩
  rw [Table.get_set_of_ne _ _ ?_]
  · exact hslot
  · rintro rfl
    have hused := (h.inverse key slot').mp hk
    rw [hfree] at hused
    cases hused

theorem Faithful.used (h : Faithful slots m) (channelKey : String) :
    Faithful slots (m.noteChannelSlotUsed channelKey) := by
  unfold noteChannelSlotUsed
  split
  · exact h
  dsimp only
  cases hkey : m.slotByKey.get? (upperAscii channelKey) with
  | none => exact h
  | some cached =>
    have hcached := (h.inverse _ cached).mp hkey
    refine ⟨?_, ?_, ?_, ?_⟩
    · intro key slot
      show (m.slotByKey.moveToEnd _).get? key = some slot ↔
        (m.keyBySlot.set cached _).get slot = some key
      rw [OrderedDict.get?_moveToEnd, h.inverse]
      by_cases hslot : slot = cached
      · rw [hslot, Table.get_set_self, hcached]
      · rw [Table.get_set_of_ne _ _ hslot]
    · intro key slot hk
      have hk' : (m.slotByKey.moveToEnd _).get? key = some slot := hk
      rw [OrderedDict.get?_moveToEnd] at hk'
      exact h.upper hk'
    · intro key slot hk
      have hk' : (m.slotByKey.moveToEnd _).get? key = some slot := hk
      rw [OrderedDict.get?_moveToEnd] at hk'
      exact h.bounded hk'
    · intro key slot hk
      have hk' : (m.slotByKey.moveToEnd _).get? key = some slot := hk
      rw [OrderedDict.get?_moveToEnd] at hk'
      exact h.loaded hk'

theorem keyBySlot_loaded (h : Faithful slots m) (hreuse : m.channelSlotReuseEnabled = true)
    (channelKey : String) (slot slot' : ℕ) :
    (m.noteChannelSlotLoaded channelKey slot).keyBySlot.get slot' =
      if slot' = slot then some (upperAscii channelKey)
      else if m.keyBySlot.get slot' = some (upperAscii channelKey) then none
      else m.keyBySlot.get slot' := by
  unfold noteChannelSlotLoaded
  rw [hreuse]
  show Table.get (Table.set _ slot _) slot' = _
  by_cases hslot : slot' = slot
  · rw [hslot, Table.get_set_self, if_pos rfl]
  rw [Table.get_set_of_ne _ _ hslot, if_neg hslot]
  cases hkey : m.slotByKey.get? (upperAscii channelKey) with
  | none =>
    rw [if_neg]
    intro heq
    rw [(h.inverse _ slot').mpr heq] at hkey
    cases hkey
  | some previous =>
    have hprevious := (h.inverse _ previous).mp hkey
    show Table.get (if previous ≠ slot then m.keyBySlot.erase previous else m.keyBySlot) slot' = _
    by_cases hsame : slot' = previous
    · rw [hsame] at hslot ⊢
      rw [if_pos hslot, Table.get_erase_self, if_pos hprevious]
    · have hother : m.keyBySlot.get slot' ≠ some (upperAscii channelKey) := by
        intro heq
        have hslot' := (h.inverse _ slot').mpr heq
        rw [hkey] at hslot'
        exact hsame (Option.some.inj hslot').symm
      rw [if_neg hother]
      split_ifs
      · exact Table.get_erase_of_ne _ hsame
      · rfl

/-- The channel that had the slot is forgotten. -/
theorem slotByKey_loaded (h : Faithful slots m) (hreuse : m.channelSlotReuseEnabled = true)
    (channelKey key : String) (slot : ℕ) :
    (m.noteChannelSlotLoaded channelKey slot).slotByKey.get? key =
      if key = upperAscii channelKey then some slot
      else if m.slotByKey.get? key = some slot then none
      else m.slotByKey.get? key := by
  unfold noteChannelSlotLoaded
  rw [hreuse]
  dsimp only
  rw [if_neg (by simp), OrderedDict.get?_set]
  by_cases hk : key = upperAscii channelKey
  · rw [if_pos hk, if_pos hk]
  rw [if_neg hk, if_neg hk]
  -- the slot has the key it had, the channel's own entry aside
  have hslot : ∀ displaced, displaced ≠ upperAscii channelKey →
      ((match m.slotByKey.get? (upperAscii channelKey) with
        | some previousSlot =>
          if previousSlot ≠ slot then m.keyBySlot.erase previousSlot else m.keyBySlot
        | none => m.keyBySlot).get slot = some displaced ↔
          m.slotByKey.get? displaced = some slot) := by
    intro displaced _
    rw [h.inverse]
    cases m.slotByKey.get? (upperAscii channelKey) with
    | none => exact Iff.rfl
    | some previous =>
      by_cases hp : previous = slot
      · simp [hp]
      · have hp' : slot ≠ previous := fun heq => hp heq.symm
        simp [hp, Table.get_erase_of_ne _ hp']
  generalize (match m.slotByKey.get? (upperAscii channelKey) with
    | some previousSlot =>
      if previousSlot ≠ slot then m.keyBySlot.erase previousSlot else m.keyBySlot
    | none => m.keyBySlot) = keyBySlot at hslot ⊢
  have hinner : (m.slotByKey.erase (upperAscii channelKey)).get? key = m.slotByKey.get? key :=
    OrderedDict.get?_erase_of_ne hk
  have hkeep := hslot key hk
  cases hd : keyBySlot.get slot with
  | none =>
    rw [hd] at hkeep
    have hne : ¬ m.slotByKey.get? key = some slot := by
      rw [← hkeep]
      simp
    rw [if_neg hne]
    exact hinner
  | some displaced =>
    rw [hd] at hkeep
    by_cases hdk : displaced = upperAscii channelKey
    · have hne : ¬ m.slotByKey.get? key = some slot := by
        rw [← hkeep, hdk]
        intro heq
        exact hk (Option.some.inj heq).symm
      simp only [hdk, ne_eq, not_true_eq_false, if_false]
      rw [if_neg hne]
      exact hinner
    · simp only [hdk, ne_eq, not_false_eq_true, if_true]
      rw [OrderedDict.get?_erase]
      by_cases hkd : key = displaced
      · rw [if_pos hkd, if_pos (hkeep.mp (by rw [hkd]))]
      · have hne : ¬ m.slotByKey.get? key = some slot := by
          rw [← hkeep]
          intro heq
          exact hkd (Option.some.inj heq).symm
        rw [if_neg hkd, if_neg hne]
        exact hinner

/-- **Loading.** A channel that the radio has loaded into a slot is cached there. -/
theorem Faithful.noteLoaded (h : Faithful slots m) (hreuse : m.channelSlotReuseEnabled = true)
    {channelKey : String} {bytes : Bytes} (hbytes : fromHex channelKey.toList = some bytes)
    {slot : ℕ} (hlt : slot < m.channelSendCacheCapacity) :
    Faithful (slots.set slot bytes) (m.noteChannelSlotLoaded channelKey slot) := by
  have hcap : (m.noteChannelSlotLoaded channelKey slot).channelSendCacheCapacity =
      m.channelSendCacheCapacity := by
    unfold noteChannelSlotLoaded
    split <;> rfl
  refine ⟨?_, ?_, ?_, ?_⟩
  · intro key slot'
    rw [slotByKey_loaded h hreuse, keyBySlot_loaded h hreuse]
    have hinv := h.inverse key slot'
    by_cases hk : key = upperAscii channelKey
    · rw [if_pos hk]
      by_cases hs : slot' = slot
      · rw [if_pos hs, hs, hk]
        exact ⟨fun _ => rfl, fun _ => rfl⟩
      · rw [if_neg hs]
        constructor
        · intro heq
          exact absurd (Option.some.inj heq).symm hs
        · intro heq
          split_ifs at heq with hother
          rw [hk] at heq
          exact absurd heq hother
    · rw [if_neg hk]
      by_cases hs : slot' = slot
      · rw [if_pos hs, hs]
        constructor
        · intro heq
          split_ifs at heq with hother
          exact absurd heq hother
        · intro heq
          exact absurd (Option.some.inj heq).symm hk
      · rw [if_neg hs]
        constructor
        · intro heq
          split_ifs at heq
          have hback := hinv.mp heq
          have hne : ¬ m.keyBySlot.get slot' = some (upperAscii channelKey) := by
            rw [hback]
            intro hsame
            exact hk (Option.some.inj hsame)
          rw [if_neg hne]
          exact hback
        · intro heq
          split_ifs at heq
          have hback := hinv.mpr heq
          have hne : ¬ m.slotByKey.get? key = some slot := by
            rw [hback]
            intro hsame
            exact hs (Option.some.inj hsame)
          rw [if_neg hne]
          exact hback
  · intro key slot' hk
    rw [slotByKey_loaded h hreuse] at hk
    split_ifs at hk with heq
    · rw [heq, upperAscii_upperAscii]
    · exact h.upper hk
  · intro key slot' hk
    rw [slotByKey_loaded h hreuse] at hk
    rw [hcap]
    split_ifs at hk
    · rw [← Option.some.inj hk]
      exact hlt
    · exact h.bounded hk
  · intro key slot' hk
    rw [slotByKey_loaded h hreuse] at hk
    split_ifs at hk with heq hother
    · obtain rfl := Option.some.inj hk
      refine ⟨bytes, ?_, Table.get_set_self ..⟩
      rw [heq, upperAscii, String.toList_ofList, fromHex_toUpper]
      exact hbytes
    · obtain ⟨b, hb, hslot⟩ := h.loaded hk
      refine ⟨b, hb, ?_⟩
      rw [Table.get_set_of_ne _ _ ?_]
      · exact hslot
      · rintro rfl
        exact hother hk

end RadioManager

end RtfmEv.MessageSend
