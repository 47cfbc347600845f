import RtfmEv.HostRepeater.Forwarding
import RtfmEv.Spam.Actions
import RtfmEv.Spam.BlockEdits

/-!
# No opinion is blocked for more than a week

A block on a text or on words, and a repeater block that also stops known people,
ends at most a week from now. The cap is applied where an end is written: by a new
block, a renewal, an extension, a change of the matching mode, new settings and
stored state; every other change leaves the end and what the cap depends on alone.
-/

namespace RtfmEv.Spam

open RtfmEv.Lib RtfmEv.HostRepeater

namespace Detector

variable {orders : BlockOrder → Prop} {drops : String → Block → Prop} {d d' : Detector} {b : Block}
  {key hop : String} {T : TextTools} {P : Primitives} {now seconds : ℚ}

/-- Every block that may last at most a week ends within a week of the clock. -/
def Capped (d : Detector) : Prop :=
  ∀ key b, d.blocks.get? key = some b → d.weekAtMost b = true →
    b.expires ≤ d.clock + maxPeopleBlockSeconds

/-! ### What the cap depends on -/

/-- Whether the cap applies depends on what is blocked, on the mode and on the settings. -/
theorem weekAtMost_congr {b' : Block} (hconfig : d'.config = d.config)
    (hbody : b'.body = b.body) (hmatch : b'.match = b.match) :
    d'.weekAtMost b' = d.weekAtMost b := by
  have hmode : d'.hopMode b' = d.hopMode b := by
    show b'.match.getD d'.config.tunables.hopMatchMode = b.match.getD d.config.tunables.hopMatchMode
    rw [hmatch, hconfig]
  unfold weekAtMost gated
  rw [hbody, hmode]
  cases b.body <;> rfl

theorem cap_eq (d : Detector) (b : Block) :
    d.cap b = { b with
      expires := if d.weekAtMost b then min b.expires (d.clock + maxPeopleBlockSeconds)
        else b.expires } := by
  unfold cap
  split_ifs <;> rfl

theorem cap_body (d : Detector) (b : Block) : (d.cap b).body = b.body := by
  rw [cap_eq]

theorem cap_match (d : Detector) (b : Block) : (d.cap b).match = b.match := by
  rw [cap_eq]

theorem cap_expires_le (h : d.weekAtMost (d.cap b) = true) :
    (d.cap b).expires ≤ d.clock + maxPeopleBlockSeconds := by
  rw [weekAtMost_congr rfl (cap_body d b) (cap_match d b)] at h
  unfold cap
  rw [if_pos h]
  exact min_le_right _ _

/-- What is changed after a cap, apart from the end, does not matter. -/
theorem expires_le_of_cap {b' : Block} (hbody : b'.body = (d.cap b).body)
    (hmatch : b'.match = (d.cap b).match) (hexpires : b'.expires = (d.cap b).expires)
    (h : d.weekAtMost b' = true) : b'.expires ≤ d.clock + maxPeopleBlockSeconds := by
  rw [weekAtMost_congr rfl hbody hmatch] at h
  rw [hexpires]
  exact cap_expires_le h

/-! ### Single changes -/

theorem capped_setBlock (h : Capped d)
    (hb : d.weekAtMost b = true → b.expires ≤ d.clock + maxPeopleBlockSeconds) :
    Capped (d.setBlock key b) := by
  intro k b' hget hweek
  replace hget : (d.blocks.set key b).get? k = some b' := hget
  rw [OrderedDict.get?_set] at hget
  split_ifs at hget
  · obtain rfl := Option.some.inj hget
    exact hb hweek
  · exact h k b' hget hweek

theorem newBlock_expires_le {o : BlockOrder}
    (h : d.weekAtMost (d.newBlock o) = true) :
    (d.newBlock o).expires ≤ d.clock + maxPeopleBlockSeconds := cap_expires_le h

/-- Renewing caps the new end, and what follows changes neither the end nor the body. -/
theorem renewedBlock_expires_le {o : BlockOrder}
    (h : d.weekAtMost (d.renewedBlock o b) = true) :
    (d.renewedBlock o b).expires ≤ d.clock + maxPeopleBlockSeconds := by
  unfold renewedBlock at h ⊢
  simp only at h ⊢
  split_ifs at h ⊢
  all_goals exact expires_le_of_cap (b := { b with expires := d.orderExpires o }) rfl rfl rfl h

theorem capped_addBlock (h : Capped d) (o : BlockOrder) : Capped (d.addBlock o) := by
  unfold addBlock
  split_ifs
  · exact h
  · cases hget : d.blocks.get? o.key with
    | none => exact capped_setBlock h newBlock_expires_le
    | some b =>
      show Capped (if _ then d.setBlock o.key (d.renewedBlock o b) else d)
      split_ifs
      · exact capped_setBlock h renewedBlock_expires_le
      · exact h

theorem Edit.capped (hedit : Edit orders drops d d') (h : Capped d) :
    Capped d' := by
  cases hedit with
  | other hblocks hclock hconfig =>
    intro key b hget hweek
    rw [hblocks] at hget
    rw [weekAtMost_congr hconfig rfl rfl] at hweek
    rw [hclock]
    exact h key b hget hweek
  | add _ => exact capped_addBlock h _
  | touch hget halike =>
    apply capped_setBlock h
    intro hweek
    rw [weekAtMost_congr rfl halike.body halike.match] at hweek
    rw [halike.expires]
    exact h _ _ hget hweek
  | drop _ =>
    intro key b hget hweek
    have hmem := OrderedDict.get?_eq_some_iff.mp hget
    exact h key b (OrderedDict.get?_eq_some_iff.mpr (List.mem_filter.mp hmem).1) hweek

theorem Edits.capped (hedits : Edits orders drops d d') (h : Capped d) :
    Capped d' := by
  induction hedits with
  | refl => exact h
  | tail _ hedit ih => exact hedit.capped ih

theorem Capped.later (h : Capped d) (hnow : d.clock ≤ now) : Capped { d with clock := now } := by
  intro key b hget hweek
  have hend : b.expires ≤ d.clock + maxPeopleBlockSeconds := h key b hget hweek
  show b.expires ≤ now + maxPeopleBlockSeconds
  linarith

/-! ### Settings and stored state -/

theorem capped_capAll (d : Detector) : Capped d.capAll := by
  intro key b hget hweek
  have hmem := OrderedDict.get?_eq_some_iff.mp hget
  obtain ⟨entry, _, hentry⟩ := List.mem_map.mp hmem
  obtain rfl : d.cap entry.2 = b := congrArg Prod.snd hentry
  exact cap_expires_le hweek

theorem capped_configure (d : Detector) (config : SpamConfig) : Capped (d.configure config) := by
  let set : Detector := { d with config := config }
  let kept := set.stepIf (Decidable.decide (d.tunables.dedupeScope ≠ set.tunables.dedupeScope))
    dropDedupe
  have hlists : Edits (fun _ => True) (fun _ _ => True) kept.capAll (d.configure config) :=
    edits_other rfl rfl rfl
  exact hlists.capped (capped_capAll kept)

theorem capped_load (d : Detector) (s : StoredState) : Capped (d.load s) := capped_capAll _

/-! ### Actions -/

theorem edits_suppress (d : Detector) (key : String) (until_ : ℚ) :
    Edits orders drops d (d.suppress key until_) := edits_other rfl rfl rfl

theorem edits_unsuppress (d : Detector) (key : String) :
    Edits orders drops d (d.unsuppress key) := edits_other rfl rfl rfl

theorem edits_release (d : Detector) (b : Block) : Edits orders drops d (d.release b) :=
  edits_other rfl rfl rfl

theorem edits_doUnblock (d : Detector) (key : String) (seconds : ℚ) (h : ∀ k b, drops k b) :
    Edits orders drops d (d.doUnblock key seconds) := by
  have hdropped : Edits orders drops d (d.dropBlock key) := edits_dropBlock (fun b _ => h key b)
  unfold doUnblock
  cases d.blocks.get? key with
  | none => exact hdropped.trans (edits_suppress _ _ _)
  | some b =>
    show Edits orders drops d (if _ then _ else if _ then _ else _)
    split_ifs
    · exact hdropped.trans (edits_release _ b)
    · exact hdropped
    · exact hdropped.trans (edits_suppress _ _ _)

theorem edits_doNotSpam (d : Detector) (sender : String) (matched : Option String)
    (h : ∀ k b, drops k b) : Edits orders drops d (d.doNotSpam sender matched) := by
  have htrusted : Edits orders drops d (if sender = "" then d
      else { d with allowSenders := addIfNew d.allowSenders sender }) := by
    split_ifs
    · exact .refl
    · exact edits_other rfl rfl rfl
  refine htrusted.trans ?_
  unfold doNotSpam
  generalize (if sender = "" then d
    else { d with allowSenders := addIfNew d.allowSenders sender }) = trusted
  cases matched with
  | none => exact .refl
  | some key =>
    show Edits orders drops trusted (if _ then _ else trusted)
    split_ifs
    · exact (edits_dropBlock (fun b _ => h key b)).trans (edits_suppress _ _ _)
    · exact .refl

theorem edits_doClearAuto (d : Detector) (h : ∀ k b, drops k b) :
    Edits orders drops d d.doClearAuto := by
  refine edits_foldl (fun d entry _ => ?_) d
  have hdropped : Edits orders drops d (d.dropBlock entry.1) :=
    edits_dropBlock (fun b _ => h entry.1 b)
  unfold clearOne
  split_ifs
  · exact .refl
  · exact hdropped.trans (edits_release _ entry.2)
  · exact hdropped.trans (edits_suppress _ _ _)

theorem edits_doLockdown (d : Detector) {minutes : ℚ} (horders : ∀ o, orders o)
    (h : ∀ k b, drops k b) (hd' : d.doLockdown minutes = .ok d') : Edits orders drops d d' := by
  have hdropped : Edits orders drops d (d.dropBlock lockdownKey) :=
    edits_dropBlock (fun b _ => h _ b)
  unfold doLockdown at hd'
  simp only at hd'
  split_ifs at hd'
  · obtain rfl := Except.ok.inj hd'
    exact hdropped.trans (edits_suppress _ _ _)
  · obtain rfl := Except.ok.inj hd'
    exact hdropped
  · obtain rfl := Except.ok.inj hd'
    exact (hdropped.trans (edits_unsuppress _ _)).trans (.single (.add (horders _)))

/-- A repeater that the user blocks. -/
theorem edits_doBlockHop (d : Detector) {ttl : Option ℚ}
    {«match» channel : Option String} (horders : ∀ o, orders o)
    (h : ∀ k b, drops k b) (hd' : d.doBlockHop T hop ttl «match» channel = .ok d') :
    Edits orders drops d d' := by
  unfold doBlockHop at hd'
  cases hnorm : normaliseHop T hop with
  | none => simp [hnorm] at hd'
  | some hopHash =>
    rw [hnorm] at hd'
    simp only at hd'
    split_ifs at hd'
    cases hscope : d.hopScope T channel with
    | error refusal => simp [hscope] at hd'
    | ok scope =>
      rw [hscope] at hd'
      obtain rfl := Except.ok.inj hd'
      let allowed : Detector := { d.unsuppress ("hop:" ++ hopHash) with
        allowHops := d.allowHops.filter (fun a => !hopsRelated a hopHash) }
      have hallowed : Edits orders drops d allowed := edits_other rfl rfl rfl
      have hdropped : Edits orders drops allowed (allowed.dropBlock ("hop:" ++ hopHash)) :=
        edits_dropBlock (fun b _ => h _ b)
      exact ((hallowed.trans hdropped).trans (.single (.add (horders _)))).trans
        (edits_learnPaths _ _)

/-- A block that the user makes replaces what was under its key. -/
theorem edits_manualText (d : Detector)
    {text channel reason : String} {ttl : Option ℚ} (horders : ∀ o, orders o)
    (h : ∀ k b, drops k b) (hd' : d.manualText P T text channel reason ttl = .ok d') :
    Edits orders drops d d' := by
  unfold manualText at hd'
  split_ifs at hd'
  obtain rfl := Except.ok.inj hd'
  exact ((edits_unsuppress d _).trans (edits_dropBlock (fun b _ => h _ b))).trans
    (.single (.add (horders _)))

theorem get?_of_existing
    (h : d.existing key = .ok b) : d.blocks.get? key = some b := by
  unfold existing at h
  cases hget : d.blocks.get? key with
  | none => simp [hget] at h
  | some b' =>
    rw [hget] at h
    rw [Except.ok.inj h]

theorem get?_of_existingHop
    (h : d.existingHop key = .ok b) : d.blocks.get? key = some b := by
  unfold existingHop at h
  cases hget : d.blocks.get? key with
  | none => simp [hget] at h
  | some b' =>
    rw [hget] at h
    simp only at h
    split_ifs at h
    rw [Except.ok.inj h]

theorem get?_of_existingSuffix
    (h : d.existingSuffix key = .ok b) : d.blocks.get? key = some b := by
  unfold existingSuffix at h
  cases hget : d.blocks.get? key with
  | none => simp [hget] at h
  | some b' =>
    rw [hget] at h
    simp only at h
    split_ifs at h
    rw [Except.ok.inj h]

theorem edits_doAllowOrigin (d : Detector)
    (hd' : d.doAllowOrigin T key hop = .ok d') : Edits orders drops d d' := by
  unfold doAllowOrigin at hd'
  cases hget : d.existingSuffix key with
  | error refusal => simp [hget] at hd'
  | ok b =>
    rw [hget] at hd'
    cases hnorm : normaliseHop T hop with
    | none => simp [hnorm] at hd'
    | some hopHash =>
      rw [hnorm] at hd'
      obtain rfl := Except.ok.inj hd'
      exact .single (.touch (get?_of_existingSuffix hget)
        ⟨rfl, rfl, rfl, rfl, rfl, rfl, rfl, rfl⟩)

theorem edits_doUnallowOrigin (d : Detector)
    (hd' : d.doUnallowOrigin T key hop = .ok d') : Edits orders drops d d' := by
  unfold doUnallowOrigin at hd'
  cases hget : d.existingSuffix key with
  | error refusal => simp [hget] at hd'
  | ok b =>
    rw [hget] at hd'
    cases hnorm : normaliseHop T hop with
    | none => simp [hnorm] at hd'
    | some hopHash =>
      rw [hnorm] at hd'
      obtain rfl := Except.ok.inj hd'
      exact .single (.touch (get?_of_existingSuffix hget)
        ⟨rfl, rfl, rfl, rfl, rfl, rfl, rfl, rfl⟩)

theorem edits_doAllowHop (d : Detector)
    (h : ∀ k b, drops k b) (hd' : d.doAllowHop T hop = .ok d') : Edits orders drops d d' := by
  unfold doAllowHop at hd'
  cases hnorm : normaliseHop T hop with
  | none => simp [hnorm] at hd'
  | some hopHash =>
    rw [hnorm] at hd'
    obtain rfl := Except.ok.inj hd'
    have hlisted : Edits orders drops d
        { d with allowHops := addIfNew d.allowHops hopHash } := edits_other rfl rfl rfl
    exact hlisted.trans (.single (.drop (fun k b _ _ => h k b)))

theorem edits_doAllowText (d : Detector) {text : String}
    (h : ∀ k b, drops k b) (hd' : d.doAllowText T text = .ok d') : Edits orders drops d d' := by
  unfold doAllowText at hd'
  simp only at hd'
  split_ifs at hd'
  obtain rfl := Except.ok.inj hd'
  have hlisted : Edits orders drops d
      { d with allowTexts := addIfNew d.allowTexts (strip text) } := edits_other rfl rfl rfl
  exact hlisted.trans (.single (.drop (fun k b _ _ => h k b)))

/-- An extension caps the new end, and then at most makes the block the user's own. -/
theorem extendedBlock_expires_le {permanent : Bool}
    (h : d.weekAtMost (d.extendedBlock b seconds permanent) = true) :
    (d.extendedBlock b seconds permanent).expires ≤ d.clock + maxPeopleBlockSeconds := by
  unfold extendedBlock at h ⊢
  generalize (if permanent then d.clock + permanentSeconds
    else max b.expires d.clock + seconds) = e at h ⊢
  simp only at h ⊢
  split_ifs at h ⊢ with hsource
  all_goals exact expires_le_of_cap (b := { b with expires := e }) rfl rfl rfl h

theorem exists_of_map_eq_ok {ε α β : Type} {x : Except ε α} {f : α → β} {c : β}
    (h : x.map f = .ok c) : ∃ a, x = .ok a ∧ f a = c := by
  cases x with
  | error err => exact absurd h (by simp [Except.map])
  | ok a => exact ⟨a, rfl, Except.ok.inj h⟩

theorem capped_doExtend (h : Capped d)
    {permanent : Bool} (hd' : d.doExtend key seconds permanent = .ok d') :
    Capped d' := by
  unfold doExtend at hd'
  cases hget : d.existing key with
  | error refusal => simp [hget] at hd'
  | ok b =>
    rw [hget] at hd'
    simp only at hd'
    split_ifs at hd'
    obtain rfl := Except.ok.inj hd'
    exact capped_setBlock h extendedBlock_expires_le

/-- A new matching mode can bring a block under the cap, and then it is applied. -/
theorem capped_doHopMode (h : Capped d) {«match» : Option String}
    (hd' : d.doHopMode key «match» = .ok d') : Capped d' := by
  unfold doHopMode at hd'
  cases hget : d.existingHop key with
  | error refusal => simp [hget] at hd'
  | ok b =>
    rw [hget] at hd'
    simp only at hd'
    split_ifs at hd'
    obtain rfl := Except.ok.inj hd'
    let changed := d.setBlock key (d.cap { b with «match» := «match».bind hopMatchOf })
    have hchanged : Capped changed := capped_setBlock h cap_expires_le
    have hlearnt : Edits (fun _ => True) (fun _ _ => True) changed
        (changed.learnPaths d.events) := edits_learnPaths _ _
    exact hlearnt.capped hchanged

/-- **Every action** keeps the cap. -/
theorem capped_act (h : Capped d) {a : Action} (hd' : d.act P T a = .ok d') : Capped d' := by
  suffices hdone : Capped d' ∨ Edits (fun _ => True) (fun _ _ => True) d d' by
    rcases hdone with hcapped | hedits
    · exact hcapped
    · exact hedits.capped h
  have hany : ∀ k b, (fun (_ : String) (_ : Block) => True) k b := fun _ _ => trivial
  have hall : ∀ o, (fun (_ : BlockOrder) => True) o := fun _ => trivial
  cases a with
  | unblock key seconds =>
    obtain rfl := Except.ok.inj hd'
    exact Or.inr (edits_doUnblock d key seconds hany)
  | lockdown minutes => exact Or.inr (edits_doLockdown d hall hany hd')
  | blockHop hop ttl «match» channel => exact Or.inr (edits_doBlockHop d hall hany hd')
  | blockText text channel ttl => exact Or.inr (edits_manualText d hall hany hd')
  | markSpam text channel ttl sender =>
    replace hd' : d.doMarkSpam P T text channel ttl sender = .ok d' := hd'
    unfold doMarkSpam at hd'
    simp only at hd'
    split_ifs at hd' with hknown
    all_goals exact Or.inr (edits_manualText d hall hany hd')
  | notSpam sender matched =>
    obtain rfl := Except.ok.inj hd'
    exact Or.inr (edits_doNotSpam d sender matched hany)
  | extend key seconds permanent => exact Or.inl (capped_doExtend h hd')
  | blockAction key observe =>
    obtain ⟨b, hb, rfl⟩ := exists_of_map_eq_ok hd'
    exact Or.inr (.single (.touch (get?_of_existing hb) ⟨rfl, rfl, rfl, rfl, rfl, rfl, rfl, rfl⟩))
  | hopMode key «match» => exact Or.inl (capped_doHopMode h hd')
  | forgetPath key path =>
    obtain ⟨b, hb, rfl⟩ := exists_of_map_eq_ok hd'
    right
    split_ifs
    · exact .single (.touch (get?_of_existingHop hb) ⟨rfl, rfl, rfl, rfl, rfl, rfl, rfl, rfl⟩)
    · exact .refl
  | allowOrigin key hop => exact Or.inr (edits_doAllowOrigin d hd')
  | unallowOrigin key hop => exact Or.inr (edits_doUnallowOrigin d hd')
  | allowHop hop => exact Or.inr (edits_doAllowHop d hany hd')
  | forgetKnown name =>
    replace hd' : d.doForgetKnown name = .ok d' := hd'
    unfold doForgetKnown at hd'
    split_ifs at hd'
    obtain rfl := Except.ok.inj hd'
    exact Or.inr (edits_other rfl rfl rfl)
  | allowSender sender =>
    replace hd' : d.doAllowSender sender = .ok d' := hd'
    unfold doAllowSender at hd'
    split_ifs at hd'
    obtain rfl := Except.ok.inj hd'
    exact Or.inr (edits_other rfl rfl rfl)
  | allowText text =>
    replace hd' : d.doAllowText T text = .ok d' := hd'
    exact Or.inr (edits_doAllowText d hany hd')
  | clearAuto =>
    obtain rfl := Except.ok.inj hd'
    exact Or.inr (edits_doClearAuto d hany)
  | resetLearned =>
    obtain rfl := Except.ok.inj hd'
    have hcleared : Edits (fun _ => True) (fun _ _ => True) (d.load {}) d.doResetLearned :=
      edits_other rfl rfl rfl
    exact Or.inl (hcleared.capped (capped_load d {}))
  | watchAgain | unallowHop | unallowSender | unallowText | clearSuppressed | clearHeld
  | clearMessages | forgetSource =>
    obtain rfl := Except.ok.inj hd'
    exact Or.inr (edits_other rfl rfl rfl)

theorem capped_call (h : Capped d)
    (hnow : d.clock ≤ now) (c : Call) : Capped (d.call P T now c) := by
  have hlater : Capped { d with clock := now } := h.later hnow
  cases c with
  | configure config => exact capped_configure _ config
  | ingest message =>
    have hedits : Edits (fun _ => True) (fun _ _ => True) { d with clock := now }
        (d.call P T now (.ingest message)) := edits_ingest _ T message
    exact hedits.capped hlater
  | decide judged freshSeconds =>
    have hedits : Edits automatic (fun _ _ => True) { d with clock := now }
        (d.call P T now (.decide judged freshSeconds)) :=
      edits_decide _ P T judged freshSeconds (fun _ _ => trivial)
    exact hedits.capped hlater
  | load state => exact capped_load _ state
  | action a =>
    show Capped ((({ d with clock := now } : Detector).act P T a).toOption.getD _)
    cases hact : ({ d with clock := now } : Detector).act P T a with
    | error refusal => exact hlater
    | ok d' => exact capped_act hlater hact

theorem capped_of_reachable
    (h : Reachable P T d) : Capped d := by
  induction h with
  | start config now =>
    intro key b hget
    exact absurd hget (by simp [start, OrderedDict.get?, OrderedDict.empty])
  | call _ hnow c ih => exact capped_call ih hnow c

/-- A stored block on a text that would last ten years. -/
def tenYears : Block where
  key := "text:hello"
  body := .text "hello everyone"
  channel := none
  reason := "manual"
  source := .manual
  created := 0
  expires := 315360000

end Detector

end RtfmEv.Spam
