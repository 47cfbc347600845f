import RtfmEv.Contacts.Histories

/-!
# When promotion commutes with recording

A history is recorded partly under a placeholder and partly under the full key,
the placeholder is promoted, and the full key's rows are compared with those of
the same history recorded under the full key alone. The merge restates the
recording column by column, and leaves some columns out: the primary arrivals
and the best signals of the placeholder's paths. What is compared here is exact:
the rows agree for just those histories in which nothing was lost.
-/

namespace RtfmEv.Contacts

open RtfmEv.Lib

/-! ## What a history says of one row -/

/-- The entries of a history that `f` selects, with their sides. -/
def tagged {α β : Type*} (f : α → Option β) (l : List (Side × α)) : List (Side × β) :=
  l.filterMap (fun e => (f e.2).map (fun x => (e.1, x)))

variable {α β : Type*} {obs : List (Side × Observation)} {db : Db} {keyOf : Side → Hex} {K p : Hex}

theorem on_tagged (f : α → Option β) (s : Side) (l : List (Side × α)) :
    on s (tagged f l) = (on s l).filterMap f := by
  induction l with
  | nil => rfl
  | cons e l ih =>
    obtain ⟨t, a⟩ := e
    unfold tagged at ih ⊢
    by_cases ht : t = s
    · subst ht
      rw [on_cons_self]
      cases hf : f a with
      | none => rw [List.filterMap_cons_none (by rw [hf]; rfl), List.filterMap_cons_none hf, ih]
      | some x =>
        rw [List.filterMap_cons_some (by rw [hf]; rfl), List.filterMap_cons_some hf,
          on_cons_self, ih]
    · rw [on_cons_of_ne ht]
      cases hf : f a with
      | none => rw [List.filterMap_cons_none (by rw [hf]; rfl), ih]
      | some x => rw [List.filterMap_cons_some (by rw [hf]; rfl), on_cons_of_ne ht, ih]

theorem map_snd_tagged (f : α → Option β) (l : List (Side × α)) :
    (tagged f l).map Prod.snd = (l.map Prod.snd).filterMap f := by
  unfold tagged
  rw [List.map_filterMap, List.filterMap_map]
  congr 1
  funext e
  simp

/-- The history's operations under a key, when the left side is recorded there. -/
theorem opsAt_left (h : keyOf .right ≠ keyOf .left) (H : List (Side × Op)) :
    opsAt keyOf (keyOf .left) H = on .left H := by
  unfold opsAt on
  congr 1
  apply List.filter_congr
  intro e _
  obtain ⟨s, op⟩ := e
  cases s with
  | left => simp
  | right => simpa using h

theorem opsAt_right (h : keyOf .right ≠ keyOf .left) (H : List (Side × Op)) :
    opsAt keyOf (keyOf .right) H = on .right H := by
  unfold opsAt on
  congr 1
  apply List.filter_congr
  intro e _
  obtain ⟨s, op⟩ := e
  cases s with
  | left => simpa using h.symm
  | right => simp

theorem opsAt_const (k : Hex) (H : List (Side × Op)) : opsAt (fun _ => k) k H = H.map Prod.snd := by
  simp [opsAt]

/-! ## Paths -/

/-- Each signal of the placeholder's observations is matched under the full key. -/
def SignalKept (signal : Observation → Option ℚ) (obs : List (Side × Observation)) : Prop :=
  ∀ r ∈ (on .right obs).filterMap signal, ∃ r' ∈ (on .left obs).filterMap signal, r ≤ r'

/-- The primary arrivals of the placeholder's observations are not missed: there
are no observations, or a single relay copy that is alone, or each arrival is
matched under the full key, where a single observation is primary itself. -/
def PrimaryKept (obs : List (Side × Observation)) : Prop :=
  on .right obs = [] ∨
    (on .left obs = [] ∧ ∃ o, on .right obs = [o] ∧ o.isNewPacket = false) ∨
      (on .left obs ≠ [] ∧
        (∀ o ∈ on .right obs, ∃ o' ∈ on .left obs, o.primaryTime ≤ o'.primaryTime) ∧
        ∀ o, on .left obs = [o] → o.isNewPacket = true)

/-- The times of observations, with their sides. -/
def timesOf (obs : List (Side × Observation)) : List (Side × ℤ) :=
  tagged (fun o => some o.timestamp) obs

/-- Nothing of a path is lost. -/
structure PathKept (obs : List (Side × Observation)) : Prop where
  first : FirstIsLeast (timesOf obs)
  primary : PrimaryKept obs
  rssi : SignalKept Observation.rssi obs
  snr : SignalKept Observation.snr obs

/-- The full key's row of a path after the promotion. -/
def promotedPath (obs : List (Side × Observation)) : Option PathRow :=
  match pathRow (on .right obs) with
  | none => pathRow (on .left obs)
  | some moved => some (OrderedDict.joinRow freshPath mergePath (pathRow (on .left obs)) moved)

theorem filterMap_some_comp (f : α → β) (l : List α) :
    l.filterMap (fun a => some (f a)) = l.map f :=
  congrFun List.filterMap_eq_map' l

theorem lastPrimary_eq_none_iff {obs : List Observation} (h : obs ≠ []) :
    lastPrimary obs = none ↔ ∃ o, obs = [o] ∧ o.isNewPacket = false := by
  obtain ⟨a, l, rfl⟩ := List.exists_cons_of_ne_nil h
  cases l with
  | nil =>
    show a.primarySeen = none ↔ _
    rw [Observation.primarySeen]
    cases hnew : a.isNewPacket with
    | true =>
      refine iff_of_false (by simp) ?_
      rintro ⟨o, ho, hrelay⟩
      rw [List.singleton_inj.mp ho, hrelay] at hnew
      cases hnew
    | false => exact iff_of_true rfl ⟨a, rfl, hnew⟩
  | cons b l =>
    refine iff_of_false ?_ ?_
    · intro hnone
      change ((a :: b :: l).map Observation.primaryTime).max? = none at hnone
      have hnil := List.max?_eq_none_iff.mp hnone
      cases hnil
    · rintro ⟨o, ho, -⟩
      cases ho

theorem max?_filterMap_eq_none_iff {signal : Observation → Option ℚ} (hleft : on .left obs = []) :
    ((on .right obs).filterMap signal).max? = none ↔ SignalKept signal obs := by
  rw [List.max?_eq_none_iff, SignalKept, hleft]
  constructor
  · intro hnil r hr
    rw [hnil] at hr
    cases hr
  · intro h
    apply List.eq_nil_iff_forall_not_mem.mpr
    intro r hr
    obtain ⟨r', hr', -⟩ := h r hr
    cases hr'

theorem timesOf_all (obs : List (Side × Observation)) :
    (timesOf obs).map Prod.snd = (obs.map Prod.snd).map Observation.timestamp := by
  rw [timesOf, map_snd_tagged, filterMap_some_comp]

theorem timesOf_on (s : Side) (obs : List (Side × Observation)) :
    on s (timesOf obs) = (on s obs).map Observation.timestamp := by
  rw [timesOf, on_tagged, filterMap_some_comp]

theorem firstIsLeast_iff_times (obs : List (Side × Observation)) :
    Option.merge min ((on .left obs).map Observation.timestamp).head?
        ((on .right obs).map Observation.timestamp).head? =
      ((obs.map Prod.snd).map Observation.timestamp).head? ↔ FirstIsLeast (timesOf obs) := by
  rw [← merge_min_head?_iff, timesOf_on, timesOf_on, timesOf_all]

/-- The largest signal of all is the full key's when the placeholder's are matched. -/
theorem max?_signal_iff (signal : Observation → Option ℚ) (obs : List (Side × Observation)) :
    ((on .left obs).filterMap signal).max? = ((obs.map Prod.snd).filterMap signal).max? ↔
      SignalKept signal obs := by
  have hall := max?_map_snd (tagged signal obs)
  rw [map_snd_tagged, on_tagged, on_tagged] at hall
  rw [hall, eq_comm, merge_max?_eq_left_iff]
  rfl

/-- The primary arrival of all is the full key's when the placeholder's are matched
and the full key has one to show. -/
theorem lastPrimary_iff (hleft : on .left obs ≠ []) (hright : on .right obs ≠ []) :
    lastPrimary (on .left obs) = lastPrimary (obs.map Prod.snd) ↔ PrimaryKept obs := by
  have hkept : PrimaryKept obs ↔
      (∀ o ∈ on .right obs, ∃ o' ∈ on .left obs, o.primaryTime ≤ o'.primaryTime) ∧
        ∀ o, on .left obs = [o] → o.isNewPacket = true := by
    unfold PrimaryKept
    simp only [hleft, hright, false_and, false_or, ne_eq, not_false_eq_true, true_and]
  have hlen := length_on_add obs
  have hmany : lastPrimary (obs.map Prod.snd) =
      ((obs.map Prod.snd).map Observation.primaryTime).max? := by
    have hl := List.length_pos_of_ne_nil hleft
    have hr := List.length_pos_of_ne_nil hright
    rcases hobs : obs.map Prod.snd with _ | ⟨a, _ | ⟨b, l⟩⟩
    · rw [hobs, List.length_nil] at hlen
      omega
    · rw [hobs, List.length_singleton] at hlen
      omega
    · rfl
  have hall := max?_map_snd (tagged (fun o => some o.primaryTime) obs)
  rw [map_snd_tagged, on_tagged, on_tagged, filterMap_some_comp, filterMap_some_comp,
    filterMap_some_comp] at hall
  have hmatched : ((on .left obs).map Observation.primaryTime).max? =
        ((obs.map Prod.snd).map Observation.primaryTime).max? ↔
      ∀ o ∈ on .right obs, ∃ o' ∈ on .left obs, o.primaryTime ≤ o'.primaryTime := by
    rw [hall, eq_comm, merge_max?_eq_left_iff]
    simp only [List.mem_map, exists_exists_and_eq_and, forall_exists_index, and_imp,
      forall_apply_eq_imp_iff₂]
  rw [hkept, hmany]
  rcases hobs : on .left obs with _ | ⟨a, _ | ⟨b, l⟩⟩
  · exact absurd hobs hleft
  · rw [hobs] at hmatched
    rw [← hmatched]
    show a.primarySeen = _ ↔ _
    cases hnew : a.isNewPacket with
    | true =>
      have hsame : a.primarySeen = ([a].map Observation.primaryTime).max? := by
        simp [Observation.primarySeen, Observation.primaryTime, hnew]
      rw [hsame]
      refine ⟨fun h => ⟨h, ?_⟩, fun h => h.1⟩
      intro o ho
      rw [← List.singleton_inj.mp ho, hnew]
    | false =>
      refine iff_of_false ?_ ?_
      · rw [Observation.primarySeen, hnew, hall, hobs]
        intro h
        cases hmax : ((on .right obs).map Observation.primaryTime).max? with
        | none | some m =>
          rw [hmax] at h
          cases h
      · intro h
        have hcontra := h.2 a rfl
        rw [hnew] at hcontra
        cases hcontra
  · rw [hobs] at hmatched
    show ((a :: b :: l).map Observation.primaryTime).max? = _ ↔ _
    rw [hmatched]
    refine ⟨fun h => ⟨h, ?_⟩, fun h => h.1⟩
    intro o ho
    cases ho

theorem PathKept.of_right_nil (hright : on .right obs = []) : PathKept obs := by
  have hall := map_snd_of_right_nil hright
  have hfirst := firstIsLeast_iff_times obs
  rw [hright, hall] at hfirst
  refine ⟨hfirst.mp ?_, Or.inl hright, ?_, ?_⟩
  · cases ((on .left obs).map Observation.timestamp).head? <;> rfl
  · intro r hr
    rw [hright] at hr
    cases hr
  · intro r hr
    rw [hright] at hr
    cases hr

/-- **A path comes through the promotion** just when nothing of it is lost. -/
theorem promotedPath_eq_iff (obs : List (Side × Observation)) :
    promotedPath obs = pathRow (obs.map Prod.snd) ↔ PathKept obs := by
  unfold promotedPath
  have hfirst := firstIsLeast_iff_times obs
  by_cases hright : on .right obs = []
  · -- nothing under the placeholder
    have hkept := PathKept.of_right_nil hright
    rw [hright, map_snd_of_right_nil hright]
    exact iff_of_true rfl hkept
  · obtain ⟨moved, hmoved⟩ :=
      Option.ne_none_iff_exists'.mp (fun h => hright (pathRow_eq_none_iff.mp h))
    have hprimaryP := pathRow_lastPrimarySeen (on .right obs)
    have hrssiP := pathRow_bestRssi (on .right obs)
    have hsnrP := pathRow_bestSnr (on .right obs)
    rw [hmoved] at hprimaryP hrssiP hsnrP ⊢
    by_cases hleft : on .left obs = []
    · -- nothing under the full key: the row is inserted without its signal columns
      have hall := map_snd_of_left_nil hleft
      rw [hall] at hfirst
      rw [hall, hmoved, hleft]
      rw [hleft] at hfirst
      have hone : some (freshPath moved) = some moved ↔
          moved.lastPrimarySeen = none ∧ moved.bestRssi = none ∧ moved.bestSnr = none := by
        rw [Option.some.injEq]
        constructor
        · intro h
          exact ⟨(congrArg PathRow.lastPrimarySeen h).symm, (congrArg PathRow.bestRssi h).symm,
            (congrArg PathRow.bestSnr h).symm⟩
        · rintro ⟨hp, hr, hs⟩
          exact pathRow_ext rfl rfl hp.symm rfl hr.symm hs.symm
      show some (freshPath moved) = some moved ↔ _
      have hp : moved.lastPrimarySeen = none ↔ PrimaryKept obs := by
        have hbind : moved.lastPrimarySeen = lastPrimary (on .right obs) := hprimaryP
        rw [hbind, lastPrimary_eq_none_iff hright]
        constructor
        · intro h
          exact Or.inr (Or.inl ⟨hleft, h⟩)
        · rintro (h | ⟨-, h⟩ | ⟨h, -⟩)
          · exact absurd h hright
          · exact h
          · exact absurd hleft h
      have hr : moved.bestRssi = none ↔ SignalKept Observation.rssi obs := by
        have hbind : moved.bestRssi = ((on .right obs).filterMap Observation.rssi).max? := hrssiP
        rw [hbind, max?_filterMap_eq_none_iff hleft]
      have hs : moved.bestSnr = none ↔ SignalKept Observation.snr obs := by
        have hbind : moved.bestSnr = ((on .right obs).filterMap Observation.snr).max? := hsnrP
        rw [hbind, max?_filterMap_eq_none_iff hleft]
      rw [hone, hp, hr, hs]
      constructor
      · rintro ⟨hp, hr, hs⟩
        refine ⟨hfirst.mp ?_, hp, hr, hs⟩
        cases ((on .right obs).map Observation.timestamp).head? <;> rfl
      · intro h
        exact ⟨h.primary, h.rssi, h.snr⟩
    · -- rows on both sides are merged
      obtain ⟨kept, hkept⟩ :=
        Option.ne_none_iff_exists'.mp (fun h => hleft (pathRow_eq_none_iff.mp h))
      have hne : obs.map Prod.snd ≠ [] := by
        intro hnil
        have hlen := length_on_add obs
        rw [hnil, List.length_nil] at hlen
        exact hleft (List.length_eq_zero_iff.mp (by omega))
      obtain ⟨all, hall⟩ :=
        Option.ne_none_iff_exists'.mp (fun h => hne (pathRow_eq_none_iff.mp h))
      obtain ⟨hfirstF, hlastF⟩ := pathRow_times (on .left obs)
      obtain ⟨hfirstP, hlastP⟩ := pathRow_times (on .right obs)
      obtain ⟨hfirstD, hlastD⟩ := pathRow_times (obs.map Prod.snd)
      have hcountF := pathRow_heardCount (on .left obs)
      have hcountP := pathRow_heardCount (on .right obs)
      have hcountD := pathRow_heardCount (obs.map Prod.snd)
      have hprimaryF := pathRow_lastPrimarySeen (on .left obs)
      have hprimaryD := pathRow_lastPrimarySeen (obs.map Prod.snd)
      have hrssiF := pathRow_bestRssi (on .left obs)
      have hrssiD := pathRow_bestRssi (obs.map Prod.snd)
      have hsnrF := pathRow_bestSnr (on .left obs)
      have hsnrD := pathRow_bestSnr (obs.map Prod.snd)
      rw [hkept] at hfirstF hlastF hcountF hprimaryF hrssiF hsnrF
      rw [hmoved] at hfirstP hlastP hcountP
      rw [hall] at hfirstD hlastD hcountD hprimaryD hrssiD hsnrD
      have hmaxtime := max?_map_snd (timesOf obs)
      rw [timesOf_on, timesOf_on, timesOf_all, ← hlastF, ← hlastP, ← hlastD] at hmaxtime
      have hlast : all.lastSeen = max kept.lastSeen moved.lastSeen := Option.some.inj hmaxtime
      have hcount : all.heardCount = kept.heardCount + moved.heardCount := by
        have hlen := length_on_add obs
        rw [← hcountF, ← hcountP, ← hcountD] at hlen
        exact hlen.symm
      rw [← hfirstF, ← hfirstP, ← hfirstD] at hfirst
      have hf : min kept.firstSeen moved.firstSeen = all.firstSeen ↔ FirstIsLeast (timesOf obs) := by
        rw [← hfirst]
        exact (Option.some.injEq _ _).symm.to_iff
      have hp : kept.lastPrimarySeen = all.lastPrimarySeen ↔ PrimaryKept obs := by
        rw [← lastPrimary_iff hleft hright, ← hprimaryF, ← hprimaryD]
        rfl
      have hr : kept.bestRssi = all.bestRssi ↔ SignalKept Observation.rssi obs := by
        rw [← max?_signal_iff, ← hrssiF, ← hrssiD]
        rfl
      have hs : kept.bestSnr = all.bestSnr ↔ SignalKept Observation.snr obs := by
        rw [← max?_signal_iff, ← hsnrF, ← hsnrD]
        rfl
      rw [hkept, hall]
      show some (mergePath kept moved) = some all ↔ _
      rw [Option.some.injEq]
      constructor
      · intro h
        subst h
        exact ⟨hf.mp rfl, hp.mp rfl, hr.mp rfl, hs.mp rfl⟩
      · intro h
        exact pathRow_ext (hf.mpr h.first) hlast.symm (hp.mpr h.primary) hcount.symm (hr.mpr h.rssi)
          (hs.mpr h.snr)

/-! ## Names -/

/-- The full key's row of a name after the promotion. -/
def promotedName (times : List (Side × ℤ)) : Option NameRow :=
  match nameRow (on .right times) with
  | none => nameRow (on .left times)
  | some moved => some (OrderedDict.joinRow id mergeName (nameRow (on .left times)) moved)

theorem nameRow_ext {r r' : Option NameRow}
    (h₁ : r.map NameRow.firstSeen = r'.map NameRow.firstSeen)
    (h₂ : r.map NameRow.lastSeen = r'.map NameRow.lastSeen) : r = r' := by
  cases r with
  | none =>
    cases r' with
    | none => rfl
    | some r' => cases h₁
  | some r =>
    cases r' with
    | none => cases h₁
    | some r' =>
      have hf : r.firstSeen = r'.firstSeen := Option.some.inj h₁
      have hl : r.lastSeen = r'.lastSeen := Option.some.inj h₂
      obtain ⟨_, _⟩ := r
      obtain ⟨_, _⟩ := r'
      simp_all

/-- **A name comes through the promotion** just when the first sight of it was not
later than the first on the other side. -/
theorem promotedName_eq_iff (times : List (Side × ℤ)) :
    promotedName times = nameRow (times.map Prod.snd) ↔ FirstIsLeast times := by
  obtain ⟨hfirstF, hlastF⟩ := nameRow_eq (on .left times)
  obtain ⟨hfirstP, hlastP⟩ := nameRow_eq (on .right times)
  obtain ⟨hfirstD, hlastD⟩ := nameRow_eq (times.map Prod.snd)
  have hfirst : (promotedName times).map NameRow.firstSeen =
      Option.merge min (on .left times).head? (on .right times).head? := by
    rw [← hfirstF, ← hfirstP, promotedName]
    cases nameRow (on .right times) with
    | none => cases nameRow (on .left times) <;> rfl
    | some moved => cases nameRow (on .left times) <;> rfl
  have hlast : (promotedName times).map NameRow.lastSeen =
      Option.merge max (on .left times).max? (on .right times).max? := by
    rw [← hlastF, ← hlastP, promotedName]
    cases nameRow (on .right times) with
    | none => cases nameRow (on .left times) <;> rfl
    | some moved => cases nameRow (on .left times) <;> rfl
  rw [← merge_min_head?_iff, ← hfirst, ← hfirstD]
  constructor
  · intro h
    rw [h]
  · intro h
    apply nameRow_ext h
    rw [hlast, hlastD, max?_map_snd]

/-! ## The promotion of one placeholder -/

/-- The placeholder `p` and the full key `K` before anything is recorded under
them: `p` is to be the only placeholder of `K` and `K` the only full key with `p`. -/
structure Resolves (p K : Hex) (db : Db) : Prop where
  full : K.length = 64
  short : p.length < 64
  isPrefix : p <+: K
  noPlaceholder : ∀ k ∈ db.contacts.keys, k.length < 64 → ¬k <+: K
  onlyFull : ∀ k ∈ db.contacts.keys, k.length = 64 → ¬p <+: k
  noPaths : ∀ k q, db.paths.get? (k, q) ≠ none → k ≠ p ∧ k ≠ K
  noNames : ∀ k name, db.names.get? (k, name) ≠ none → k ≠ p ∧ k ≠ K

/-- The left side is recorded under the full key, the right one under the placeholder. -/
def split (p K : Hex) : Side → Hex
  | .left => K
  | .right => p

/-- Both sides begin with the upsert of their contact. -/
def Begun (H : List (Side × Op)) : Prop :=
  ∀ s, ∃ op ∈ (on s H).head?, op.isUpsert = true

theorem Resolves.ne (h : Resolves p K db) : p ≠ K := by
  intro heq
  have hlen := h.short
  rw [heq, h.full] at hlen
  exact absurd hlen (lt_irrefl 64)

theorem Resolves.get?_p (h : Resolves p K db) : db.contacts.get? p = none := by
  apply OrderedDict.get?_eq_none_iff.mpr
  intro hmem
  exact h.noPlaceholder p hmem h.short h.isPrefix

theorem Resolves.get?_K (h : Resolves p K db) : db.contacts.get? K = none := by
  apply OrderedDict.get?_eq_none_iff.mpr
  intro hmem
  exact h.onlyFull K hmem h.full h.isPrefix

/-- The one entry that a test selects. -/
theorem filter_entries_eq [DecidableEq α] {d : OrderedDict α β} {a : α} {b : β}
    (hget : d.get? a = some b) {test : α × β → Bool} (htest : ∀ e ∈ d.entries, test e = true ↔ e.1 = a) :
    d.entries.filter test = [(a, b)] := by
  have hmem := OrderedDict.get?_eq_some_iff.mp hget
  have hnodup : (d.entries.filter test).Nodup := (d.nodup.of_map Prod.fst).filter _
  apply List.perm_singleton.mp
  apply (List.perm_ext_iff_of_nodup hnodup (List.nodup_singleton _)).mpr
  intro e
  rw [List.mem_filter, List.mem_singleton]
  constructor
  · rintro ⟨he, ht⟩
    have hkey := (htest e he).mp ht
    exact List.inj_on_of_nodup_map d.nodup he hmem hkey
  · rintro rfl
    exact ⟨hmem, (htest _ hmem).mpr rfl⟩

section

variable {p K : Hex} {db : Db} {H : List (Side × Op)}

theorem contacts_record_other {keyOf : Side → Hex} {k : Hex} (hk : ∀ s, keyOf s ≠ k) :
    (record keyOf H db).contacts.get? k = db.contacts.get? k := by
  have hnil : opsAt keyOf k H = [] := by
    unfold opsAt
    rw [List.map_eq_nil_iff, List.filter_eq_nil_iff]
    intro e _
    simpa using hk e.1
  rw [contacts_get?_record, hnil]
  rfl

/-- **The promotion** moves the placeholder's rows into the full key. -/
theorem promote_record (hres : Resolves p K db) (hbegun : Begun H) :
    ∃ row contact,
      (record (split p K) H db).contacts.get? p = some row ∧
      (record (split p K) H db).contacts.get? K = some contact ∧
      promotePrefixPlaceholders K (record (split p K) H db) =
        ({ migrateChildRows p K (record (split p K) H db) with
            contacts := ((record (split p K) H db).contacts.set K (mergeContact row contact)).erase p },
          [p]) := by
  have hne : split p K .right ≠ split p K .left := hres.ne
  obtain ⟨contact, hcontact, -⟩ := contactRow_of_upsert (hbegun .left)
  obtain ⟨row, hrow, -⟩ := contactRow_of_upsert (hbegun .right)
  have hgetK : (record (split p K) H db).contacts.get? K = some contact := by
    have h := @contacts_get?_record (split p K) (split p K .left) H db
    rw [opsAt_left hne] at h
    rw [← hcontact, ← hres.get?_K]
    exact h
  have hgetp : (record (split p K) H db).contacts.get? p = some row := by
    have h := @contacts_get?_record (split p K) (split p K .right) H db
    rw [opsAt_right hne] at h
    rw [← hrow, ← hres.get?_p]
    exact h
  refine ⟨row, contact, hgetp, hgetK, ?_⟩
  have hothers : ∀ e ∈ (record (split p K) H db).contacts.entries,
      e.1 = p ∨ e.1 = K ∨ e.1 ∈ db.contacts.keys := by
    intro e he
    by_cases hp : e.1 = p
    · exact Or.inl hp
    by_cases hK : e.1 = K
    · exact Or.inr (Or.inl hK)
    · right
      right
      have hkept : ∀ s, split p K s ≠ e.1 := by
        intro s
        cases s with
        | left => exact Ne.symm hK
        | right => exact Ne.symm hp
      have hget := OrderedDict.get?_eq_some_iff.mpr he
      rw [contacts_record_other hkept] at hget
      exact OrderedDict.mem_keys_of_get? hget
  have hplaceholders : placeholders K (record (split p K) H db) = [(p, row)] := by
    unfold placeholders
    rw [filter_entries_eq hgetp]
    · rfl
    · intro e he
      rw [Bool.and_eq_true, decide_eq_true_iff, List.isPrefixOf_iff_prefix]
      constructor
      · rintro ⟨hshort, hprefix⟩
        rcases hothers e he with hp | hK | hmem
        · exact hp
        · rw [hK, hres.full] at hshort
          exact absurd hshort (lt_irrefl 64)
        · exact absurd hprefix (hres.noPlaceholder e.1 hmem hshort)
      · intro hp
        rw [hp]
        exact ⟨hres.short, hres.isPrefix⟩
  have hcount : matchCount p (record (split p K) H db) = 1 := by
    unfold matchCount
    rw [filter_entries_eq hgetK]
    · rfl
    · intro e he
      rw [Bool.and_eq_true, decide_eq_true_iff, List.isPrefixOf_iff_prefix]
      constructor
      · rintro ⟨hfull, hprefix⟩
        rcases hothers e he with hp | hK | hmem
        · have hshort := hres.short
          rw [← hp, hfull] at hshort
          exact absurd hshort (lt_irrefl 64)
        · exact hK
        · exact absurd hprefix (hres.onlyFull e.1 hmem hfull)
      · intro hK
        rw [hK]
        exact ⟨hres.full, hres.isPrefix⟩
  have hupdate : updateContact K (mergeContact row)
      (migrateChildRows p K (record (split p K) H db)) =
      { migrateChildRows p K (record (split p K) H db) with
        contacts := (record (split p K) H db).contacts.set K (mergeContact row contact) } := by
    unfold updateContact
    have hsame : (migrateChildRows p K (record (split p K) H db)).contacts.get? K
        = some contact := hgetK
    rw [hsame]
    rfl
  unfold promotePrefixPlaceholders
  rw [hplaceholders, List.foldl_cons, List.foldl_nil, promoteOne]
  dsimp only
  rw [if_neg hres.ne, if_neg (not_not.mpr hcount), hupdate]
  rfl

end

/-- Promoting the placeholder leaves what recording under the full key alone
leaves, and no row of the placeholder. -/
structure Commutes (p K : Hex) (H : List (Side × Op)) (db : Db) : Prop where
  paths : ∀ q, (promotePrefixPlaceholders K (record (split p K) H db)).1.paths.get? (K, q) =
    (record (fun _ => K) H db).paths.get? (K, q)
  names : ∀ name, (promotePrefixPlaceholders K (record (split p K) H db)).1.names.get? (K, name) =
    (record (fun _ => K) H db).names.get? (K, name)
  contact : ∃ row row',
    (promotePrefixPlaceholders K (record (split p K) H db)).1.contacts.get? K = some row ∧
    (record (fun _ => K) H db).contacts.get? K = some row' ∧ row.firstSeen = row'.firstSeen ∧
    row.lastSeen = row'.lastSeen ∧ row.lastContacted = row'.lastContacted
  gone : (promotePrefixPlaceholders K (record (split p K) H db)).1.contacts.get? p = none ∧
    (∀ q, (promotePrefixPlaceholders K (record (split p K) H db)).1.paths.get? (p, q) = none) ∧
    ∀ name, (promotePrefixPlaceholders K (record (split p K) H db)).1.names.get? (p, name) = none

/-- Nothing of the history is lost in the promotion. -/
structure HistoryKept (H : List (Side × Op)) : Prop where
  paths : ∀ q, PathKept (tagged (Op.observationOf? q) H)
  names : ∀ name, FirstIsLeast (tagged (Op.nameTime? name) H)
  firstSeen : FirstIsLeast (tagged Op.firstSeen? H)
  lastContacted : LastIsGreatest (tagged Op.lastContacted? H)

section

variable {p K : Hex} {db : Db} {H : List (Side × Op)}

theorem observation_ops (hlimit : WithinLimit H) :
    ∀ e ∈ H, ∀ o ∈ e.2.observation?,
      o.pathKey ∈ pathKeys H ∧ (pathKeys H).dedup.length ≤ o.limit := by
  intro e he o ho
  refine ⟨?_, hlimit e he o ho⟩
  exact List.mem_map.mpr ⟨o, List.mem_filterMap.mpr ⟨e, he, ho⟩, rfl⟩

/-- The rows of a path: promoted, and recorded under the full key alone. -/
theorem paths_promote (hres : Resolves p K db) (hbegun : Begun H) (hlimit : WithinLimit H)
    (q : PathKey) :
    (promotePrefixPlaceholders K (record (split p K) H db)).1.paths.get? (K, q) =
        promotedPath (tagged (Op.observationOf? q) H) ∧
      (record (fun _ => K) H db).paths.get? (K, q) =
        pathRow ((tagged (Op.observationOf? q) H).map Prod.snd) := by
  have hne : split p K .right ≠ split p K .left := hres.ne
  have hnoneK : db.paths.get? (K, q) = none := by
    by_contra h
    exact (hres.noPaths K q h).2 rfl
  have hnonep : db.paths.get? (p, q) = none := by
    by_contra h
    exact (hres.noPaths p q h).1 rfl
  have hinside : ∀ (keyOf : Side → Hex) (s : Side), (keyOf s = K ∨ keyOf s = p) →
      Inside (pathKeys H) (keyOf s) db := by
    intro keyOf s hs q' hq'
    obtain ⟨hp, hK⟩ := hres.noPaths _ q' hq'
    rcases hs with hs | hs
    · exact absurd hs hK
    · exact absurd hs hp
  constructor
  · obtain ⟨row, contact, -, -, hpromote⟩ := promote_record hres hbegun
    rw [hpromote]
    show ((record (split p K) H db).paths.moveRows freshPath mergePath p K).get? (K, q) = _
    have hsides : ∀ s, split p K s = K ∨ split p K s = p := by
      intro s
      cases s with
      | left => exact Or.inl rfl
      | right => exact Or.inr rfl
    have hrun := fun k => @paths_get?_record (split p K) k _ H (observation_ops hlimit) db
      (fun s => hinside (split p K) s (hsides s)) q
    have hleft : (record (split p K) H db).paths.get? (K, q) =
        pathRow (on .left (tagged (Op.observationOf? q) H)) := by
      have h := hrun (split p K .left)
      rw [opsAt_left hne] at h
      rw [on_tagged, pathRow, ← hnoneK]
      exact h
    have hright : (record (split p K) H db).paths.get? (p, q) =
        pathRow (on .right (tagged (Op.observationOf? q) H)) := by
      have h := hrun (split p K .right)
      rw [opsAt_right hne] at h
      rw [on_tagged, pathRow, ← hnonep]
      exact h
    rw [OrderedDict.get?_moveRows_new hres.ne.symm, hleft, hright, promotedPath]
    cases pathRow (on .right (tagged (Op.observationOf? q) H)) <;> rfl
  · have h := @paths_get?_record (fun _ => K) K _ H (observation_ops hlimit) db
      (fun s => hinside (fun _ => K) s (Or.inl rfl)) q
    rw [opsAt_const, hnoneK] at h
    rw [map_snd_tagged]
    exact h

theorem names_promote (hres : Resolves p K db) (hbegun : Begun H) (name : String) :
    (promotePrefixPlaceholders K (record (split p K) H db)).1.names.get? (K, name) =
        promotedName (tagged (Op.nameTime? name) H) ∧
      (record (fun _ => K) H db).names.get? (K, name) =
        nameRow ((tagged (Op.nameTime? name) H).map Prod.snd) := by
  have hne : split p K .right ≠ split p K .left := hres.ne
  have hnoneK : db.names.get? (K, name) = none := by
    by_contra h
    exact (hres.noNames K name h).2 rfl
  have hnonep : db.names.get? (p, name) = none := by
    by_contra h
    exact (hres.noNames p name h).1 rfl
  constructor
  · obtain ⟨row, contact, -, -, hpromote⟩ := promote_record hres hbegun
    rw [hpromote]
    show ((record (split p K) H db).names.moveRows id mergeName p K).get? (K, name) = _
    have hleft : (record (split p K) H db).names.get? (K, name) =
        nameRow (on .left (tagged (Op.nameTime? name) H)) := by
      have h := @names_get?_record (split p K) (split p K .left) H db name
      rw [opsAt_left hne] at h
      rw [on_tagged, nameRow, ← hnoneK]
      exact h
    have hright : (record (split p K) H db).names.get? (p, name) =
        nameRow (on .right (tagged (Op.nameTime? name) H)) := by
      have h := @names_get?_record (split p K) (split p K .right) H db name
      rw [opsAt_right hne] at h
      rw [on_tagged, nameRow, ← hnonep]
      exact h
    rw [OrderedDict.get?_moveRows_new hres.ne.symm, hleft, hright, promotedName]
    cases nameRow (on .right (tagged (Op.nameTime? name) H)) <;> rfl
  · rw [names_get?_record, opsAt_const, hnoneK, map_snd_tagged]
    rfl

/-- The contact's row: promoted, and recorded under the full key alone. -/
theorem contact_promote (hres : Resolves p K db) (hbegun : Begun H) :
    ∃ row row',
      (promotePrefixPlaceholders K (record (split p K) H db)).1.contacts.get? K = some row ∧
      (record (fun _ => K) H db).contacts.get? K = some row' ∧
      row.lastSeen = row'.lastSeen ∧
      (row.firstSeen = row'.firstSeen ↔ FirstIsLeast (tagged Op.firstSeen? H)) ∧
      (row.lastContacted = row'.lastContacted ↔ LastIsGreatest (tagged Op.lastContacted? H)) := by
  have hne : split p K .right ≠ split p K .left := hres.ne
  obtain ⟨placeholder, contact, hgetp, hgetK, hpromote⟩ := promote_record hres hbegun
  obtain ⟨contact', hcontact', hfirstF, hseenF, hcontactedF⟩ := contactRow_of_upsert (hbegun .left)
  obtain ⟨placeholder', hrow', hfirstP, hseenP, hcontactedP⟩ := contactRow_of_upsert (hbegun .right)
  have hhead : ∃ op ∈ (H.map Prod.snd).head?, op.isUpsert = true := by
    cases H with
    | nil =>
      obtain ⟨op, hop, -⟩ := hbegun .left
      cases hop
    | cons e H =>
      obtain ⟨s, op⟩ := e
      obtain ⟨op', hop, hupsert⟩ := hbegun s
      rw [on_cons_self] at hop
      exact ⟨op', hop, hupsert⟩
  obtain ⟨all, hall, hfirstD, hseenD, hcontactedD⟩ := contactRow_of_upsert hhead
  have hsameK : contact' = contact := by
    have h := @contacts_get?_record (split p K) (split p K .left) H db
    rw [opsAt_left hne] at h
    have hnone : db.contacts.get? (split p K .left) = none := hres.get?_K
    rw [hnone, hcontact'] at h
    exact Option.some.inj (h.symm.trans hgetK)
  have hsamep : placeholder' = placeholder := by
    have h := @contacts_get?_record (split p K) (split p K .right) H db
    rw [opsAt_right hne] at h
    have hnone : db.contacts.get? (split p K .right) = none := hres.get?_p
    rw [hnone, hrow'] at h
    exact Option.some.inj (h.symm.trans hgetp)
  subst hsameK hsamep
  have hdirect : (record (fun _ => K) H db).contacts.get? K = some all := by
    rw [contacts_get?_record, opsAt_const, hres.get?_K, hall]
  refine ⟨mergeContact placeholder' contact', all, ?_, hdirect, ?_, ?_, ?_⟩
  · rw [hpromote]
    show (OrderedDict.erase _ p).get? K = _
    rw [OrderedDict.get?_erase_of_ne hres.ne.symm]
    exact OrderedDict.get?_set_self ..
  · show laterSeen contact'.lastSeen placeholder'.lastSeen = _
    rw [laterSeen_eq, hseenF, hseenP, hseenD, ← on_tagged, ← on_tagged, ← map_snd_tagged,
      max?_map_snd]
  · show earlierSeen contact'.firstSeen placeholder'.firstSeen = _ ↔ _
    rw [earlierSeen_eq, hfirstF, hfirstP, hfirstD, ← on_tagged, ← on_tagged, ← map_snd_tagged,
      merge_min_head?_iff]
  · show laterSeen contact'.lastContacted placeholder'.lastContacted = _ ↔ _
    rw [laterSeen_eq, hcontactedF, hcontactedP, hcontactedD, ← on_tagged, ← on_tagged,
      ← map_snd_tagged, merge_max_getLast?_iff]

theorem gone_promote (hres : Resolves p K db) (hbegun : Begun H) :
    (promotePrefixPlaceholders K (record (split p K) H db)).1.contacts.get? p = none ∧
    (∀ q, (promotePrefixPlaceholders K (record (split p K) H db)).1.paths.get? (p, q) = none) ∧
    ∀ name, (promotePrefixPlaceholders K (record (split p K) H db)).1.names.get? (p, name) = none := by
  obtain ⟨placeholder, contact, -, -, hpromote⟩ := promote_record hres hbegun
  rw [hpromote]
  refine ⟨?_, ?_, ?_⟩
  · show (OrderedDict.erase _ p).get? p = none
    rw [OrderedDict.get?_erase, if_pos rfl]
  · intro q
    exact OrderedDict.get?_moveRows_old _ q
  · intro name
    exact OrderedDict.get?_moveRows_old _ name

end

theorem promote_of_ambiguous (h : ∀ e ∈ placeholders K db, matchCount e.1 db ≠ 1) :
    promotePrefixPlaceholders K db = (db, []) := by
  unfold promotePrefixPlaceholders
  generalize placeholders K db = rows at h
  induction rows with
  | nil => rfl
  | cons e rows ih =>
    have hone : promoteOne K (db, []) e = (db, []) := by
      unfold promoteOne
      dsimp only
      split_ifs with hself hmatch
      · rfl
      · rfl
      · exact absurd (not_not.mp hmatch) (h e List.mem_cons_self)
    rw [List.foldl_cons, hone]
    exact ih (fun e he => h e (List.mem_cons_of_mem _ he))

/-- **Promotion commutes with recording** just for the histories of which nothing
is lost; a placeholder that does not resolve changes nothing. -/
theorem commutes_iff_historyKept (p K : Hex) (db : Db) :
    ((∀ e ∈ placeholders K db, matchCount e.1 db ≠ 1) →
      promotePrefixPlaceholders K db = (db, [])) ∧
    (Resolves p K db → ∀ H, Begun H → WithinLimit H → (Commutes p K H db ↔ HistoryKept H)) := by
  refine ⟨promote_of_ambiguous, ?_⟩
  intro hres H hbegun hlimit
  have hpaths := fun q => paths_promote hres hbegun hlimit q
  have hnames := fun name => names_promote hres hbegun name
  obtain ⟨row, row', hrow, hrow', hseen, hfirst, hcontacted⟩ := contact_promote hres hbegun
  constructor
  · intro h
    obtain ⟨r, r', hr, hr', hf, -, hc⟩ := h.contact
    obtain rfl : r = row := Option.some.inj (hr.symm.trans hrow)
    obtain rfl : r' = row' := Option.some.inj (hr'.symm.trans hrow')
    refine ⟨?_, ?_, hfirst.mp hf, hcontacted.mp hc⟩
    · intro q
      rw [← promotedPath_eq_iff, ← (hpaths q).1, ← (hpaths q).2]
      exact h.paths q
    · intro name
      rw [← promotedName_eq_iff, ← (hnames name).1, ← (hnames name).2]
      exact h.names name
  · intro h
    refine ⟨?_, ?_, ⟨row, row', hrow, hrow', hfirst.mpr h.firstSeen, hseen,
      hcontacted.mpr h.lastContacted⟩, gone_promote hres hbegun⟩
    · intro q
      rw [(hpaths q).1, (hpaths q).2]
      exact (promotedPath_eq_iff _).mpr (h.paths q)
    · intro name
      rw [(hnames name).1, (hnames name).2]
      exact (promotedName_eq_iff _).mpr (h.names name)

/-! ### Two histories -/

theorem withinLimit_of_all {H : List (Side × Op)}
    (h : H.all (fun e => e.2.observation?.all
      (fun o => decide ((pathKeys H).dedup.length ≤ o.limit))) = true) : WithinLimit H := by
  intro e he o ho
  have hall := List.all_eq_true.mp h e he
  rw [ho] at hall
  exact of_decide_eq_true hall

/-- A full key and its first twelve digits. -/
def bobKey : Hex := List.replicate 64 0xB

theorem resolves_bob : Resolves (bobKey.take 12) bobKey Db.empty where
  full := rfl
  short := by decide
  isPrefix := List.take_prefix 12 bobKey
  noPlaceholder k hk := absurd hk List.not_mem_nil
  onlyFull k hk := absurd hk List.not_mem_nil
  noPaths k q hq := absurd rfl hq
  noNames k name hname := absurd rfl hname

/-- An advert over one hop, heard at 900. -/
def bobAdvert : Observation := ⟨[0xA, 0x1], 900, 10, none, some (-70), some 5, true⟩

/-- The adverts are heard under the full key, a message under the placeholder. -/
def heardInFull : List (Side × Op) :=
  [(.left, .upsert (some 900) (some 900) none), (.left, .recordObservation bobAdvert),
    (.right, .upsert (some 1000) (some 1000) (some 1000)), (.right, .touchLastSeen 1000)]

theorem heardInFull_commutes : Commutes (bobKey.take 12) bobKey heardInFull Db.empty := by
  have hright : ∀ {α : Type} (f : Op → Option α), f (.upsert (some 1000) (some 1000) (some 1000)) = none →
      f (.touchLastSeen 1000) = none → on .right (tagged f heardInFull) = [] := by
    intro α f hupsert htouch
    rw [on_tagged]
    show [Op.upsert (some 1000) (some 1000) (some 1000), .touchLastSeen 1000].filterMap f = []
    rw [List.filterMap_cons_none hupsert, List.filterMap_cons_none htouch]
    rfl
  apply ((commutes_iff_historyKept (bobKey.take 12) bobKey Db.empty).2 resolves_bob heardInFull
    _ _).mpr
  · refine ⟨?_, ?_, ?_, ?_⟩
    · intro q
      exact PathKept.of_right_nil (hright _ rfl rfl)
    · intro name
      have hnil : tagged (Op.nameTime? name) heardInFull = [] := rfl
      rw [hnil]
      exact (merge_min_head?_iff _).mp rfl
    · exact (merge_min_head?_iff _).mp (by decide)
    · exact (merge_max_getLast?_iff _).mp (by decide)
  · intro s
    cases s with
    | left => exact ⟨_, rfl, rfl⟩
    | right => exact ⟨_, rfl, rfl⟩
  · exact withinLimit_of_all (by decide)

/-- The advert is heard under the placeholder. -/
def heardByPrefix : List (Side × Op) :=
  [(.right, .upsert (some 900) (some 900) none), (.right, .recordObservation bobAdvert),
    (.left, .upsert (some 1000) (some 1000) none)]

/-- Its signal and its primary arrival are gone after the promotion. -/
theorem not_forall_commutes :
    ¬∀ p K db, Resolves p K db → ∀ H, Begun H → WithinLimit H → Commutes p K H db := by
  intro hall
  have hbegun : Begun heardByPrefix := by
    intro s
    cases s with
    | left => exact ⟨_, rfl, rfl⟩
    | right => exact ⟨_, rfl, rfl⟩
  have hlimit : WithinLimit heardByPrefix := withinLimit_of_all (by decide)
  have hpaths := (hall _ _ _ resolves_bob heardByPrefix hbegun hlimit).paths bobAdvert.pathKey
  revert hpaths
  decide +kernel

end RtfmEv.Contacts
