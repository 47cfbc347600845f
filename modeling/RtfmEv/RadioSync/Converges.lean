import RtfmEv.RadioSync.Reconcile

/-!
# When the reconcile loop ends

Without autoevict the loop ends if and only if at most one contact is in its way, and then
only because the radio says that its table is full, or no contact is in its way. With
autoevict it always ends.
-/

namespace RtfmEv.RadioSync

variable {K P : Type*} [DecidableEq K] [DecidableEq P]

namespace Setup

variable {S : Setup K P} {s s₀ s' : Reconcile K} {f : Filled K} {ks : List K}

/-- Some contact is tried for which the radio says that its table is full. -/
def FullAhead (S : Setup K P) (s : Reconcile K) : Prop :=
  ∃ k ∈ S.kept s, S.answer (.add k) = .tableFull

/-- The contacts that each pass spends a command on in vain. -/
def inTheWay (S : Setup K P) (s : Reconcile K) : ℕ :=
  (S.stuckOn s).length + (S.blocking (S.kept s)).length

/-- The loop can get to its end. -/
def GetsThrough (S : Setup K P) (s : Reconcile K) : Prop :=
  S.FullAhead s ∧ S.inTheWay s ≤ 1 ∨ S.stuckOn s = [] ∧ S.kept s = []

/-- Nothing is left to be removed or added, as far as the loop can see. -/
def Clean (S : Setup K P) (s : Reconcile K) : Prop :=
  s.radioContacts.filter (· ∉ S.desired) = [] ∧ S.desired.filter (· ∉ s.radioContacts) = []

/-- How a pass ends. -/
inductive PassCase (S : Setup K P) (s₀ s : Reconcile K) : Outcome K → Prop
  | clean (hclean : S.Clean s) : PassCase S s₀ s (.ended s false)
  | full {s' : Reconcile K} (halong : S.Along s₀ s') (hahead : S.FullAhead s₀)
      (hway : S.inTheWay s₀ ≤ 1) : PassCase S s₀ s (.ended s' true)
  | again {s' : Reconcile K} (halong : S.Along s₀ s')
      (hprogress : S.GetsThrough s₀ → S.todo s' < S.todo s) : PassCase S s₀ s (.again s')

omit [DecidableEq P] in
theorem stuck_subset {k : K} (h : S.stuck k = true) (hk : k ∈ s.radioContacts) :
    k ∈ S.stuckOn s := List.mem_filter.mpr ⟨hk, h⟩

omit [DecidableEq P] in
theorem missing_cases {k : K} (hk : k ∈ S.desired) (hmem : k ∉ s.radioContacts) :
    k ∈ S.kept s ∨ k ∈ s.cache ∨ S.answer (.add k) = .ok := by
  by_cases hgood : k ∈ s.cache ∨ S.answer (.add k) = .ok
  · exact Or.inr hgood
  · obtain ⟨hcache, hok⟩ := not_or.mp hgood
    refine Or.inl (List.mem_filter.mpr ⟨hk, ?_⟩)
    unfold hard
    simp [hmem, hcache, hok]

/-- **One pass** without autoevict. -/
theorem Along.passNormal (h : S.Along s₀ s) (htell : S.TellsApart s₀) :
    PassCase S s₀ s (S.passNormal s) := by
  unfold Setup.passNormal
  dsimp only
  split_ifs with hclean hfull
  · exact .clean hclean
  all_goals
    have hbatch : contactReconcileBatchSize = 2 := rfl
    have hks : ∀ k ∈ s.radioContacts, k ∈ s₀.radioContacts ∨ k ∈ S.desired := h.contacts
    obtain ⟨hremoved, hbudget, htodo⟩ :=
      h.removePhase htell contactReconcileBatchSize hks
    generalize hphase : S.removePhase s.radioContacts contactReconcileBatchSize s = removed
      at hremoved hbudget htodo hfull ⊢
    have hstuck : (s.radioContacts.filter S.stuck).length = (S.stuckOn s₀).length := by
      rw [← h.stuck]
      rfl
    rw [hstuck] at hbudget
    have hkept : S.desired.filter (S.hard removed.1) = S.kept s₀ := hremoved.kept
    obtain ⟨hadded, htodo'⟩ := hremoved.addPhase htell removed.2
      (fun k (hk : k ∈ S.desired) => hk)
  · obtain ⟨hahead, hless⟩ := addPhase_full hremoved htell (fun _ hk => hk) hfull
    rw [hkept] at hahead hless
    refine .full hadded hahead ?_
    unfold inTheWay
    omega
  · refine .again hadded (fun hthrough => ?_)
    by_contra hnot
    -- the removals have not made progress, so nothing on the radio can be removed
    have hstays : ¬ S.todo removed.1 < S.todo s := fun hless => hnot (Nat.lt_of_le_of_lt htodo' hless)
    have hfew : (S.stuckOn s₀).length < contactReconcileBatchSize := by
      rcases hthrough with ⟨_, hway⟩ | ⟨hnone, _⟩
      · unfold inTheWay at hway
        omega
      · rw [hnone]
        exact Nat.succ_pos 1
    have hidle : ∀ k ∈ s.radioContacts, S.removable k = false := by
      intro k hk
      by_contra hremovable
      refine hstays ?_
      rw [← hphase]
      exact removePhase_progress h htell hks (fun _ hk => hk) (by rw [hstuck]; exact hfew)
        ⟨k, hk, by simpa using hremovable⟩
    obtain ⟨hcontacts, hcache, hleft⟩ := removePhase_idle h htell contactReconcileBatchSize hks hidle
    rw [hphase, hstuck] at hleft
    rw [hphase] at hcontacts hcache
    -- so the additions have the budget to load something, or to fill the table
    have hblocking : (S.blocking (S.desired.filter (S.hard removed.1))).length < removed.2 := by
      rw [hkept]
      rcases hthrough with ⟨_, hway⟩ | ⟨hnone, hkept⟩
      · unfold inTheWay at hway
        omega
      · rw [hkept]
        show 0 < removed.2
        omega
    have hsome : ∃ k ∈ S.desired, k ∉ removed.1.radioContacts ∧ (k ∈ removed.1.cache ∨
        S.answer (.add k) = .ok ∨ S.answer (.add k) = .tableFull) := by
      rw [hcontacts, hcache]
      rcases hthrough with ⟨⟨k, hk, hanswer⟩, _⟩ | ⟨hnone, hkeptnone⟩
      · rw [← h.kept] at hk
        obtain ⟨hdesired, hhard⟩ := List.mem_filter.mp hk
        unfold hard at hhard
        simp only [Bool.and_eq_true, decide_eq_true_eq] at hhard
        exact ⟨k, hdesired, hhard.1.1, Or.inr (Or.inr hanswer)⟩
      · have hmissing : S.desired.filter (· ∉ s.radioContacts) ≠ [] := by
          intro hmissing
          refine hclean ⟨?_, hmissing⟩
          rw [List.filter_eq_nil_iff]
          intro k hk hnot
          have hnot : k ∉ S.desired := of_decide_eq_true hnot
          cases hremoved : S.removed k with
          | true =>
            exact absurd ((hidle k hk).symm.trans (removable_iff.mpr ⟨hnot, hremoved⟩)) (by simp)
          | false =>
            have hin := stuck_subset (stuck_iff.mpr ⟨hnot, hremoved⟩) hk
            rw [h.stuck, hnone] at hin
            cases hin
        obtain ⟨k, hk⟩ := List.exists_mem_of_ne_nil _ hmissing
        obtain ⟨hdesired, hmem⟩ := List.mem_filter.mp hk
        have hmem : k ∉ s.radioContacts := of_decide_eq_true hmem
        refine ⟨k, hdesired, hmem, ?_⟩
        rcases missing_cases hdesired hmem with hin | hcached | hok
        · rw [h.kept, hkeptnone] at hin
          cases hin
        · exact Or.inl hcached
        · exact Or.inr (Or.inl hok)
    rcases addPhase_progress hremoved htell (fun _ hk => hk) hblocking hsome with hends | hless
    · exact hfull hends
    · exact hnot (Nat.lt_of_lt_of_le hless htodo)

/-! ### After the end -/

theorem run_of_ended {n m : ℕ} {tableFull : Bool}
    (h : S.run n s = .ended s' tableFull) (hle : n ≤ m) : S.run m s = .ended s' tableFull := by
  induction n generalizing s m with
  | zero => cases h
  | succ n ih =>
    obtain ⟨m, rfl⟩ := Nat.exists_eq_add_of_le' (Nat.lt_of_lt_of_le (Nat.succ_pos n) hle)
    rw [Setup.run] at h ⊢
    cases hpass : S.pass s with
    | again s₁ =>
      rw [hpass] at h
      exact ih h (Nat.le_of_succ_le_succ hle)
    | ended s₁ full =>
      rw [hpass] at h
      exact h

theorem exists_bound (f : ℕ → ℕ) (n : ℕ) : ∃ bound, ∀ i ≤ n, f i ≤ bound := by
  induction n with
  | zero =>
    refine ⟨f 0, fun i hi => ?_⟩
    obtain rfl := Nat.le_zero.mp hi
    exact Nat.le_refl _
  | succ n ih =>
    obtain ⟨bound, hbound⟩ := ih
    refine ⟨max bound (f (n + 1)), fun i hi => ?_⟩
    rcases Nat.le_succ_iff.mp hi with hi | rfl
    · exact Nat.le_trans (hbound i hi) (Nat.le_max_left ..)
    · exact Nat.le_max_right ..

theorem bounded_of_ends (h : ∃ n s' tableFull, S.run n s = .ended s' tableFull)
    (c : Command K) : ∃ bound, ∀ n, (S.run n s).state.commands.count c ≤ bound := by
  obtain ⟨n, s', tableFull, hrun⟩ := h
  obtain ⟨bound, hbound⟩ := exists_bound (fun i => (S.run i s).state.commands.count c) n
  refine ⟨bound, fun m => ?_⟩
  rcases Nat.le_total m n with hle | hle
  · exact hbound m hle
  · rw [run_of_ended hrun hle, ← hrun]
    exact hbound n (Nat.le_refl n)

/-! ### Runs without autoevict -/

theorem Along.pass (h : S.Along s₀ s) (htell : S.TellsApart s₀)
    (hmode : S.autoevict = false) : PassCase S s₀ s (S.pass s) := by
  unfold Setup.pass
  rw [hmode]
  exact h.passNormal htell

omit [DecidableEq P] in
/-- A loop that has come to a clean end had nothing in its way. -/
theorem Along.getsThrough_of_clean (h : S.Along s₀ s) (hclean : S.Clean s) :
    S.stuckOn s₀ = [] ∧ S.kept s₀ = [] := by
  rw [← h.stuck, ← h.kept]
  constructor
  · refine List.filter_eq_nil_iff.mpr (fun k hk hstuck => ?_)
    exact List.filter_eq_nil_iff.mp hclean.1 k hk (decide_eq_true (stuck_iff.mp hstuck).1)
  · refine List.filter_eq_nil_iff.mpr (fun k hk hhard => ?_)
    refine List.filter_eq_nil_iff.mp hclean.2 k hk (decide_eq_true (fun hmem => ?_))
    exact hard_of_mem (Or.inl hmem) hhard

/-- What a loop that began with `s₀` has come to after some passes. -/
inductive RunCase (S : Setup K P) (s₀ : Reconcile K) : Outcome K → Prop
  | again {s : Reconcile K} (halong : S.Along s₀ s) : RunCase S s₀ (.again s)
  | clean {s : Reconcile K} (halong : S.Along s₀ s) (hclean : S.Clean s) :
      RunCase S s₀ (.ended s false)
  | full {s : Reconcile K} (halong : S.Along s₀ s) (hahead : S.FullAhead s₀)
      (hway : S.inTheWay s₀ ≤ 1) : RunCase S s₀ (.ended s true)

theorem Along.run (h : S.Along s₀ s) (htell : S.TellsApart s₀)
    (hmode : S.autoevict = false) (n : ℕ) : RunCase S s₀ (S.run n s) := by
  induction n generalizing s with
  | zero => exact .again h
  | succ n ih =>
    rw [Setup.run]
    have hpass := h.pass htell hmode
    generalize S.pass s = outcome at hpass
    cases hpass with
    | clean hclean => exact .clean h hclean
    | full halong hahead hway => exact .full halong hahead hway
    | again halong _ => exact ih halong

/-- **A loop that can get to its end gets there.** -/
theorem Along.ends (h : S.Along s₀ s) (htell : S.TellsApart s₀)
    (hmode : S.autoevict = false) (hthrough : S.GetsThrough s₀) :
    ∃ n s' tableFull, S.run n s = .ended s' tableFull := by
  generalize htodo : S.todo s = m
  induction m using Nat.strongRecOn generalizing s with
  | _ m ih =>
    have hpass := h.pass htell hmode
    generalize hout : S.pass s = outcome at hpass
    cases hpass with
    | clean hclean => exact ⟨1, s, false, by rw [Setup.run, hout]⟩
    | full halong hahead hway => exact ⟨1, _, true, by rw [Setup.run, hout]⟩
    | @again s' halong hprogress =>
      obtain ⟨n, s'', tableFull, hrun⟩ :=
        ih (S.todo s') (htodo ▸ hprogress hthrough) halong rfl
      exact ⟨n + 1, s'', tableFull, by rw [Setup.run, hout]; exact hrun⟩

theorem Along.getsThrough {s₀ : Reconcile K} (h : S.Along s₀ s) (htell : S.TellsApart s₀)
    (hmode : S.autoevict = false) {n : ℕ} {tableFull : Bool}
    (hrun : S.run n s = .ended s' tableFull) : S.GetsThrough s₀ := by
  have hcase := h.run htell hmode n
  rw [hrun] at hcase
  cases hcase with
  | clean halong hclean => exact Or.inr (halong.getsThrough_of_clean hclean)
  | full _ hahead hway => exact Or.inl ⟨hahead, hway⟩

/-- No desired contact that the library has, but the radio has not, would be taken. -/
def NoneStale (S : Setup K P) (s : Reconcile K) : Prop :=
  ∀ k ∈ S.desired, k ∈ s.cache → k ∉ s.radioContacts → S.answer (.add k) ≠ .ok

/-- **Without autoevict**: the loop does what it is for if and only if at most one contact is in
its way before the radio says that its table is full, or no contact is in its way, and none
counts as loaded for the library alone. -/
theorem delivers_iff_normal (htable : s.table = s.radioContacts)
    (htell : S.TellsApart s) (hmode : S.autoevict = false) :
    S.Delivers s ↔ S.FullAhead s ∧ S.inTheWay s ≤ 1 ∨
      S.stuckOn s = [] ∧ S.kept s = [] ∧ S.NoneStale s := by
  have hstart : S.Along s s := along_start htable
  constructor
  · intro h
    obtain ⟨n, s', tableFull, hrun⟩ := h.ends
    rcases hstart.getsThrough htell hmode hrun with hfull | ⟨hstuck, hkept⟩
    · exact Or.inl hfull
    · refine Or.inr ⟨hstuck, hkept, fun k hk hcache hmem hok => ?_⟩
      have hcase := hstart.run htell hmode n
      rw [hrun] at hcase
      cases hcase with
      | full _ hahead _ =>
        obtain ⟨k', hk', _⟩ := hahead
        rw [hkept] at hk'
        cases hk'
      | clean halong _ => exact halong.stale k hk hcache hmem (h.loaded n s' hrun k hk hok)
  · intro h
    have hthrough : S.GetsThrough s := h.imp_right (fun h => ⟨h.1, h.2.1⟩)
    have hends := hstart.ends htell hmode hthrough
    have hclean : ∀ n s', S.run n s = .ended s' false → S.Along s s' ∧ S.Clean s' := by
      intro n s' hrun
      have hcase := hstart.run htell hmode n
      rw [hrun] at hcase
      cases hcase with
      | clean halong hclean => exact ⟨halong, hclean⟩
    refine ⟨hends, fun c _ => bounded_of_ends hends c, fun n s' hrun k hk hok => ?_,
      fun _ n s' hrun k hk hok hin => ?_⟩
    · obtain ⟨halong, hcleaned⟩ := hclean n s' hrun
      have hmem : k ∈ s'.radioContacts := by
        by_contra hmem
        exact List.filter_eq_nil_iff.mp hcleaned.2 k hk (decide_eq_true hmem)
      rcases halong.loaded k hk hmem with hin | ⟨hcache, hnot⟩
      · exact hin
      · rcases h with ⟨⟨k', hk', hfull⟩, _⟩ | ⟨_, _, hstale⟩
        · have hnone := (halong.getsThrough_of_clean hcleaned).2
          rw [hnone] at hk'
          cases hk'
        · exact absurd hok (hstale k hk hcache hnot)
    · obtain ⟨halong, hcleaned⟩ := hclean n s' hrun
      have hmem := halong.off k hk hok hin
      exact List.filter_eq_nil_iff.mp hcleaned.1 k hmem (decide_eq_true hk)

/-! ### Runs with autoevict -/

omit [DecidableEq P] in
theorem mem_fill_of_mem {k : K} (hk : k ∈ f.state.table) : k ∈ (S.fillPhase ks f).state.table := by
  induction ks generalizing f with
  | nil => exact hk
  | cons k' ks ih =>
    have hsent : k ∈ (f.state.send S (.add k')).table := mem_send_add.mpr (Or.inl hk)
    rw [Setup.fillPhase]
    dsimp only
    split
    · refine ih ?_
      show k ∈ (if _ then _ else _ : Reconcile K).table
      split_ifs <;> exact hsent
    · exact hsent
    · exact ih hsent

omit [DecidableEq P] in
/-- A batch that is not cut short tries each of its contacts. -/
theorem fillPhase_spec (h : (S.fillPhase ks f).tableFull = false) :
    (S.fillPhase ks f).processed = f.processed + ks.length ∧
      ∀ k ∈ ks, S.answer (.add k) = .ok → k ∈ (S.fillPhase ks f).state.table := by
  induction ks generalizing f with
  | nil => exact ⟨rfl, fun k hk => nomatch hk⟩
  | cons k ks ih =>
    rw [Setup.fillPhase] at h ⊢
    dsimp only at h ⊢
    split at h
    case h_1 hok =>
      obtain ⟨hprocessed, hloaded⟩ := ih h
      refine ⟨?_, fun k' hk' hok' => ?_⟩
      · rw [hprocessed, List.length_cons]
        show f.processed + 1 + ks.length = _
        omega
      · rcases List.mem_cons.mp hk' with rfl | hk'
        · refine mem_fill_of_mem ?_
          have hsent : k' ∈ (f.state.send S (.add k')).table := mem_send_add.mpr (Or.inr ⟨hok, rfl⟩)
          show k' ∈ (if _ then _ else _ : Reconcile K).table
          split_ifs <;> exact hsent
        · exact hloaded k' hk' hok'
    case h_2 => cases h
    case h_3 hok _ =>
      obtain ⟨hprocessed, hloaded⟩ := ih h
      refine ⟨?_, fun k' hk' hok' => ?_⟩
      · rw [hprocessed, List.length_cons]
        show f.processed + 1 + ks.length = _
        omega
      · rcases List.mem_cons.mp hk' with rfl | hk'
        · exact absurd hok' hok
        · exact hloaded k' hk' hok'

omit [DecidableEq P] in
theorem fillPhase_retries : (S.fillPhase ks f).state.retries = f.state.retries := by
  induction ks generalizing f with
  | nil => rfl
  | cons k ks ih =>
    rw [Setup.fillPhase]
    dsimp only
    split
    · refine ih.trans ?_
      show (if _ then _ else _ : Reconcile K).retries = _
      split_ifs <;> rfl
    · rfl
    · exact ih

/-- Between two passes: those of the desired contacts are on the radio that have been tried in
this full pass and are taken. -/
structure Filling (S : Setup K P) (s : Reconcile K) : Prop where
  index : s.nextIndex < S.desired.length
  retries : s.retries < maxAutoevictRetries
  loaded : ∀ k ∈ S.desired.take s.nextIndex, S.answer (.add k) = .ok → k ∈ s.table

/-- What a blind fill has still to do. -/
def toFill (S : Setup K P) (s : Reconcile K) : ℕ :=
  (maxAutoevictRetries - s.retries) * (S.desired.length + 1) + (S.desired.length - s.nextIndex)

/-- How a pass with autoevict ends. -/
inductive FillCase (S : Setup K P) (s : Reconcile K) : Outcome K → Prop
  | ended {s' : Reconcile K} (hloaded : ∀ k ∈ S.desired, S.answer (.add k) = .ok → k ∈ s'.table) :
      FillCase S s (.ended s' false)
  | full {s' : Reconcile K} : FillCase S s (.ended s' true)
  | again {s' : Reconcile K} (hfilling : S.Filling s') (hless : S.toFill s' < S.toFill s) :
      FillCase S s (.again s')

omit [DecidableEq P] in
/-- **One pass** with autoevict. -/
theorem Filling.pass (h : S.Filling s) : FillCase S s (S.passAutoevict s) := by
  have hindex := h.index
  have hne : S.desired ≠ [] := by
    intro hnil
    rw [hnil] at hindex
    exact Nat.not_lt_zero _ hindex
  unfold Setup.passAutoevict
  rw [if_neg hne, if_neg (Nat.not_le.mpr hindex)]
  dsimp only
  generalize hbatch : (S.desired.drop s.nextIndex).take contactReconcileBatchSize = batch
  have hlength : batch.length = min 2 (S.desired.length - s.nextIndex) := by
    rw [← hbatch, List.length_take, List.length_drop]
  cases hfull : (S.fillPhase batch { state := s }).tableFull with
  | true => exact .full
  | false =>
    rw [if_neg (by simp)]
    obtain ⟨hprocessed, hbatchloaded⟩ := fillPhase_spec hfull
    have hprocessed : (S.fillPhase batch { state := s }).processed = batch.length := by
      rw [hprocessed]
      exact Nat.zero_add _
    rw [hprocessed]
    have hretries : (S.fillPhase batch { state := s }).state.retries = s.retries := fillPhase_retries
    have hloaded : ∀ k ∈ S.desired.take (s.nextIndex + batch.length), S.answer (.add k) = .ok →
        k ∈ (S.fillPhase batch { state := s }).state.table := by
      intro k hk hok
      rw [List.take_add, List.mem_append] at hk
      rcases hk with hk | hk
      · exact mem_fill_of_mem (h.loaded k hk hok)
      · refine hbatchloaded k ?_ hok
        rw [← hbatch] at hk ⊢
        rw [List.length_take] at hk
        exact (List.take_subset_take_left _ (Nat.min_le_left ..)) hk
    split_ifs with hcomplete hfailed hgiveup
    · refine .ended (fun k hk hok => hloaded k ?_ hok)
      rw [List.take_of_length_le hcomplete]
      exact hk
    · refine .again ⟨Nat.lt_of_le_of_lt (Nat.zero_le _) hindex, Nat.not_le.mp hgiveup,
        fun k hk => ?_⟩ ?_
      · cases hk
      · unfold toFill
        show (maxAutoevictRetries - ((S.fillPhase batch { state := s }).state.retries + 1)) *
          (S.desired.length + 1) + (S.desired.length - 0) < _
        rw [hretries]
        have hleft : maxAutoevictRetries - s.retries = maxAutoevictRetries - (s.retries + 1) + 1 := by
          have hsome := h.retries
          omega
        rw [hleft, Nat.add_mul, Nat.one_mul]
        omega
    · refine .ended (fun k hk hok => hloaded k ?_ hok)
      rw [List.take_of_length_le hcomplete]
      exact hk
    · refine .again ⟨Nat.not_le.mp hcomplete, ?_, hloaded⟩ ?_
      · show (S.fillPhase batch { state := s }).state.retries < _
        rw [hretries]
        exact h.retries
      · unfold toFill
        show (maxAutoevictRetries - (S.fillPhase batch { state := s }).state.retries) *
          (S.desired.length + 1) + (S.desired.length - (s.nextIndex + batch.length)) < _
        rw [hretries]
        omega

/-- What a blind fill has come to after some passes. -/
theorem Filling.run (h : S.Filling s) (hmode : S.autoevict = true) (n : ℕ) :
    (∃ s', S.run n s = .again s' ∧ S.Filling s') ∨
      ∃ s' tableFull, S.run n s = .ended s' tableFull ∧ (tableFull = false →
        ∀ k ∈ S.desired, S.answer (.add k) = .ok → k ∈ s'.table) := by
  induction n generalizing s with
  | zero => exact Or.inl ⟨s, rfl, h⟩
  | succ n ih =>
    rw [Setup.run]
    have hpass : FillCase S s (S.pass s) := by
      unfold Setup.pass
      rw [if_pos hmode]
      exact h.pass
    generalize S.pass s = outcome at hpass
    cases hpass with
    | ended hloaded => exact Or.inr ⟨_, false, rfl, fun _ => hloaded⟩
    | full => exact Or.inr ⟨_, true, rfl, fun hnot => nomatch hnot⟩
    | again hfilling _ => exact ih hfilling

theorem Filling.ends (h : S.Filling s) (hmode : S.autoevict = true) :
    ∃ n s' tableFull, S.run n s = .ended s' tableFull := by
  generalize htodo : S.toFill s = m
  induction m using Nat.strongRecOn generalizing s with
  | _ m ih =>
    have hpass : FillCase S s (S.pass s) := by
      unfold Setup.pass
      rw [if_pos hmode]
      exact h.pass
    generalize hout : S.pass s = outcome at hpass
    cases hpass with
    | ended hloaded => exact ⟨1, _, false, by rw [Setup.run, hout]⟩
    | full => exact ⟨1, _, true, by rw [Setup.run, hout]⟩
    | @again s' hfilling hless =>
      obtain ⟨n, s'', tableFull, hrun⟩ := ih (S.toFill s') (htodo ▸ hless) hfilling rfl
      exact ⟨n + 1, s'', tableFull, by rw [Setup.run, hout]; exact hrun⟩

/-- **With autoevict** the loop always does what it is for. -/
theorem delivers_autoevict (hmode : S.autoevict = true) (hindex : s.nextIndex = 0)
    (hretries : s.retries = 0) : S.Delivers s := by
  by_cases hnil : S.desired = []
  · have hrun : ∀ n, S.run (n + 1) s = .ended s false := by
      intro n
      rw [Setup.run, Setup.pass, if_pos hmode, passAutoevict, if_pos hnil]
    have hends : ∃ n s' tableFull, S.run n s = .ended s' tableFull := ⟨1, s, false, hrun 0⟩
    refine ⟨hends, fun c _ => bounded_of_ends hends c, fun n s' _ k hk => ?_, fun hnot => ?_⟩
    · rw [hnil] at hk
      cases hk
    · rw [hmode] at hnot
      cases hnot
  · have hfilling : S.Filling s := by
      refine ⟨?_, by rw [hretries]; decide, fun k hk => ?_⟩
      · rw [hindex]
        exact List.length_pos_iff.mpr hnil
      · rw [hindex] at hk
        cases hk
    have hends := hfilling.ends hmode
    refine ⟨hends, fun c _ => bounded_of_ends hends c, fun n s' hrun => ?_, fun hnot => ?_⟩
    · rcases hfilling.run hmode n with ⟨s'', hagain, _⟩ | ⟨s'', tableFull, hended, hloaded⟩
      · rw [hagain] at hrun
        cases hrun
      · rw [hended] at hrun
        cases hrun
        exact hloaded rfl
    · rw [hmode] at hnot
      cases hnot

/-! ### Both modes -/

end Setup

/-! ### A contact that the radio does not remove -/

/-- A radio with one contact that it does not remove, and another one that is desired. -/
def pinned : Setup ℕ ℕ where
  answer c := if c = .remove 0 then .otherError else .ok
  selected := [1]
  full _ := true
  keyPrefix k := k
  isCommandContact _ := false
  autoevict := false

/-- A radio that removes its contact and takes the desired one. -/
def willing : Setup ℕ ℕ := { pinned with answer := fun _ => .ok }

end RtfmEv.RadioSync
