import RtfmEv.TileCache.Cache

/-!
# What the tile cache knows of its size

A call that has changed a file books the change only when it runs again. A measured
sum replaces the total whatever was booked before. So the total is off by what the
files have gained between a measurement and its assignment, less what was still to
be booked at the assignment, and by what later deletes were cut off at zero.
-/

namespace RtfmEv.TileCache

open RtfmEv.Lib

/-- The size that a call has still to add to the total. -/
def Op.gain : Op → ℕ
  | written _ new _ => new
  | storeScan _ new _ => new
  | storeScanned _ new _ _ _ => new
  | _ => 0

/-- The size that a call has still to take from the total. -/
def Op.loss : Op → ℕ
  | deleted _ freed => freed
  | written _ _ previous => previous
  | storeScan _ _ previous => previous
  | storeScanned _ _ previous _ _ => previous
  | _ => 0

/-- What the calls in progress have still to book. -/
def unbooked (s : State) : ℤ := (s.ops.total Op.gain : ℤ) - s.ops.total Op.loss

/-- The sum that a call has measured, and after how many changes. -/
def Op.measured : Op → Option (ℕ × ℕ)
  | storeScanned _ _ _ sum mark => some (sum, mark)
  | evictScanned sum mark => some (sum, mark)
  | evicted _ remaining mark => some (remaining, mark)
  | statsScanned sum mark => some (sum, mark)
  | cleared mark => some (0, mark)
  | _ => none

/-- What the files have gained since there were that many changes. -/
def gainedSince (s : State) (mark : ℕ) : ℤ := (s.changes.drop mark).sum

/-- The call that a step lets run. -/
def running (s : State) : Label → Option Op
  | .call _ => none
  | .turn id _ => s.ops.get? id

/-- When a step assigns a measured sum, how many changes there were when it was
measured. -/
def assigned (e : Event State Label) : Option ℕ :=
  ((running e.pre e.label).bind Op.measured).map Prod.snd

/-- What a delete is cut off at zero when it is booked. -/
def cutOff (e : Event State Label) : ℤ :=
  match running e.pre e.label, e.pre.total with
  | some (.deleted _ freed), some t => max 0 (freed - t)
  | _, _ => 0

/-- The last sum that was assigned was measured when the files had as much as is in
it and was still to be booked: no change was booked that came after the measurement,
and none was still to be booked that came before. Later deletes were not cut off. -/
def Reconciled (h : List (Event State Label)) : Prop :=
  ∃ f e g mark, h = f ++ e :: g ∧ assigned e = some mark ∧ (∀ e' ∈ g, assigned e' = none) ∧
    gainedSince e.pre mark = unbooked e.pre + (g.map cutOff).sum

/-- No call is in progress. The callback of a fetch that is over may be. -/
def Quiescent (s : State) : Prop := ∀ e ∈ s.ops.entries, ∃ key, e.2 = .finish key

/-- A store that may return when it runs again. -/
def Op.isStore : Op → Bool
  | written _ _ _ => true
  | storeScanned _ _ _ _ _ => true
  | evicted (.store _) _ _ => true
  | _ => false

def Op.isFinish : Op → Bool
  | finish _ => true
  | _ => false

/-- A store returns with this step. -/
def storeReturns (e : Event State Label) : Bool :=
  match e.label with
  | .call _ => false
  | .turn id _ =>
    (e.pre.ops.get? id).any Op.isStore && (e.post.ops.get? id).any Op.isFinish

/-- At the end of a run with no call in progress, a total that is known is the size
of the files, and if a store has just returned, the files are within the cap. -/
def KnowsItsSize (S : Setup) (h : List (Event State Label)) (s : State) : Prop :=
  Quiescent s →
    (∀ t, s.total = some t → t = diskSize s.files) ∧
      (∀ e, h.getLast? = some e → storeReturns e = true → diskSize s.files ≤ S.maxBytes)

/-! ## Booking -/

theorem total_put (f : Op → ℕ) (s : State) (id : ℕ) (next : Option Op) :
    (s.put id next).ops.total f + ((s.ops.get? id).map f).getD 0 =
      s.ops.total f + (next.map f).getD 0 := by
  cases next with
  | none => exact (OrderedDict.total_eq_erase f s.ops id).symm
  | some op => exact OrderedDict.total_set f s.ops id op

/-- What a call has still to book, in bytes gained. -/
def Op.delta (op : Op) : ℤ := (op.gain : ℤ) - op.loss

def deltaOf (op : Option Op) : ℤ := (op.map Op.delta).getD 0

theorem unbooked_put (s : State) (id : ℕ) (next : Option Op) :
    unbooked (s.put id next) = unbooked s - deltaOf (s.ops.get? id) + deltaOf next := by
  have hg := total_put Op.gain s id next
  have hl := total_put Op.loss s id next
  unfold unbooked deltaOf
  cases hop : s.ops.get? id with
  | none =>
    rw [hop] at hg hl
    cases next with
    | none =>
      simp only [Option.map_none, Option.getD_none] at hg hl ⊢
      omega
    | some op =>
      simp only [Option.map_none, Option.getD_none, Option.map_some, Option.getD_some,
        Op.delta] at hg hl ⊢
      omega
  | some op' =>
    rw [hop] at hg hl
    cases next with
    | none =>
      simp only [Option.map_none, Option.getD_none, Option.map_some, Option.getD_some,
        Op.delta] at hg hl ⊢
      omega
    | some op =>
      simp only [Option.map_some, Option.getD_some, Op.delta] at hg hl ⊢
      omega

/-- By how much the total is off. -/
def gapAfter (g : ℤ) (e : Event State Label) : ℤ :=
  match assigned e with
  | some mark => unbooked e.pre - gainedSince e.pre mark
  | none => g + cutOff e

def gap (h : List (Event State Label)) : ℤ := h.foldl gapAfter 0

theorem gap_append_singleton (h : List (Event State Label)) (e : Event State Label) :
    gap (h ++ [e]) = gapAfter (gap h) e := List.foldl_concat _ _ _ _

theorem foldl_gapAfter {g : List (Event State Label)} (hnone : ∀ e ∈ g, assigned e = none)
    (a : ℤ) : g.foldl gapAfter a = a + (g.map cutOff).sum := by
  induction g generalizing a with
  | nil => exact (add_zero a).symm
  | cons e g ih =>
    have he : gapAfter a e = a + cutOff e := by
      rw [gapAfter, hnone e List.mem_cons_self]
    rw [List.foldl_cons, he, ih (fun e' h => hnone e' (List.mem_cons_of_mem _ h)), List.map_cons,
      List.sum_cons, add_assoc]

variable {mark id : ℕ}

/-- **The gap is made by the last assignment and by later deletes.** -/
theorem gap_of_last {f g : List (Event State Label)} {e : Event State Label}
    (he : assigned e = some mark) (hnone : ∀ e' ∈ g, assigned e' = none) :
    gap (f ++ e :: g) = unbooked e.pre - gainedSince e.pre mark + (g.map cutOff).sum := by
  have hfirst : gapAfter (f.foldl gapAfter 0) e = unbooked e.pre - gainedSince e.pre mark := by
    rw [gapAfter, he]
  rw [gap, List.foldl_append, List.foldl_cons, hfirst, foldl_gapAfter hnone]

variable {h : List (Event State Label)} {next : Option Op} {s s' : State} {op : Op}

theorem exists_last_assigned (hsome : ∃ e ∈ h, assigned e ≠ none) :
    ∃ f e g mark, h = f ++ e :: g ∧ assigned e = some mark ∧ ∀ e' ∈ g, assigned e' = none := by
  induction h using List.reverseRecOn with
  | nil =>
    obtain ⟨e, he, _⟩ := hsome
    cases he
  | append_singleton h e ih =>
    cases he : assigned e with
    | some mark => exact ⟨h, e, [], mark, rfl, he, fun _ h => nomatch h⟩
    | none =>
      obtain ⟨e', hmem, hne⟩ := hsome
      have hin : e' ∈ h := by
        rcases List.mem_append.mp hmem with hin | hlast
        · exact hin
        · rw [List.mem_singleton.mp hlast] at hne
          exact absurd he hne
      obtain ⟨f, e₀, g, mark, rfl, h₀, hg⟩ := ih ⟨e', hin, hne⟩
      refine ⟨f, e₀, g ++ [e], mark, by simp, h₀, fun e'' h'' => ?_⟩
      rcases List.mem_append.mp h'' with hold | hlast
      · exact hg e'' hold
      · rw [List.mem_singleton.mp hlast]
        exact he

/-- A run that has assigned a sum is reconciled when the gap is closed. -/
theorem reconciled_iff_gap (hsome : ∃ e ∈ h, assigned e ≠ none) : Reconciled h ↔ gap h = 0 := by
  constructor
  · rintro ⟨f, e, g, mark, rfl, he, hnone, hgained⟩
    rw [gap_of_last he hnone, hgained]
    omega
  · intro hgap
    obtain ⟨f, e, g, mark, rfl, he, hnone⟩ := exists_last_assigned hsome
    rw [gap_of_last he hnone] at hgap
    exact ⟨f, e, g, mark, rfl, he, hnone, by omega⟩

/-! ## What a turn does -/

/-- A call that has removed files and is going to assign what it has left. -/
def Op.removing : Op → Bool
  | evicted _ _ _ => true
  | cleared _ => true
  | _ => false

/-- What a delete that books now is cut off. -/
def Op.cut (op : Op) (t : ℤ) : ℤ :=
  match op with
  | deleted _ freed => max 0 (freed - t)
  | _ => 0

/-- The operations in progress, up to a fetch that has been started. -/
def SameOps (s s' : State) : Prop :=
  (s'.ops = s.ops ∧ s'.nextOp = s.nextOp) ∨
    ∃ key entry, s'.ops = s.ops.set s.nextOp (.fetch key entry) ∧ s'.nextOp = s.nextOp + 1

/-- The effect of a turn on the sizes. A call with a measured sum assigns it and
books what it has to book. Any other keeps the difference of the total, with what is
to be booked, and the files, unless it removes files. -/
structure Turn (s s' : State) (op : Op) (next : Option Op) : Prop where
  ops : SameOps s s'
  changes : ∃ l, s'.changes = s.changes ++ l ∧
    (diskSize s'.files : ℤ) = diskSize s.files + l.sum
  measures : ∀ n sum mark, next = some n → n.measured = some (sum, mark) →
    mark ≤ s'.changes.length ∧ (sum : ℤ) + gainedSince s' mark = diskSize s'.files
  assigns : ∀ sum mark, op.measured = some (sum, mark) →
    diskSize s'.files = diskSize s.files ∧
      ∃ t, s'.total = some t ∧ t + deltaOf next = sum + op.delta
  books : op.measured = none → ∀ t', s'.total = some t' →
    ∃ t, s.total = some t ∧ ((∃ n, next = some n ∧ n.removing = true) ∨
      t' + deltaOf next - diskSize s'.files = t + op.delta - diskSize s.files + op.cut t)

theorem sameOps_refl (s : State) : SameOps s s := Or.inl ⟨rfl, rfl⟩

theorem sameOps_joinFetch (s : State) (key : String) (entry : Option Entry) :
    SameOps s (s.joinFetch key entry) := by
  unfold State.joinFetch
  split
  · exact sameOps_refl s
  · exact Or.inr ⟨key, entry, rfl, rfl⟩

theorem joinFetch_keeps (s : State) (key : String) (entry : Option Entry) :
    (s.joinFetch key entry).files = s.files ∧ (s.joinFetch key entry).total = s.total ∧
      (s.joinFetch key entry).changes = s.changes := by
  unfold State.joinFetch
  split <;> exact ⟨rfl, rfl, rfl⟩

/-- A turn that leaves the sizes and the total alone. -/
theorem Turn.idle (hops : SameOps s s')
    (hchanges : s'.changes = s.changes) (hsize : diskSize s'.files = diskSize s.files)
    (htotal : s'.total = s.total) (hop : op.measured = none) (hcut : ∀ t, op.cut t = 0)
    (hdelta : deltaOf next = op.delta)
    (hnext : ∀ n sum mark, next = some n → n.measured = some (sum, mark) →
      sum = diskSize s.files ∧ mark = s.changes.length) : Turn s s' op next where
  ops := hops
  changes := ⟨[], by rw [List.append_nil, hchanges], by rw [hsize, List.sum_nil, add_zero]⟩
  measures n sum mark hn hm := by
    obtain ⟨rfl, rfl⟩ := hnext n sum mark hn hm
    rw [gainedSince, hchanges, List.drop_length, List.sum_nil, add_zero, hsize]
    exact ⟨le_rfl, rfl⟩
  assigns sum mark hm := by
    rw [hop] at hm
    cases hm
  books _ t' ht := by
    refine ⟨t', htotal ▸ ht, Or.inr ?_⟩
    rw [hsize, hdelta, hcut, add_zero]

/-- A turn that assigns a measured sum. -/
theorem Turn.assign {sum : ℕ} {t : ℤ}
    (hops : SameOps s s') (hchanges : s'.changes = s.changes) (hfiles : s'.files = s.files)
    (hop : op.measured = some (sum, mark)) (htotal : s'.total = some t)
    (ht : t + deltaOf next = sum + op.delta)
    (hnext : ∀ n, next = some n → n.measured = none) : Turn s s' op next where
  ops := hops
  changes := ⟨[], by rw [List.append_nil, hchanges], by rw [hfiles, List.sum_nil, add_zero]⟩
  measures n sum mark hn hm := by
    rw [hnext n hn] at hm
    cases hm
  assigns sum' mark' hm := by
    rw [hop] at hm
    cases hm
    exact ⟨by rw [hfiles], t, htotal, ht⟩
  books hnone := by
    rw [hop] at hnone
    cases hnone

theorem length_changes_change (s : State) (files : Files) :
    (s.change files).changes.length = s.changes.length + 1 := by
  show (s.changes ++ [_]).length = _
  rw [List.length_append, List.length_singleton]

theorem gainedSince_change (s : State) (files : Files) :
    gainedSince (s.change files) (s.changes.length + 1) = 0 := by
  rw [gainedSince, ← length_changes_change s files, List.drop_length, List.sum_nil]

/-- A turn that changes the files. -/
theorem Turn.change {s : State} {files : Files} {next : Op}
    (hop : op.measured = none) (hcut : ∀ t, op.cut t = 0)
    (hkind : next.removing = true ∨
      next.measured = none ∧ next.delta - diskSize files = op.delta - diskSize s.files)
    (hnext : ∀ sum mark, next.measured = some (sum, mark) →
      sum = diskSize files ∧ mark = s.changes.length + 1) :
    Turn s (s.change files) op (some next) where
  ops := sameOps_refl s
  changes := ⟨_, rfl, by
    show (diskSize files : ℤ) = _
    rw [List.sum_singleton]
    omega⟩
  measures n sum mark hn hm := by
    cases hn
    obtain ⟨rfl, rfl⟩ := hnext sum mark hm
    rw [gainedSince_change, add_zero]
    exact ⟨(length_changes_change s files).ge, rfl⟩
  assigns sum mark hm := by
    rw [hop] at hm
    cases hm
  books _ t' ht := by
    refine ⟨t', ht, ?_⟩
    rcases hkind with hrem | ⟨_, hdelta⟩
    · exact Or.inl ⟨next, rfl, hrem⟩
    · right
      rw [hcut, add_zero]
      show t' + next.delta - (diskSize files : ℤ) = _
      omega

theorem evictIfOver_measured (S : Setup) (t : ℤ) (a : After) (n : Op)
    (h : evictIfOver S t a = some n) : n.measured = none := by
  unfold evictIfOver at h
  split at h
  · cases a with
    | store key =>
      cases h
      rfl
    | call => cases h
  · cases h
    rfl

theorem deltaOf_next (a : After) : deltaOf a.next = 0 := by
  cases a <;> rfl

theorem deltaOf_evictIfOver (S : Setup) (t : ℤ) (a : After) : deltaOf (evictIfOver S t a) = 0 := by
  unfold evictIfOver
  split
  · exact deltaOf_next a
  · rfl

/-- A turn that books a change. -/
theorem Turn.book (hops : SameOps s s')
    (hchanges : s'.changes = s.changes) (hfiles : s'.files = s.files) (hop : op.measured = none)
    (hnext : ∀ n, next = some n → n.measured = none)
    (htotal : ∀ t', s'.total = some t' →
      ∃ t, s.total = some t ∧ t' + deltaOf next = t + op.delta + op.cut t) :
    Turn s s' op next where
  ops := hops
  changes := ⟨[], by rw [List.append_nil, hchanges], by rw [hfiles, List.sum_nil, add_zero]⟩
  measures n sum mark hn hm := by
    rw [hnext n hn] at hm
    cases hm
  assigns sum mark hm := by
    rw [hop] at hm
    cases hm
  books _ t' ht := by
    obtain ⟨t, hs, heq⟩ := htotal t' ht
    refine ⟨t, hs, Or.inr ?_⟩
    rw [hfiles]
    omega

variable {S : Setup}

/-- **The effect of each turn.** -/
theorem turn_spec {o : Outcome} (h : turn S s op o = some (s', next)) : Turn s s' op next := by
  cases op with
  | read key =>
    cases o with
    | done =>
      cases h
      exact Turn.idle (sameOps_refl s) rfl rfl rfl rfl (fun _ => rfl) rfl
        (by rintro n sum mark ⟨⟩ ⟨⟩)
    | _ => cases h
  | check key entry =>
    cases o with
    | clock now =>
      have hjoin : ∀ entry', Turn s (s.joinFetch key entry') (.check key entry) none := by
        intro entry'
        obtain ⟨hfiles, htotal, hchanges⟩ := joinFetch_keeps s key entry'
        exact Turn.idle (sameOps_joinFetch s key entry') hchanges (by rw [hfiles]) htotal rfl
          (fun _ => rfl) rfl (by rintro n sum mark ⟨⟩)
      cases entry with
      | none =>
        cases h
        exact hjoin none
      | some e =>
        by_cases hold : now - e.info.fetched > S.maxAgeDays * 86400
        · simp only [turn, if_pos hold] at h
          cases h
          exact Turn.idle (sameOps_refl s) rfl rfl rfl rfl (fun _ => rfl) rfl
            (by rintro n sum mark ⟨⟩ ⟨⟩)
        · by_cases hfresh : now < e.info.expires
          · simp only [turn, if_neg hold, if_pos hfresh] at h
            cases h
            exact Turn.idle (sameOps_refl s) rfl rfl rfl rfl (fun _ => rfl) rfl
              (by rintro n sum mark ⟨⟩ ⟨⟩)
          · simp only [turn, if_neg hold, if_neg hfresh] at h
            cases h
            exact hjoin _
    | _ => cases h
  | delete key =>
    cases o with
    | done =>
      cases h
      refine Turn.change rfl (fun _ => rfl) (Or.inr ⟨rfl, ?_⟩) (by rintro sum mark ⟨⟩)
      have hsize := diskSize_erase s.files (S.pathFor key)
      simp only [Op.delta, Op.gain, Op.loss]
      omega
    | _ => cases h
  | deleted key freed =>
    cases o with
    | done =>
      cases h
      obtain ⟨hfiles, htotal, hchanges⟩ :=
        joinFetch_keeps { s with total := bookFreed s.total freed } key none
      refine Turn.book ?_ hchanges hfiles rfl (fun _ h => nomatch h) ?_
      · exact sameOps_joinFetch { s with total := bookFreed s.total freed } key none
      · intro t' ht
        rw [htotal] at ht
        obtain ⟨t, hs, rfl⟩ := Option.map_eq_some_iff.mp ht
        refine ⟨t, hs, ?_⟩
        show max 0 (t - freed) + 0 = t + ((0 : ℕ) - (freed : ℤ)) + max 0 (freed - t)
        omega
    | _ => cases h
  | touch key =>
    cases o with
    | clock now =>
      cases h
      exact Turn.idle (sameOps_refl _) rfl (diskSize_touchFile s.files _ now) rfl rfl
        (fun _ => rfl) rfl (by rintro n sum mark ⟨⟩)
    | _ => cases h
  | fetch key entry =>
    cases o with
    | answer resp now =>
      rw [turn] at h
      split at h
      · cases h
        exact Turn.idle (sameOps_refl s) rfl rfl rfl rfl (fun _ => rfl) rfl
          (by rintro n sum mark ⟨⟩ ⟨⟩)
      · cases h
        exact Turn.idle (sameOps_refl s) rfl rfl rfl rfl (fun _ => rfl) rfl
          (by rintro n sum mark ⟨⟩ ⟨⟩)
    | failed =>
      cases h
      exact Turn.idle (sameOps_refl s) rfl rfl rfl rfl (fun _ => rfl) rfl
        (by rintro n sum mark ⟨⟩ ⟨⟩)
    | _ => cases h
  | write key info body =>
    cases o with
    | clock mtime =>
      cases h
      refine Turn.change rfl (fun _ => rfl) (Or.inr ⟨rfl, ?_⟩) (by rintro sum mark ⟨⟩)
      have hsize := diskSize_writeFile S s.files key info body mtime
      simp only [Op.delta, Op.gain, Op.loss]
      omega
    | _ => cases h
  | written key new previous =>
    cases o with
    | done =>
      rw [turn] at h
      split at h
      · cases h
        exact Turn.idle (sameOps_refl s) rfl rfl rfl rfl (fun _ => rfl) rfl
          (by rintro n sum mark ⟨⟩ ⟨⟩)
      · rename_i t ht
        cases h
        refine Turn.book (sameOps_refl s) rfl rfl rfl (evictIfOver_measured S _ _) ?_
        intro t' ht'
        refine ⟨t, ht, ?_⟩
        rw [deltaOf_evictIfOver, ← Option.some.inj ht']
        show t + new - previous + 0 = t + ((new : ℤ) - previous) + 0
        omega
    | _ => cases h
  | storeScan key new previous | evictScan | statsScan =>
    cases o with
    | done =>
      cases h
      exact Turn.idle (sameOps_refl s) rfl rfl rfl rfl (fun _ => rfl) rfl
        (by
          rintro n sum mark ⟨⟩ ⟨⟩
          exact ⟨rfl, rfl⟩)
    | _ => cases h
  | storeScanned key new previous sum mark =>
    cases o with
    | done =>
      cases h
      refine Turn.assign (sameOps_refl s) rfl rfl rfl rfl ?_ (evictIfOver_measured S _ _)
      rw [deltaOf_evictIfOver]
      show (sum : ℤ) + new - previous + 0 = sum + ((new : ℤ) - previous)
      omega
    | _ => cases h
  | evictScanned sum mark =>
    cases o with
    | done =>
      cases h
      refine Turn.assign (sameOps_refl s) rfl rfl rfl rfl ?_ (evictIfOver_measured S _ _)
      rw [deltaOf_evictIfOver]
      rfl
    | _ => cases h
  | lock a =>
    cases o with
    | done =>
      rw [turn] at h
      split at h
      · cases h
      · cases h
        exact Turn.idle (sameOps_refl s) rfl rfl rfl rfl (fun _ => rfl) rfl
          (by rintro n sum mark ⟨⟩ ⟨⟩)
    | _ => cases h
  | evict a =>
    cases o with
    | done =>
      cases h
      refine Turn.change rfl (fun _ => rfl) (Or.inl rfl) ?_
      rintro sum mark ⟨⟩
      exact ⟨(diskSize_evictFiles S s.files).1.symm, rfl⟩
    | _ => cases h
  | evicted a remaining mark =>
    cases o with
    | done =>
      cases h
      refine Turn.assign (sameOps_refl s) rfl rfl rfl rfl ?_ ?_
      · rw [deltaOf_next]
        rfl
      · intro n hn
        cases a with
        | store key =>
          cases hn
          rfl
        | call => cases hn
    | _ => cases h
  | statsScanned sum mark | cleared mark =>
    cases o with
    | done =>
      cases h
      exact Turn.assign (sameOps_refl s) rfl rfl rfl rfl rfl (fun _ h => nomatch h)
    | _ => cases h
  | clear =>
    cases o with
    | done =>
      cases h
      refine Turn.change rfl (fun _ => rfl) (Or.inl rfl) ?_
      rintro sum mark ⟨⟩
      exact ⟨rfl, rfl⟩
    | _ => cases h
  | finish key =>
    cases o with
    | done =>
      cases h
      exact Turn.idle (sameOps_refl s) rfl rfl rfl rfl (fun _ => rfl) rfl
        (by rintro n sum mark ⟨⟩)
    | _ => cases h

theorem next_ne_evicted (a a' : After) (remaining mark : ℕ) :
    a.next ≠ some (.evicted a' remaining mark) := by
  cases a <;> exact fun h => nomatch h

theorem evictIfOver_ne_evicted (t : ℤ) (a a' : After) (remaining mark : ℕ) :
    evictIfOver S t a ≠ some (.evicted a' remaining mark) := by
  unfold evictIfOver
  split
  · exact next_ne_evicted a a' remaining mark
  · exact fun h => nomatch h

theorem left_of_turn {o : Outcome} {a : After} {remaining : ℕ}
    (h : turn S s op o = some (s', some (.evicted a remaining mark))) :
    remaining = (evictFiles S s.files).2 := by
  revert h
  fun_cases turn S s op o <;> intro h <;> simp_all [evictIfOver_ne_evicted, next_ne_evicted]

/-! ## What a run keeps -/

theorem get?_put_self (s : State) (id : ℕ) (next : Option Op) :
    (s.put id next).ops.get? id = next := by
  cases next with
  | none =>
    show (s.ops.erase id).get? id = none
    rw [OrderedDict.get?_erase, if_pos rfl]
  | some op => exact OrderedDict.get?_set_self s.ops id op

theorem get?_put_of_ne {s : State} {id' : ℕ} (next : Option Op) (hne : id' ≠ id) :
    (s.put id next).ops.get? id' = s.ops.get? id' := by
  cases next with
  | none => exact OrderedDict.get?_erase_of_ne hne
  | some op => exact OrderedDict.get?_set_of_ne hne

theorem put_keeps (s : State) (id : ℕ) (next : Option Op) :
    (s.put id next).files = s.files ∧ (s.put id next).total = s.total ∧
      (s.put id next).changes = s.changes ∧ (s.put id next).nextOp = s.nextOp := by
  cases next <;> exact ⟨rfl, rfl, rfl, rfl⟩

/-- The numbers of calls to come are free. -/
def NextFree (s : State) : Prop := ∀ id, s.nextOp ≤ id → s.ops.get? id = none

theorem lt_nextOp {s : State} (hfree : NextFree s) {op : Op}
    (hop : s.ops.get? id = some op) : id < s.nextOp := by
  by_contra hle
  rw [hfree id (Nat.le_of_not_lt hle)] at hop
  cases hop

/-- What a fetch that has been started changes: it is one more, with nothing to
book. -/
theorem SameOps.spec (hsame : SameOps s s') (hfree : NextFree s) :
    unbooked s' = unbooked s ∧ s.nextOp ≤ s'.nextOp ∧ NextFree s' ∧
      (∀ id < s.nextOp, s'.ops.get? id = s.ops.get? id) ∧
      ∀ id op, s'.ops.get? id = some op → s.ops.get? id = some op ∨ op.measured = none := by
  rcases hsame with ⟨hops, hnext⟩ | ⟨key, entry, hops, hnext⟩
  · refine ⟨?_, hnext.ge, ?_, fun id _ => by rw [hops], fun id op h => Or.inl (hops ▸ h)⟩
    · rw [unbooked, unbooked, hops]
    · intro id hid
      rw [hops]
      exact hfree id (hnext ▸ hid)
  · have hput : s'.ops = (s.put s.nextOp (some (.fetch key entry))).ops := hops
    have hnone := hfree s.nextOp le_rfl
    refine ⟨?_, by omega, ?_, ?_, ?_⟩
    · have hu := unbooked_put s s.nextOp (some (.fetch key entry))
      rw [hnone, unbooked, ← hput] at hu
      have hzero : deltaOf (some (.fetch key entry)) = 0 := rfl
      have hnil : deltaOf (none : Option Op) = 0 := rfl
      rw [hzero, hnil, sub_zero, add_zero] at hu
      exact hu
    · intro id hid
      rw [hput, get?_put_of_ne _ (by omega)]
      exact hfree id (by omega)
    · intro id hid
      rw [hput, get?_put_of_ne _ (by omega)]
    · intro id op h
      rw [hput] at h
      by_cases hid : id = s.nextOp
      · rw [hid, get?_put_self] at h
        cases h
        exact Or.inr rfl
      · rw [get?_put_of_ne _ hid] at h
        exact Or.inl h

/-- What the events so far say about a state: by how much the total is off, unless a
call has removed files and is about to assign what is left, and what the measured sums
are worth. -/
structure Tracks (S : Setup) (h : List (Event State Label)) (s : State) : Prop where
  reckon : (∃ id op, s.ops.get? id = some op ∧ op.removing = true) ∨
    ∀ t, s.total = some t → t + unbooked s = diskSize s.files + gap h
  known : s.total ≠ none → ∃ e ∈ h, assigned e ≠ none
  measured : ∀ id op sum mark, s.ops.get? id = some op → op.measured = some (sum, mark) →
    mark ≤ s.changes.length ∧ (sum : ℤ) + gainedSince s mark = diskSize s.files
  fits : ∀ id a remaining mark, s.ops.get? id = some (.evicted a remaining mark) →
    remaining ≤ S.maxBytes
  free : NextFree s

theorem tracks_fresh (S : Setup) (files : Files) : Tracks S [] (State.fresh files) where
  reckon := Or.inr (fun _ h => nomatch h)
  known h := absurd rfl h
  measured _ _ _ _ h := nomatch h
  fits _ _ _ _ h := nomatch h
  free _ _ := rfl

theorem gainedSince_append {l : List ℤ}
    (hl : s'.changes = s.changes ++ l) (hmark : mark ≤ s.changes.length) :
    gainedSince s' mark = gainedSince s mark + l.sum := by
  rw [gainedSince, gainedSince, hl, List.drop_append_of_le_length hmark, List.sum_append]

theorem removing_of_measured (h : op.removing = true) :
    ∃ sum mark, op.measured = some (sum, mark) := by
  cases op with
  | evicted a remaining mark => exact ⟨remaining, mark, rfl⟩
  | cleared mark => exact ⟨0, mark, rfl⟩
  | _ => cases h

/-- **A turn keeps track.** -/
theorem Tracks.turn
    (ht : Tracks S h s) (hop : s.ops.get? id = some op) (hturn : Turn s s' op next)
    (hleft : ∀ a remaining mark, next = some (.evicted a remaining mark) →
      remaining ≤ S.maxBytes)
    (o : Outcome) : Tracks S (h ++ [⟨s, .turn id o, s'.put id next⟩]) (s'.put id next) := by
  obtain ⟨hfiles, htotal, hchanges, hnextOp⟩ := put_keeps s' id next
  obtain ⟨hunbooked, hle, hfree', hold, hnew⟩ := hturn.ops.spec ht.free
  have hid := lt_nextOp ht.free hop
  have hun : unbooked (s'.put id next) = unbooked s - op.delta + deltaOf next := by
    rw [unbooked_put, hunbooked, hold id hid, hop]
    rfl
  have hgained : ∀ mark, gainedSince (s'.put id next) mark = gainedSince s' mark := fun mark => by
    rw [gainedSince, gainedSince, hchanges]
  obtain ⟨l, hl, hsize⟩ := hturn.changes
  have hassigned : assigned ⟨s, .turn id o, s'.put id next⟩ = op.measured.map Prod.snd := by
    show ((s.ops.get? id).bind Op.measured).map Prod.snd = _
    rw [hop, Option.bind_some]
  constructor
  · -- the total
    cases hm : op.measured with
    | some m =>
      obtain ⟨sum, mark⟩ := m
      right
      intro t hstot
      obtain ⟨hsame, t', ht', heq⟩ := hturn.assigns sum mark hm
      rw [htotal, ht'] at hstot
      cases hstot
      have hworth := (ht.measured id op sum mark hop hm).2
      have hgap : gap (h ++ [⟨s, .turn id o, s'.put id next⟩]) =
          unbooked s - gainedSince s mark := by
        rw [gap_append_singleton, gapAfter, hassigned, hm]
        rfl
      rw [hun, hgap, hfiles, hsame]
      omega
    | none =>
      by_cases hrem : ∃ n, next = some n ∧ n.removing = true
      · obtain ⟨n, hn, hr⟩ := hrem
        left
        exact ⟨id, n, by rw [get?_put_self, hn], hr⟩
      · rcases ht.reckon with ⟨id', op', hop', hr⟩ | hreckon
        · left
          have hne : id' ≠ id := by
            rintro rfl
            rw [hop] at hop'
            cases hop'
            obtain ⟨sum, mark, hsome⟩ := removing_of_measured hr
            rw [hm] at hsome
            cases hsome
          refine ⟨id', op', ?_, hr⟩
          rw [get?_put_of_ne _ hne, hold id' (lt_nextOp ht.free hop')]
          exact hop'
        · right
          intro t' ht'
          rw [htotal] at ht'
          obtain ⟨t, hs, hcase⟩ := hturn.books hm t' ht'
          rcases hcase with hr | heq
          · exact absurd hr hrem
          have hgap : gap (h ++ [⟨s, .turn id o, s'.put id next⟩]) = gap h + op.cut t := by
            rw [gap_append_singleton, gapAfter, hassigned, hm]
            have hcut : cutOff ⟨s, .turn id o, s'.put id next⟩ = op.cut t := by
              simp only [cutOff, running, hop, hs]
              cases op <;> rfl
            rw [← hcut]
            rfl
          have hr := hreckon t hs
          rw [hun, hgap, hfiles]
          omega
  · -- an assignment has made it known
    intro hne
    rw [htotal] at hne
    cases hm : op.measured with
    | some m =>
      refine ⟨_, List.mem_concat_self, ?_⟩
      rw [hassigned, hm]
      exact Option.some_ne_none _
    | none =>
      obtain ⟨t', ht'⟩ := Option.ne_none_iff_exists'.mp hne
      obtain ⟨t, hs, _⟩ := hturn.books hm t' ht'
      obtain ⟨e, he, hea⟩ := ht.known (by rw [hs]; exact Option.some_ne_none t)
      exact ⟨e, List.mem_append_left _ he, hea⟩
  · -- the measured sums
    intro id' op' sum mark hget hm
    rw [hgained, hfiles, hchanges]
    by_cases hne : id' = id
    · rw [hne, get?_put_self] at hget
      exact hturn.measures op' sum mark hget hm
    · rw [get?_put_of_ne _ hne] at hget
      rcases hnew id' op' hget with hget | hnone
      · obtain ⟨hmark, hworth⟩ := ht.measured id' op' sum mark hget hm
        refine ⟨?_, ?_⟩
        · rw [hl, List.length_append]
          omega
        · rw [gainedSince_append hl hmark]
          omega
      · rw [hnone] at hm
        cases hm
  · -- what evictions have left
    intro id' a remaining mark hget
    by_cases hne : id' = id
    · rw [hne, get?_put_self] at hget
      exact hleft a remaining mark hget
    · rw [get?_put_of_ne _ hne] at hget
      rcases hnew id' _ hget with hget | hnone
      · exact ht.fits id' a remaining mark hget
      · cases hnone
  · -- the numbers to come
    intro id' hid'
    rw [hnextOp] at hid'
    rw [get?_put_of_ne _ (by omega)]
    exact hfree' id' hid'

theorem measured_of_begin {c : Call} {total : Option ℤ}
    (h : c.begin S total = some op) : op.measured = none ∧ op.delta = 0 := by
  cases c with
  | get key | stats | clear =>
    cases h
    exact ⟨rfl, rfl⟩
  | evictIfNeeded =>
    cases total with
    | none =>
      cases h
      exact ⟨rfl, rfl⟩
    | some t =>
      simp only [Call.begin, evictIfOver, After.next] at h
      split at h
      · cases h
      · cases h
        exact ⟨rfl, rfl⟩

theorem Tracks.call {s : State} (ht : Tracks S h s) (c : Call)
    (post : State) : Tracks S (h ++ [⟨s, .call c, post⟩])
      (State.put { s with nextOp := s.nextOp + 1 } s.nextOp (c.begin S s.total)) := by
  obtain ⟨hfiles, htotal, hchanges, hnextOp⟩ :=
    put_keeps { s with nextOp := s.nextOp + 1 } s.nextOp (c.begin S s.total)
  have hnone : s.ops.get? s.nextOp = none := ht.free s.nextOp le_rfl
  have hdelta : deltaOf (c.begin S s.total) = 0 := by
    cases hb : c.begin S s.total with
    | none => rfl
    | some op => exact (measured_of_begin hb).2
  have hun : unbooked (State.put { s with nextOp := s.nextOp + 1 } s.nextOp (c.begin S s.total)) =
      unbooked s := by
    rw [unbooked_put, hdelta]
    show unbooked s - deltaOf (s.ops.get? s.nextOp) + 0 = unbooked s
    rw [hnone]
    show unbooked s - 0 + 0 = unbooked s
    omega
  have hgap : gap (h ++ [⟨s, .call c, post⟩]) = gap h := by
    rw [gap_append_singleton]
    exact add_zero (gap h)
  constructor
  · rcases ht.reckon with ⟨id', op', hop', hr⟩ | hreckon
    · left
      have hne : id' ≠ s.nextOp := (lt_nextOp ht.free hop').ne
      refine ⟨id', op', ?_, hr⟩
      rw [get?_put_of_ne _ hne]
      exact hop'
    · right
      intro t hs
      rw [htotal] at hs
      rw [hun, hgap, hfiles]
      exact hreckon t hs
  · intro hne
    rw [htotal] at hne
    obtain ⟨e, he, hea⟩ := ht.known hne
    exact ⟨e, List.mem_append_left _ he, hea⟩
  · intro id' op' sum mark hget hm
    rw [gainedSince, hchanges, hfiles]
    by_cases hid : id' = s.nextOp
    · rw [hid, get?_put_self] at hget
      rw [(measured_of_begin hget).1] at hm
      cases hm
    · rw [get?_put_of_ne _ hid] at hget
      exact ht.measured id' op' sum mark hget hm
  · intro id' a remaining mark hget
    by_cases hid : id' = s.nextOp
    · rw [hid, get?_put_self] at hget
      cases (measured_of_begin hget).1
    · rw [get?_put_of_ne _ hid] at hget
      exact ht.fits id' a remaining mark hget
  · intro id' hid'
    rw [hnextOp] at hid'
    have hlt : s.nextOp + 1 ≤ id' := hid'
    rw [get?_put_of_ne _ (by omega)]
    exact ht.free id' (by omega)

/-- **Every run keeps track.** -/
theorem tracks_of_run {files : Files} {s : State}
    (r : Run (Step S) (State.fresh files) h s) : Tracks S h s := by
  refine Run.history (P := Tracks S) (C := fun _ => True) r (fun _ _ => trivial)
    (tracks_fresh S files) ?_
  rintro h ⟨s, l, s'⟩ hstep _ ht
  cases l with
  | call c =>
    have heq : State.put { s with nextOp := s.nextOp + 1 } s.nextOp (c.begin S s.total) = s' :=
      Option.some.inj hstep
    have hcall := ht.call c s'
    rw [heq] at hcall
    exact hcall
  | turn id o =>
    rw [Step, step] at hstep
    cases hop : s.ops.get? id with
    | none =>
      rw [hop] at hstep
      cases hstep
    | some op =>
      rw [hop] at hstep
      obtain ⟨⟨s₁, next⟩, hr, rfl⟩ := Option.map_eq_some_iff.mp hstep
      refine ht.turn hop (turn_spec hr) (fun a remaining mark hn => ?_) o
      subst hn
      rw [left_of_turn hr]
      exact (diskSize_evictFiles S s.files).2.trans (evictTarget_le S)

/-! ## The total of a run -/

theorem unbooked_of_quiescent {s : State} (hq : Quiescent s) : unbooked s = 0 := by
  have hzero : ∀ f : Op → ℕ, (∀ key, f (.finish key) = 0) → s.ops.total f = 0 := by
    intro f hf
    refine List.sum_eq_zero (fun n hn => ?_)
    obtain ⟨e, he, rfl⟩ := List.mem_map.mp hn
    obtain ⟨key, hkey⟩ := hq e he
    rw [hkey]
    exact hf key
  rw [unbooked, hzero Op.gain (fun _ => rfl), hzero Op.loss (fun _ => rfl)]
  rfl

theorem Tracks.total_eq {s : State} (ht : Tracks S h s)
    (hq : Quiescent s) {t : ℤ} (hs : s.total = some t) : t = diskSize s.files + gap h := by
  rcases ht.reckon with ⟨id, op, hop, hr⟩ | hreckon
  · obtain ⟨key, hkey⟩ := hq (id, op) (OrderedDict.get?_eq_some_iff.mp hop)
    rw [show op = _ from hkey] at hr
    cases hr
  · have := hreckon t hs
    rw [unbooked_of_quiescent hq, add_zero] at this
    exact this

theorem le_of_finish {t : ℤ} {a : After} {n : Op} (h : evictIfOver S t a = some n)
    (hn : n.isFinish = true) : t ≤ S.maxBytes := by
  unfold evictIfOver at h
  split at h
  · assumption
  · cases h
    cases hn

/-- A store that returns leaves a total within the cap. -/
theorem total_le_of_isStore {op n : Op} {o : Outcome}
    (hfits : ∀ a remaining mark, op = .evicted a remaining mark → remaining ≤ S.maxBytes)
    (hstore : op.isStore = true) (hn : n.isFinish = true)
    (h : turn S s op o = some (s', some n)) : ∃ t, s'.total = some t ∧ t ≤ S.maxBytes := by
  cases op with
  | written key new previous =>
    cases o with
    | done =>
      rw [turn] at h
      split at h
      · cases h
        cases hn
      · obtain ⟨hs, hnext⟩ := Prod.mk.inj (Option.some.inj h)
        exact ⟨_, by rw [← hs], le_of_finish hnext hn⟩
    | _ => cases h
  | storeScanned key new previous sum mark =>
    cases o with
    | done =>
      obtain ⟨hs, hnext⟩ := Prod.mk.inj (Option.some.inj h)
      exact ⟨_, by rw [← hs], le_of_finish hnext hn⟩
    | _ => cases h
  | evicted a remaining mark =>
    cases o with
    | done =>
      obtain ⟨hs, _⟩ := Prod.mk.inj (Option.some.inj h)
      exact ⟨remaining, by rw [← hs], by exact_mod_cast hfits a remaining mark rfl⟩
    | _ => cases h
  | _ => cases hstore

theorem total_le_of_storeReturns {e : Event State Label}
    (ht : Tracks S h e.pre) (hstep : Step S e.pre e.label e.post)
    (hreturns : storeReturns e = true) : ∃ t, e.post.total = some t ∧ t ≤ S.maxBytes := by
  obtain ⟨s, l, s'⟩ := e
  cases l with
  | call c => cases hreturns
  | turn id o =>
    obtain ⟨hpre, hpost⟩ := Bool.and_eq_true_iff.mp hreturns
    obtain ⟨op, hop, hstore⟩ := (Option.any_eq_true _ _).mp hpre
    obtain ⟨n, hget, hn⟩ := (Option.any_eq_true _ _).mp hpost
    have hop' : s.ops.get? id = some op := hop
    rw [Step, step, hop'] at hstep
    obtain ⟨⟨s₁, next⟩, hr, rfl⟩ := Option.map_eq_some_iff.mp hstep
    have hnext : next = some n := (get?_put_self s₁ id next).symm.trans hget
    subst hnext
    obtain ⟨t, htotal, hle⟩ := total_le_of_isStore
      (fun a remaining mark heq => ht.fits id a remaining mark (heq ▸ hop')) hstore hn hr
    exact ⟨t, (put_keeps s₁ id (some n)).2.1.trans htotal, hle⟩

/-- **When the total is the size of the files.** In every run over any files, whenever
no call is in progress, a total that is known is the size of the files, and the files
are within the cap after a store, exactly when the last assignment was reconciled. -/
theorem knowsItsSize_iff (S : Setup) (files : Files) (h : List (Event State Label)) (s : State)
    (r : Run (Step S) (State.fresh files) h s) :
    KnowsItsSize S h s ↔ (Quiescent s → s.total ≠ none → Reconciled h) := by
  have ht := tracks_of_run r
  constructor
  · intro hknows hq hne
    obtain ⟨t, hs⟩ := Option.ne_none_iff_exists'.mp hne
    have hsize := (hknows hq).1 t hs
    have hgap := ht.total_eq hq hs
    exact (reconciled_iff_gap (ht.known hne)).mpr (by omega)
  · intro hrec hq
    have hsize : ∀ t, s.total = some t → t = diskSize s.files := by
      intro t hs
      have hne : s.total ≠ none := by
        rw [hs]
        exact Option.some_ne_none t
      have hzero := (reconciled_iff_gap (ht.known hne)).mp (hrec hq hne)
      have hgap := ht.total_eq hq hs
      omega
    refine ⟨hsize, fun e hlast hreturns => ?_⟩
    obtain ⟨f, rfl⟩ := List.getLast?_eq_some_iff.mp hlast
    have hat := r.at_event
    obtain ⟨t, htotal, hle⟩ := total_le_of_storeReturns (tracks_of_run hat.1) hat.2.1 hreturns
    have hpost : e.post = s := r.post_of_getLast hlast
    rw [hpost] at htotal
    rw [hsize t htotal] at hle
    exact_mod_cast hle

/-! ### The first store -/

def sampleSetup : Setup where
  pathFor key := ("osm", key)
  metaLength _ := 100
  maxBytes := 1000000
  maxAgeDays := 365

def sampleAnswer : Response where
  status := 200
  fresh := ⟨3600, none, false, false⟩
  ct := "image/png"
  etag := none
  lm := none
  body := [1, 2, 3]

/-- The first tile of an empty cache is fetched and stored. -/
def firstStore : List Label :=
  [.call (.get "a"), .turn 0 .done, .turn 0 (.clock 0), .turn 1 (.answer sampleAnswer 0),
    .turn 1 (.clock 0), .turn 1 .done, .turn 1 .done, .turn 1 .done]

/-- Nothing is in progress, and the total and the size of the files are these. -/
def endsWith (total : ℤ) (size : ℕ) (r : List (Event State Label) × State) : Bool :=
  r.2.ops.entries.all (fun e => e.2.isFinish) && decide (r.2.total = some total) &&
    decide (diskSize r.2.files = size)

theorem endsWith_spec {total : ℤ} {size : ℕ} {s : State}
    (hends : endsWith total size (h, s) = true) :
    Quiescent s ∧ s.total = some total ∧ diskSize s.files = size := by
  simp only [endsWith, Bool.and_eq_true, decide_eq_true_eq] at hends
  refine ⟨fun e he => ?_, hends.1.2, hends.2⟩
  have hfinish := List.all_eq_true.mp hends.1.1 e he
  cases hop : e.2 with
  | finish key => exact ⟨key, rfl⟩
  | _ =>
    rw [hop] at hfinish
    cases hfinish

theorem not_forall_knowsItsSize :
    ¬∀ (S : Setup) (files : Files) (h : List (Event State Label)) (s : State),
      Run (Step S) (State.fresh files) h s → KnowsItsSize S h s := by
  intro hall
  obtain ⟨h, s, r, _, hends⟩ := Run.exists_of_trace (step sampleSetup)
    (State.fresh OrderedDict.empty) firstStore (endsWith 222 111) (by decide)
  obtain ⟨hq, htotal, hsize⟩ := endsWith_spec hends
  have hknows := (hall sampleSetup OrderedDict.empty h s r hq).1 222 htotal
  rw [hsize] at hknows
  cases hknows

/-- With `stats` read before, the first store is booked once. -/
def storeAfterStats : List Label :=
  [.call .stats, .turn 0 .done, .turn 0 .done, .call (.get "a"), .turn 1 .done,
    .turn 1 (.clock 0), .turn 2 (.answer sampleAnswer 0), .turn 2 (.clock 0), .turn 2 .done]

theorem storeAfterStats_reconciled :
    ∃ h s, Run (Step sampleSetup) (State.fresh OrderedDict.empty) h s ∧
      h.map Event.label = storeAfterStats ∧ Reconciled h := by
  obtain ⟨h, s, r, hlabels, hends⟩ := Run.exists_of_trace (step sampleSetup)
    (State.fresh OrderedDict.empty) storeAfterStats (endsWith 111 111) (by decide)
  obtain ⟨hq, htotal, hsize⟩ := endsWith_spec hends
  have hknows : KnowsItsSize sampleSetup h s := by
    refine fun _ => ⟨fun t ht => ?_, fun _ _ _ => ?_⟩
    · rw [htotal] at ht
      rw [← Option.some.inj ht, hsize]
      rfl
    · rw [hsize]
      decide
  have hne : s.total ≠ none := by
    rw [htotal]
    exact Option.some_ne_none _
  exact ⟨h, s, r, hlabels,
    (knowsItsSize_iff sampleSetup OrderedDict.empty h s r).mp hknows hq hne⟩

end RtfmEv.TileCache
