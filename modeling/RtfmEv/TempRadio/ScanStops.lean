import RtfmEv.TempRadio.Scanner
import RtfmEv.TempRadio.Stranded

/-!
# When a scan stops with its session

The scanner tells an end from outside by a flag that it has set while it waits for
a call of its own. Once it is told, the run asks for no start any more. An
extension that waits for the lock meets the session of the scan, as long as no
other start comes in between.
-/

namespace RtfmEv.TempRadio

open RtfmEv.Lib

/-! ### What a scan must not do -/

/-- Somebody else than the scanner clears the session. -/
def endsOutside (e : ScannerEvent) : Bool :=
  decide (e.label = .service .saved) && e.pre.clears.any (fun caller => !caller.isScanner)

def Request.isStart : Request → Bool
  | .start _ _ => true
  | _ => false

/-- A start that the run has asked for gets the lock. -/
def startsEntry (run : ℕ) (e : ScannerEvent) : Bool :=
  decide (e.label = .service .enter) &&
    e.pre.service.queue.head?.any (fun c => decide (c.caller = .scan run) && c.request.isStart)

/-- An extension of the run changes when the session ends. -/
def movesEnd (run : ℕ) (e : ScannerEvent) : Prop :=
  e.label = .service .enter ∧ (∃ c, e.pre.service.queue.head? = some c ∧ c.caller = .hold run) ∧
    e.post.service.session.map Session.expiresAt ≠ e.pre.service.session.map Session.expiresAt

/-- The run that is on starts nothing after its session was ended from outside, and its
extensions leave the sessions of others alone. -/
structure StopsWithSession (h : List ScannerEvent) : Prop where
  entries : ∀ h₁ e h₂, h = h₁ ++ e :: h₂ → endsOutside e = true → e.pre.task ≠ none →
    ∀ e' ∈ h₂, startsEntry e.pre.lastRun e' = false
  extensions : ∀ e ∈ h, ∀ run, movesEnd run e →
    e.pre.service.StartedBy (fun caller => caller = .scan run)

/-! ### The branches that miss it -/

namespace ScannerState

/-- The scanner has begun and waits for no call of its own, or only for its last one. -/
def hears (s : ScannerState) : Bool :=
  match s.task with
  | some (_, .created) => false
  | some (_, .starting _) => false
  | some (_, .restoring _) => false
  | _ => true

/-- The extensions that have not got the lock yet are of the run that started the
session. -/
def extendsOnly (starter : Caller) (s : ScannerState) : Bool :=
  s.pendingExtends.all (fun x => decide (starter = .scan x.1)) &&
    s.service.queue.all fun c =>
      match c.caller with
      | .hold run => decide (starter = .scan run)
      | _ => true

end ScannerState

/-- The step is none of those after which the scanner has missed an end from outside
or an extension meets another session. -/
def minds (e : ScannerEvent) : Bool :=
  match e.label with
  | .service .saved => !endsOutside e || e.pre.hears
  | .service .enter =>
    match e.pre.service.queue.head? with
    | some ⟨caller, .start _ _⟩ => !e.pre.service.accepts || e.pre.extendsOnly caller
    | _ => true
  | .service op => (e.pre.service.putsBack op).all (fun p => e.pre.extendsOnly p.startedBy)
  | .activity =>
    !e.pre.holdsOn ||
      e.pre.service.session.all (fun st => decide (st.startedBy = .scan e.pre.lastRun))
  | _ => true

/-! ### One call at a time -/

/-- The run of a scan. -/
def Caller.isScan : Caller → Bool
  | .scan _ => true
  | _ => false

namespace ScannerState

/-- The calls of the scanner itself. -/
def runCalls (s : ScannerState) : List Call :=
  s.service.scannerCalls.filter (fun c => c.caller.isScan)

/-- The scanner waits for a call of its own. -/
def awaiting (s : ScannerState) : Bool :=
  match s.task with
  | some (_, .starting _) => true
  | some (_, .restoring _) => true
  | some (_, .finalRestore) => true
  | some _ => false
  | none => decide (s.stopping = some .restoring)

/-- The scanner waits for at most one call, and the flag is set only meanwhile. -/
structure Tidy (s : ScannerState) : Prop where
  count : s.runCalls.length ≤ if s.awaiting then 1 else 0
  mine : ∀ c ∈ s.runCalls, c.caller = .scan s.lastRun
  starts : ∀ c ∈ s.runCalls, ∀ req scan, c.request = .start req scan →
    ∃ l p, s.task = some (l, .starting p)
  flag : s.internalSwitch = true → s.awaiting = true ∨ s.stopping ≠ none
  running : s.task ≠ none → s.running = true
  stopping : s.stopping ≠ none → ∀ l phase, s.task = some (l, phase) → phase = .finalRestore

/-- The scanner has no call, and may go on. -/
structure Ready (s : ScannerState) : Prop where
  calls : s.runCalls = []
  flag : s.internalSwitch = true → s.stopping ≠ none
  running : s.running = true

section

variable {s s' : ScannerState} {l : ScanList}

theorem runCalls_ask (request : Request) (h : s.runCalls = []) :
    (s.ask request).runCalls = [⟨.scan s.lastRun, request⟩] := by
  unfold runCalls at h ⊢
  unfold ask
  dsimp only
  rw [ServiceState.scannerCalls_append, List.filter_append, h]
  rfl

theorem tidy_ask {request : Request} (h : s.runCalls = [])
    (hrunning : s.task ≠ none → s.running = true) (hawaiting : s.awaiting = true)
    (hstart : ∀ req scan, request = .start req scan → ∃ l p, s.task = some (l, .starting p))
    (hstopping : s.stopping ≠ none → ∀ l phase, s.task = some (l, phase) → phase = .finalRestore) :
    (s.ask request).Tidy := by
  have hnow : (s.ask request).awaiting = true := hawaiting
  refine ⟨?_, ?_, ?_, fun _ => Or.inl hnow, hrunning, hstopping⟩
  · rw [runCalls_ask request h, hnow]
    exact Nat.le_refl 1
  · intro c hc
    rw [runCalls_ask request h, List.mem_singleton] at hc
    rw [hc]
    rfl
  · intro c hc req scan hrequest
    rw [runCalls_ask request h, List.mem_singleton] at hc
    subst hc
    exact hstart req scan hrequest

/-- Without a call of its own, the scanner is tidy unless its flag stays set. -/
theorem tidy_of_nil (h : s.runCalls = []) (hflag : s.internalSwitch = true → s.stopping ≠ none)
    (hrunning : s.task ≠ none → s.running = true)
    (hstopping : s.stopping ≠ none → ∀ l phase, s.task = some (l, phase) → phase = .finalRestore) :
    s.Tidy := by
  have hno : ∀ {c}, c ∉ s.runCalls := by
    intro c hc
    rw [h] at hc
    cases hc
  refine ⟨?_, fun c hc => absurd hc hno, fun c hc => absurd hc hno, fun hon => Or.inr (hflag hon),
    hrunning, hstopping⟩
  rw [h]
  exact Nat.zero_le _

theorem tidy_of_none (h : s.runCalls = []) (hflag : s.internalSwitch = true → s.stopping ≠ none)
    (htask : s.task = none) : s.Tidy := by
  refine tidy_of_nil h hflag (fun hsome => absurd htask hsome) ?_
  intro _ l phase hsome
  rw [htask] at hsome
  cases hsome

theorem Ready.finishRun (h : s.Ready) (l : ScanList) : (s.finishRun l).Tidy := by
  unfold ScannerState.finishRun
  split
  · refine tidy_ask h.calls (fun _ => h.running) rfl ?_ ?_
    · intro req scan hrequest
      cases hrequest
    · intro _ l' phase htask
      cases htask
      rfl
  · exact tidy_of_none h.calls h.flag rfl

theorem Ready.startEntry (h : s.Ready) (hstopping : s.stopping = none) (l : ScanList)
    (p : ScanPosition) : (s.startEntry l p).Tidy := by
  refine tidy_ask h.calls (fun _ => rfl) rfl (fun _ _ _ => ⟨l, p, rfl⟩) ?_
  intro hsome
  exact absurd hstopping hsome

theorem Ready.goOn (h : s.Ready) (hstopping : s.stopping = none) (l : ScanList)
    (next : Option ScanPosition) : (s.goOn l next).Tidy := by
  unfold ScannerState.goOn
  split
  · exact h.finishRun l
  split
  · exact h.finishRun l
  · exact h.startEntry hstopping l _

theorem Tidy.stopping_none (h : s.Tidy) {phase : RunPhase} (htask : s.task = some (l, phase))
    (hphase : phase ≠ .finalRestore) : s.stopping = none := by
  by_contra hne
  exact hphase (h.stopping hne l phase htask)

theorem Tidy.ready (h : s.Tidy) {phase : RunPhase} (htask : s.task = some (l, phase))
    (hphase : s.awaiting = false) : s.Ready := by
  refine ⟨?_, ?_, h.running (by rw [htask]; exact Option.some_ne_none _)⟩
  · have hcount := h.count
    rw [hphase] at hcount
    exact List.length_eq_zero_iff.mp (Nat.le_zero.mp hcount)
  · intro hon
    rcases h.flag hon with hawaiting | hstopping
    · rw [hphase] at hawaiting
      cases hawaiting
    · exact hstopping

/-! ### What a step keeps tidy -/

/-- The scanner as it was, with fewer of its calls in the service. -/
theorem Tidy.congr (h : s.Tidy) (hcalls : ∃ ended, s.runCalls = ended ++ s'.runCalls)
    (hrun : s'.lastRun = s.lastRun) (htask : s'.task = s.task)
    (hstopping : s'.stopping = s.stopping) (hflag : s'.internalSwitch = s.internalSwitch)
    (hrunning : s'.running = s.running) : s'.Tidy := by
  obtain ⟨ended, hcalls⟩ := hcalls
  have hawaiting : s'.awaiting = s.awaiting := by
    unfold awaiting
    rw [htask, hstopping]
  refine ⟨?_, ?_, ?_, ?_, ?_, ?_⟩
  · have hcount := h.count
    rw [hcalls, List.length_append] at hcount
    rw [hawaiting]
    exact Nat.le_trans (Nat.le_add_left _ _) hcount
  · intro c hc
    rw [hrun]
    exact h.mine c (hcalls ▸ List.mem_append_right _ hc)
  · intro c hc req scan hrequest
    rw [htask]
    exact h.starts c (hcalls ▸ List.mem_append_right _ hc) req scan hrequest
  · rw [hflag, hawaiting, hstopping]
    exact h.flag
  · rw [htask, hrunning]
    exact h.running
  · rw [htask, hstopping]
    exact h.stopping

theorem Tidy.resume (h : s.Tidy) (hnone : s.runCalls = []) (ok : Bool) : (s.resume ok).Tidy := by
  have hready : ∀ {l phase}, s.task = some (l, phase) → Ready { s with internalSwitch := false } := by
    intro l phase htask
    refine ⟨hnone, ?_, h.running (by rw [htask]; exact Option.some_ne_none _)⟩
    intro hon
    cases hon
  have hoff : ∀ {p : Prop}, false = true → p := fun hon => absurd hon Bool.false_ne_true
  unfold ScannerState.resume
  dsimp only
  split
  · rename_i l p htask
    split
    · refine tidy_of_nil hnone hoff (fun _ => (hready htask).running) ?_
      intro hstopping
      exact absurd (h.stopping_none htask (by simp)) hstopping
    · exact (hready htask).finishRun l
  · rename_i l p htask
    split
    · refine tidy_of_nil hnone hoff (fun _ => (hready htask).running) ?_
      intro hstopping
      exact absurd (h.stopping_none htask (by simp)) hstopping
    · exact (hready htask).finishRun l
  · exact tidy_of_none hnone hoff rfl
  · exact tidy_of_nil hnone hoff h.running h.stopping
  · rename_i htask
    split
    · exact tidy_of_none hnone hoff htask
    · exact tidy_of_none hnone hoff htask
    · exact tidy_of_none hnone hoff htask

theorem Tidy.onSessionEnd (h : s.Tidy) : s.onSessionEnd.Tidy := by
  unfold ScannerState.onSessionEnd
  split
  · exact h
  · exact h.congr ⟨[], rfl⟩ rfl rfl rfl rfl rfl

theorem Tidy.follow (h : s.Tidy) {op : ServiceOp} {t : ServiceState}
    (hcalls : s.service.scannerCalls = ServiceState.endedCalls op s.service t ++ t.scannerCalls) :
    (s.follow op t).Tidy := by
  have hrun : s.runCalls = (ServiceState.endedCalls op s.service t).filter (fun c => c.caller.isScan)
      ++ runCalls { s with service := t } := by
    unfold runCalls
    rw [hcalls, List.filter_append]
  have htold : ∀ {u}, (if op = .saved ∧ s.clears ≠ none then
      ScannerState.onSessionEnd { s with service := t } else { s with service := t }) = u →
        u.Tidy ∧ u.runCalls = runCalls { s with service := t } := by
    intro u hu
    subst hu
    have hmoved : Tidy { s with service := t } := h.congr ⟨_, hrun⟩ rfl rfl rfl rfl rfl
    split
    · refine ⟨hmoved.onSessionEnd, ?_⟩
      unfold ScannerState.onSessionEnd
      split <;> rfl
    · exact ⟨hmoved, rfl⟩
  unfold ScannerState.follow
  dsimp only
  split
  · rename_i c ok hended
    split
    · rename_i hcaller
      refine (htold rfl).1.resume ?_ ok
      rw [(htold rfl).2]
      -- the call that ended was the only one
      have hone : (ServiceState.endedCalls op s.service t).filter (fun c => c.caller.isScan) =
          [c] := by
        unfold ServiceState.endedCalls
        rw [hended]
        simp [hcaller, Caller.isScanner, Caller.isScan]
      have hcount := h.count
      rw [hrun, hone, List.length_append] at hcount
      refine List.length_eq_zero_iff.mp ?_
      simp only [List.length_singleton] at hcount
      split at hcount <;> omega
    · exact (htold rfl).1
  · exact (htold rfl).1

theorem runCalls_cancel (h : s.Tidy) :
    runCalls { s with service := s.service.cancel s.lastRun } = [] := by
  refine List.eq_nil_iff_forall_not_mem.mpr ?_
  intro c hc
  obtain ⟨hscanner, hscan⟩ := List.mem_filter.mp hc
  have hmine : c ∈ s.runCalls → c.caller = .scan s.lastRun := h.mine c
  unfold ServiceState.scannerCalls ServiceState.scannerQueue ServiceState.cancel at hscanner
  dsimp only at hscanner
  rcases List.mem_append.mp hscanner with hheld | hqueue
  · obtain ⟨hheld, hby⟩ := List.mem_filter.mp hheld
    split at hheld
    · cases hheld
    · rename_i hother
      refine hother ?_
      obtain ⟨x, hx, hfst⟩ := List.mem_map.mp hheld
      have hholder : s.service.holder = some x := Option.mem_toList.mp hx
      rw [hholder, ← hmine, ← hfst]
      · rfl
      · refine List.mem_filter.mpr ⟨List.mem_append_left _ ?_, hscan⟩
        exact List.mem_filter.mpr ⟨hheld, hby⟩
  · obtain ⟨hqueue, hby⟩ := List.mem_filter.mp hqueue
    obtain ⟨hqueue, hother⟩ := List.mem_filter.mp hqueue
    refine of_decide_eq_true hother (hmine ?_)
    refine List.mem_filter.mpr ⟨List.mem_append_right _ ?_, hscan⟩
    exact List.mem_filter.mpr ⟨hqueue, hby⟩

theorem Tidy.begin (h : s.Tidy) (hbegin : s.begin = some s') : s'.Tidy := by
  unfold ScannerState.begin at hbegin
  split at hbegin
  · rename_i l htask
    cases hbegin
    have hready := h.ready htask (by simp [awaiting, htask])
    refine Ready.goOn ?_ ?_ l _
    · exact ⟨hready.calls, hready.flag, hready.running⟩
    · exact h.stopping_none htask (by simp)
  · cases hbegin

theorem Tidy.dwelled (h : s.Tidy) (hdwelled : s.dwelled = some s') : s'.Tidy := by
  unfold ScannerState.dwelled at hdwelled
  split at hdwelled
  · split at hdwelled
    · rename_i l p htask
      cases hdwelled
      have hready := h.ready htask (by simp [awaiting, htask])
      have hstopping := h.stopping_none htask (by simp)
      split
      · exact hready.finishRun l
      split
      · refine tidy_ask hready.calls (fun _ => hready.running) rfl ?_ ?_
        · intro req scan hrequest
          cases hrequest
        · intro hsome
          exact absurd hstopping hsome
      · exact hready.goOn hstopping l _
    · rename_i l p htask
      cases hdwelled
      exact (h.ready htask (by simp [awaiting, htask])).goOn (h.stopping_none htask (by simp)) l _
    · cases hdwelled
  · cases hdwelled

theorem Tidy.extend (h : s.Tidy) (hextend : s.extend = some s') : s'.Tidy := by
  unfold ScannerState.extend at hextend
  split at hextend
  · cases hextend
    refine h.congr ⟨[], ?_⟩ rfl rfl rfl rfl rfl
    unfold runCalls
    dsimp only
    rw [ServiceState.scannerCalls_append, List.filter_append]
    exact (List.append_nil _).symm
  · cases hextend

theorem Tidy.calls_of_idle (h : s.Tidy) (hidle : s.awaiting = false) : s.runCalls = [] := by
  have hcount := h.count
  rw [hidle] at hcount
  exact List.length_eq_zero_iff.mp (Nat.le_zero.mp hcount)

theorem Tidy.startTask (h : s.Tidy) {l : ScanList} (hstart : s.startTask l = some s') :
    s'.Tidy := by
  unfold ScannerState.startTask at hstart
  split at hstart
  · rename_i htask hstopping
    cases hstart
    have hidle : s.awaiting = false := by simp [awaiting, htask, hstopping]
    refine tidy_of_nil (h.calls_of_idle hidle) ?_ (fun _ => rfl) ?_
    · intro hon
      rcases h.flag hon with hawaiting | hsome
      · rw [hidle] at hawaiting
        cases hawaiting
      · exact hsome
    · intro hsome
      exact absurd hstopping hsome
  · cases hstart

theorem Tidy.stop (h : s.Tidy) {restore : Bool} (hstop : s.stop restore = some s') :
    s'.Tidy := by
  unfold ScannerState.stop at hstop
  split at hstop
  · rename_i l phase htask hstopping
    have hrunning : s.running = true := h.running (by rw [htask]; exact Option.some_ne_none _)
    have hnone := runCalls_cancel h
    dsimp only at hstop
    cases phase with
    | created | finalRestore =>
      cases hstop
      exact tidy_of_none hnone (fun _ => Option.some_ne_none _) rfl
    | dwelling p | dwellingOnNormal p | starting p | restoring p =>
      cases hstop
      refine Ready.finishRun ?_ l
      exact ⟨hnone, fun _ => Option.some_ne_none _, hrunning⟩
  · cases hstop

theorem Tidy.stopped (h : s.Tidy) (hstopped : s.stopped = some s') : s'.Tidy := by
  unfold ScannerState.stopped at hstopped
  split at hstopped
  · rename_i restore htask hstopping
    have hnone := h.calls_of_idle (by simp [awaiting, htask, hstopping])
    dsimp only at hstopped
    split at hstopped
    · cases hstopped
      refine tidy_ask hnone (fun hsome => absurd htask hsome) (by simp [awaiting, htask]) ?_ ?_
      · intro req scan hrequest
        cases hrequest
      · intro _ l phase hsome
        rw [htask] at hsome
        cases hsome
    · cases hstopped
      refine tidy_of_none hnone ?_ htask
      intro hon
      cases hon
  · cases hstopped

theorem Tidy.activity (h : s.Tidy) : s.onActivity.Tidy := by
  unfold ScannerState.onActivity
  split
  · exact h.congr ⟨[], rfl⟩ rfl rfl rfl rfl rfl
  · exact h

end

/-! ### What a run that was told asks for -/

/-- The run is runEnded, or it has been told and asks for no start any more. -/
def Told (run : ℕ) (s : ScannerState) : Prop :=
  run < s.lastRun ∨ (run = s.lastRun ∧
    match s.task with
    | none => True
    | some (_, .finalRestore) => True
    | some (_, .dwelling _) => s.stopRequested = true
    | some (_, .dwellingOnNormal _) => s.stopRequested = true
    | some _ => False)

section

variable {s s' : ScannerState} {run : ℕ}

theorem Told.no_start (h : s.Told run) (htidy : s.Tidy) {c : Call} (hc : c ∈ s.service.scannerCalls)
    (hcaller : c.caller = .scan run) : c.request.isStart = false := by
  by_contra hstart
  obtain ⟨req, scan, hrequest⟩ : ∃ req scan, c.request = .start req scan := by
    cases hrequest : c.request with
    | start req scan => exact ⟨req, scan, rfl⟩
    | _ =>
      rw [hrequest] at hstart
      exact absurd rfl hstart
  have hrun : c ∈ s.runCalls := by
    refine List.mem_filter.mpr ⟨hc, ?_⟩
    rw [hcaller]
    rfl
  obtain ⟨l, p, htask⟩ := htidy.starts c hrun req scan hrequest
  have hmine := htidy.mine c hrun
  rw [hcaller] at hmine
  cases hmine
  rcases h with hlt | ⟨_, hphase⟩
  · exact absurd hlt (Nat.lt_irrefl _)
  · rw [htask] at hphase
    exact hphase

theorem Told.congr (h : s.Told run) (hrun : s'.lastRun = s.lastRun) (htask : s'.task = s.task)
    (hstop : s.stopRequested = true → s'.stopRequested = true) : s'.Told run := by
  unfold Told at h ⊢
  rw [hrun, htask]
  rcases h with hlt | ⟨heq, hphase⟩
  · exact Or.inl hlt
  · refine Or.inr ⟨heq, ?_⟩
    split at hphase
    · exact trivial
    · exact trivial
    · exact hstop hphase
    · exact hstop hphase
    · exact hphase

theorem Told.le (h : s.Told run) : run ≤ s.lastRun := by
  rcases h with hlt | ⟨heq, _⟩
  · exact Nat.le_of_lt hlt
  · exact Nat.le_of_eq heq

theorem told_of_none (hle : run ≤ s.lastRun) (htask : s.task = none) : s.Told run := by
  rcases Nat.lt_or_eq_of_le hle with hlt | heq
  · exact Or.inl hlt
  · refine Or.inr ⟨heq, ?_⟩
    rw [htask]
    exact trivial

theorem told_finishRun (hle : run ≤ s.lastRun) (l : ScanList) : (s.finishRun l).Told run := by
  unfold finishRun
  split
  · rcases Nat.lt_or_eq_of_le hle with hlt | heq
    · exact Or.inl hlt
    · exact Or.inr ⟨heq, trivial⟩
  · exact told_of_none hle rfl

theorem Told.onSessionEnd (h : s.Told run) : s.onSessionEnd.Told run := by
  unfold ScannerState.onSessionEnd
  split
  · exact h
  · exact h.congr rfl rfl (fun _ => rfl)

theorem Told.resume (h : s.Told run) (ok : Bool) : (s.resume ok).Told run := by
  have hle := h.le
  unfold Told at h
  unfold ScannerState.resume
  dsimp only
  split
  · rename_i l p htask
    rw [htask] at h
    rcases h with hlt | ⟨_, hphase⟩
    · split
      · exact Or.inl hlt
      · refine told_finishRun ?_ l
        exact hle
    · exact absurd hphase id
  · rename_i l p htask
    rw [htask] at h
    rcases h with hlt | ⟨_, hphase⟩
    · split
      · exact Or.inl hlt
      · refine told_finishRun ?_ l
        exact hle
    · exact absurd hphase id
  · exact told_of_none hle rfl
  · exact Told.congr h rfl rfl id
  · rename_i htask
    split
    · exact told_of_none hle htask
    · exact told_of_none hle htask
    · exact told_of_none hle htask

theorem Told.follow (h : s.Told run) (op : ServiceOp) (t : ServiceState) :
    (s.follow op t).Told run := by
  have htold : ∀ {u}, (if op = .saved ∧ s.clears ≠ none then
      ScannerState.onSessionEnd { s with service := t } else { s with service := t }) = u →
        u.Told run := by
    intro u hu
    subst hu
    have hmoved : Told run { s with service := t } := h.congr rfl rfl id
    split
    · exact hmoved.onSessionEnd
    · exact hmoved
  unfold ScannerState.follow
  dsimp only
  split
  · split
    · exact (htold rfl).resume _
    · exact htold rfl
  · exact htold rfl

theorem Told.begin (h : s.Told run) (hbegin : s.begin = some s') : s'.Told run := by
  unfold ScannerState.begin at hbegin
  split at hbegin
  · rename_i l htask
    cases hbegin
    have hlt : run < s.lastRun := by
      rcases h with hlt | ⟨_, hphase⟩
      · exact hlt
      · rw [htask] at hphase
        exact absurd hphase id
    unfold goOn finishRun
    split
    · split <;> exact Or.inl hlt
    split
    · split <;> exact Or.inl hlt
    · exact Or.inl hlt
  · cases hbegin

theorem Told.dwelled (h : s.Told run) (hdwelled : s.dwelled = some s') : s'.Told run := by
  have hle := h.le
  have hgone : ∀ {l}, (s.stopRequested = true ∨ run < s.lastRun) → ∀ next,
      (s.goOn l next).Told run := by
    intro l hcase next
    unfold goOn
    split
    · exact told_finishRun hle l
    · rename_i hgoes
      have hlt : run < s.lastRun := hcase.resolve_left hgoes
      split
      · exact told_finishRun hle l
      · exact Or.inl hlt
  unfold ScannerState.dwelled at hdwelled
  split at hdwelled
  · split at hdwelled
    · rename_i l p htask
      cases hdwelled
      have hcase : s.stopRequested = true ∨ run < s.lastRun := by
        rcases h with hlt | ⟨_, hphase⟩
        · exact Or.inr hlt
        · rw [htask] at hphase
          exact Or.inl hphase
      split
      · exact told_finishRun hle l
      split
      · rename_i hgoes _
        exact Or.inl (hcase.resolve_left hgoes)
      · exact hgone hcase _
    · rename_i l p htask
      cases hdwelled
      refine hgone ?_ _
      rcases h with hlt | ⟨_, hphase⟩
      · exact Or.inr hlt
      · rw [htask] at hphase
        exact Or.inl hphase
    · cases hdwelled
  · cases hdwelled

theorem Told.extend (h : s.Told run) (hextend : s.extend = some s') : s'.Told run := by
  unfold ScannerState.extend at hextend
  split at hextend <;> cases hextend
  exact h.congr rfl rfl id

theorem Told.startTask (h : s.Told run) {l : ScanList} (hstart : s.startTask l = some s') :
    s'.Told run := by
  unfold ScannerState.startTask at hstart
  split at hstart <;> cases hstart
  exact Or.inl (Nat.lt_succ_of_le h.le)

theorem Told.stop (h : s.Told run) {restore : Bool} (hstop : s.stop restore = some s') :
    s'.Told run := by
  have hle := h.le
  unfold ScannerState.stop at hstop
  split at hstop
  · rename_i l phase _ _
    dsimp only at hstop
    have hfinished : ∀ {t}, t.lastRun = s.lastRun → (finishRun l t).Told run := by
      intro t ht
      refine told_finishRun ?_ l
      rw [ht]
      exact hle
    split at hstop <;> cases hstop
    · exact told_of_none hle rfl
    · exact hfinished rfl
    · exact hfinished rfl
    · exact hfinished rfl
    · exact hfinished rfl
    · exact told_of_none hle rfl
  · cases hstop

theorem Told.stopped (h : s.Told run) (hstopped : s.stopped = some s') : s'.Told run := by
  have hle := h.le
  unfold ScannerState.stopped at hstopped
  split at hstopped
  · rename_i restore htask _
    dsimp only at hstopped
    split at hstopped <;> cases hstopped
    · exact told_of_none hle htask
    · exact told_of_none hle htask
  · cases hstopped

theorem Told.activity (h : s.Told run) : s.onActivity.Told run := by
  unfold ScannerState.onActivity
  split
  · exact h.congr rfl rfl id
  · exact h

/-- **The scanner is told** of an end from outside that it hears. -/
theorem told_follow (h : s.Tidy) (htask : s.task ≠ none) (hheard : s.hears = true)
    (hclears : s.clears ≠ none) (t : ServiceState) : (s.follow .saved t).Told s.lastRun := by
  have htold : Told s.lastRun (ScannerState.onSessionEnd { s with service := t }) := by
    obtain ⟨⟨l, phase⟩, hphase⟩ := Option.ne_none_iff_exists'.mp htask
    have hrunning := h.running htask
    have hstops : s.awaiting = false → s.stopping = none → Told s.lastRun { s with
        service := t
        stopRequested := true } → Told s.lastRun
          (ScannerState.onSessionEnd { s with service := t }) := by
      intro hidle hstopping hdone
      have hoff : s.internalSwitch = false := by
        by_contra hon
        rcases h.flag (by simpa using hon) with hawaiting | hsome
        · rw [hidle] at hawaiting
          cases hawaiting
        · exact hsome hstopping
      unfold ScannerState.onSessionEnd
      simp only [hoff, hrunning, Bool.not_true, Bool.or_self, Bool.false_eq_true, if_false]
      exact hdone
    cases phase with
    | created | starting p | restoring p => simp [hears, hphase] at hheard
    | dwelling p | dwellingOnNormal p =>
      refine hstops (by simp [awaiting, hphase]) (h.stopping_none hphase (by simp)) ?_
      refine Or.inr ⟨rfl, ?_⟩
      simp [hphase]
    | finalRestore =>
      refine Told.onSessionEnd (Or.inr ⟨rfl, ?_⟩)
      simp [hphase]
  unfold ScannerState.follow
  dsimp only
  rw [if_pos ⟨rfl, hclears⟩]
  split
  · split
    · exact htold.resume _
    · exact htold
  · exact htold

end

/-! ### Whose session an extension meets -/

/-- An extension of the run has not got the lock yet. -/
def Extends (run : ℕ) (s : ScannerState) : Prop :=
  (∃ expiresAt, (run, expiresAt) ∈ s.pendingExtends) ∨
    ∃ c ∈ s.service.queue, c.caller = .hold run

/-- Every such extension is of the run that has started the session. -/
def Meets (s : ScannerState) : Prop :=
  ∀ run, s.Extends run → s.service.StartedBy (fun caller => caller = .scan run)

/-- The scanner adds no calls but its own. -/
structure Adds (s s' : ScannerState) : Prop where
  session : s'.service.session = s.service.session
  pending : s'.pendingExtends = s.pendingExtends
  queue : ∀ c ∈ s'.service.queue, c ∈ s.service.queue ∨ ∃ run, c.caller = .scan run

section

variable {s s' s'' : ScannerState} {run : ℕ}

theorem Adds.refl (s : ScannerState) : Adds s s := ⟨rfl, rfl, fun _ hc => Or.inl hc⟩

theorem Adds.ask (h : Adds s s') (request : Request) : Adds s (s'.ask request) := by
  refine ⟨h.session, h.pending, ?_⟩
  intro c hc
  rcases List.mem_append.mp hc with hc | hc
  · exact h.queue c hc
  · rw [List.mem_singleton.mp hc]
    exact Or.inr ⟨_, rfl⟩

theorem Adds.congr (h : Adds s s') (hservice : s''.service = s'.service)
    (hpending : s''.pendingExtends = s'.pendingExtends) : Adds s s'' := by
  refine ⟨?_, hpending.trans h.pending, ?_⟩
  · rw [hservice]
    exact h.session
  · rw [hservice]
    exact h.queue

theorem Adds.finishRun (h : Adds s s') (l : ScanList) : Adds s (s'.finishRun l) := by
  unfold ScannerState.finishRun
  split
  · refine Adds.ask ?_ _
    exact h.congr rfl rfl
  · exact h.congr rfl rfl

theorem Adds.goOn (h : Adds s s') (l : ScanList) (next : Option ScanPosition) :
    Adds s (s'.goOn l next) := by
  unfold ScannerState.goOn
  split
  · exact h.finishRun l
  split
  · exact h.finishRun l
  · refine Adds.ask ?_ _
    exact h.congr rfl rfl

theorem Adds.resume (h : Adds s s') (ok : Bool) : Adds s (s'.resume ok) := by
  have hoff : Adds s { s' with internalSwitch := false } := h.congr rfl rfl
  unfold ScannerState.resume
  dsimp only
  split
  · split
    · exact h.congr rfl rfl
    · exact hoff.finishRun _
  · split
    · exact h.congr rfl rfl
    · exact hoff.finishRun _
  · exact h.congr rfl rfl
  · exact hoff
  · split <;> exact h.congr rfl rfl

theorem Adds.onSessionEnd (h : Adds s s') : Adds s s'.onSessionEnd := by
  unfold ScannerState.onSessionEnd
  split
  · exact h
  · exact h.congr rfl rfl

theorem adds_follow (op : ServiceOp) (s : ScannerState) (t : ServiceState) :
    Adds { s with service := t } (s.follow op t) := by
  have htold : ∀ {u}, (if op = .saved ∧ s.clears ≠ none then
      ScannerState.onSessionEnd { s with service := t } else { s with service := t }) = u →
        Adds { s with service := t } u := by
    intro u hu
    subst hu
    split
    · exact (Adds.refl _).onSessionEnd
    · exact Adds.refl _
  unfold follow
  dsimp only
  split
  · split
    · exact (htold rfl).resume _
    · exact htold rfl
  · exact htold rfl

theorem adds_begin (hbegin : s.begin = some s') : Adds s s' := by
  unfold ScannerState.begin at hbegin
  split at hbegin <;> cases hbegin
  refine Adds.goOn ?_ _ _
  exact (Adds.refl s).congr rfl rfl

theorem adds_dwelled (hdwelled : s.dwelled = some s') : Adds s s' := by
  unfold ScannerState.dwelled at hdwelled
  split at hdwelled
  · split at hdwelled
    · cases hdwelled
      split
      · exact (Adds.refl s).finishRun _
      split
      · refine Adds.ask ?_ _
        exact (Adds.refl s).congr rfl rfl
      · exact (Adds.refl s).goOn _ _
    · cases hdwelled
      exact (Adds.refl s).goOn _ _
    · cases hdwelled
  · cases hdwelled

theorem adds_startTask {l : ScanList} (hstart : s.startTask l = some s') : Adds s s' := by
  unfold ScannerState.startTask at hstart
  split at hstart <;> cases hstart
  exact (Adds.refl s).congr rfl rfl

theorem adds_stop {restore : Bool} (hstop : s.stop restore = some s') : Adds s s' := by
  have hcancelled : ∀ {t : ScannerState}, t.service = s.service.cancel s.lastRun →
      t.pendingExtends = s.pendingExtends → Adds s t := by
    intro t hservice hpending
    refine ⟨by rw [hservice]; rfl, hpending, ?_⟩
    intro c hc
    rw [hservice] at hc
    exact Or.inl (List.mem_filter.mp hc).1
  unfold ScannerState.stop at hstop
  split at hstop
  · dsimp only at hstop
    split at hstop <;> cases hstop
    · exact hcancelled rfl rfl
    · refine Adds.finishRun ?_ _
      exact hcancelled rfl rfl
    · refine Adds.finishRun ?_ _
      exact hcancelled rfl rfl
    · refine Adds.finishRun ?_ _
      exact hcancelled rfl rfl
    · refine Adds.finishRun ?_ _
      exact hcancelled rfl rfl
    · exact hcancelled rfl rfl
  · cases hstop

theorem adds_stopped (hstopped : s.stopped = some s') : Adds s s' := by
  unfold ScannerState.stopped at hstopped
  split at hstopped
  · dsimp only at hstopped
    split at hstopped <;> cases hstopped
    · refine Adds.ask ?_ _
      exact (Adds.refl s).congr rfl rfl
    · exact (Adds.refl s).congr rfl rfl
  · cases hstopped

theorem Adds.extends (h : Adds s s') (hext : s'.Extends run) : s.Extends run := by
  rcases hext with ⟨expiresAt, hmem⟩ | ⟨c, hc, hcaller⟩
  · exact Or.inl ⟨expiresAt, h.pending ▸ hmem⟩
  · rcases h.queue c hc with hc | ⟨run', hscan⟩
    · exact Or.inr ⟨c, hc, hcaller⟩
    · rw [hcaller] at hscan
      cases hscan

theorem Meets.adds (h : s.Meets) (hadds : Adds s s') : s'.Meets := by
  intro run hext st hst
  exact h run (hadds.extends hext) st (hadds.session ▸ hst)

theorem Extends.starter (h : s.Extends run) {starter : Caller}
    (honly : s.extendsOnly starter = true) : starter = .scan run := by
  obtain ⟨hpending, hqueue⟩ := Bool.and_eq_true_iff.mp honly
  rcases h with ⟨expiresAt, hmem⟩ | ⟨c, hc, hcaller⟩
  · exact of_decide_eq_true (List.all_eq_true.mp hpending _ hmem)
  · have hall := List.all_eq_true.mp hqueue c hc
    rw [hcaller] at hall
    exact of_decide_eq_true hall

theorem extends_of_queue {c : Call} (hc : c ∈ s.service.queue)
    (hcaller : c.caller = .hold run) : s.Extends run := Or.inr ⟨c, hc, hcaller⟩

/-- The service serves the calls of others as the step minds. -/
theorem Meets.service (h : s.Meets) {op : ServiceOp} {t : ServiceState}
    (hminds : minds ⟨s, .service op, s'⟩ = true) (hothers : op.byOthers = true)
    (hcrash : op ≠ .crash) (hstep : op.apply s.service = some t) :
    Meets { s with service := t } := by
  intro run hext
  have hhandled : ∀ own : Caller → Prop, s.service.StartedBy own →
      (∀ starter, s.extendsOnly starter = true → own starter) →
        ServiceState.Handled own op s.service t := by
    intro own hown honly
    refine ServiceState.Handled.apply hothers hcrash hown ?_ ?_ hstep
    · intro hop c req scan hhead hrequest haccepts
      subst hop
      obtain ⟨caller, request⟩ := c
      have hrequest : request = .start req scan := hrequest
      simp only [minds, hhead, hrequest, haccepts, Bool.not_true, Bool.false_or] at hminds
      exact honly caller hminds
    · intro p hp
      refine honly p.startedBy ?_
      cases op <;> simp only [minds, hp, Option.all_some] at hminds <;> first
        | exact hminds
        | cases hp
  have hall := hhandled (fun _ => True) (fun _ _ => trivial) (fun _ _ => trivial)
  have hpre : s.Extends run := by
    rcases hext with hpending | ⟨c, hc, hcaller⟩
    · exact Or.inl hpending
    · have hmem := hall.queue c (List.mem_filter.mpr ⟨hc, by rw [hcaller]; rfl⟩)
      exact Or.inr ⟨c, (List.mem_filter.mp hmem).1, hcaller⟩
  exact (hhandled (fun caller => caller = .scan run) (h run hpre)
    (fun _ honly => hpre.starter honly)).session

theorem Meets.activity (h : s.Meets) (hminds : minds ⟨s, .activity, s'⟩ = true) :
    s.onActivity.Meets := by
  unfold onActivity
  split
  · rename_i hholds
    intro run hext
    rcases hext with ⟨expiresAt, hmem⟩ | hqueue
    · rcases List.mem_append.mp hmem with hmem | hmem
      · exact h run (Or.inl ⟨expiresAt, hmem⟩)
      · -- the new extension
        cases List.mem_singleton.mp hmem
        intro st hst
        have hst : s.service.session = some st := hst
        simpa [minds, hholds, hst] using hminds
    · exact h run (Or.inr hqueue)
  · exact h

theorem Meets.extend (h : s.Meets) (hextend : s.extend = some s') : s'.Meets := by
  unfold ScannerState.extend at hextend
  split at hextend
  · rename_i run expiresAt rest hpending
    cases hextend
    intro run' hext
    refine h run' ?_
    rcases hext with ⟨expiresAt', hmem⟩ | ⟨c, hc, hcaller⟩
    · exact Or.inl ⟨expiresAt', hpending ▸ List.mem_cons_of_mem _ hmem⟩
    · rcases List.mem_append.mp hc with hc | hc
      · exact Or.inr ⟨c, hc, hcaller⟩
      · rw [List.mem_singleton.mp hc] at hcaller
        cases hcaller
        exact Or.inl ⟨expiresAt, hpending ▸ List.mem_cons_self⟩
  · cases hextend

end

end ScannerState

/-! ### Steps and runs -/

section

open ScannerState

variable {s' s : ScannerState} {e : ScannerEvent} {h : List ScannerEvent}

theorem apply_service {op : ServiceOp} (hcrash : op ≠ .crash)
    (hstep : ScannerOp.apply s (.service op) = some s') :
    op.byOthers = true ∧ ∃ t, op.apply s.service = some t ∧ s' = s.follow op t := by
  have happly : ScannerOp.apply s (.service op) =
      if op.byOthers then (op.apply s.service).map (s.follow op) else none := by
    cases op <;> first
      | rfl
      | exact absurd rfl hcrash
  rw [happly] at hstep
  split at hstep
  · rename_i hothers
    obtain ⟨t, ht, hfollow⟩ := Option.map_eq_some_iff.mp hstep
    exact ⟨hothers, t, ht, hfollow.symm⟩
  · cases hstep

theorem tidy_crash (s : ScannerState) : s.crash.Tidy := by
  refine tidy_of_none rfl ?_ rfl
  intro hon
  cases hon

/-- **One step** keeps the scanner tidy. -/
theorem ScannerState.Tidy.step (h : e.pre.Tidy)
    (hstep : ScannerStep e.pre e.label e.post) : e.post.Tidy := by
  obtain ⟨s, op, s'⟩ := e
  dsimp only at h hstep ⊢
  unfold ScannerStep at hstep
  cases op with
  | service op =>
    by_cases hcrash : op = .crash
    · subst hcrash
      cases hstep
      exact tidy_crash s
    · obtain ⟨hothers, t, ht, rfl⟩ := apply_service hcrash hstep
      refine h.follow ?_
      exact (@ServiceState.Handled.apply (fun _ => True) _ _ _ hothers hcrash
        (fun _ _ => trivial) (fun _ _ _ _ _ _ _ => trivial) (fun _ _ => trivial) ht).calls
  | startTask l => exact h.startTask hstep
  | begin => exact h.begin hstep
  | dwelled => exact h.dwelled hstep
  | activity =>
    cases hstep
    exact h.activity
  | extend => exact h.extend hstep
  | stop restore => exact h.stop hstep
  | stopped => exact h.stopped hstep

/-- **One step** leaves a run that was told as it is. -/
theorem ScannerState.Told.step {run : ℕ} (h : e.pre.Told run)
    (hstep : ScannerStep e.pre e.label e.post) : e.post.Told run := by
  obtain ⟨s, op, s'⟩ := e
  dsimp only at h hstep ⊢
  unfold ScannerStep at hstep
  cases op with
  | service op =>
    by_cases hcrash : op = .crash
    · subst hcrash
      cases hstep
      exact told_of_none h.le rfl
    · obtain ⟨_, t, _, rfl⟩ := apply_service hcrash hstep
      exact h.follow op t
  | startTask l => exact h.startTask hstep
  | begin => exact h.begin hstep
  | dwelled => exact h.dwelled hstep
  | activity =>
    cases hstep
    exact h.activity
  | extend => exact h.extend hstep
  | stop restore => exact h.stop hstep
  | stopped => exact h.stopped hstep

/-- **One step** that minds the extensions leaves them with their own session. -/
theorem ScannerState.Meets.step (h : e.pre.Meets)
    (hstep : ScannerStep e.pre e.label e.post) (hminds : minds e = true) : e.post.Meets := by
  obtain ⟨s, op, s'⟩ := e
  dsimp only at h hstep ⊢
  unfold ScannerStep at hstep
  cases op with
  | service op =>
    by_cases hcrash : op = .crash
    · subst hcrash
      cases hstep
      intro run hext
      rcases hext with ⟨_, hmem⟩ | ⟨_, hmem, _⟩ <;> cases hmem
    · obtain ⟨hothers, t, ht, rfl⟩ := apply_service hcrash hstep
      exact (h.service hminds hothers hcrash ht).adds (adds_follow op s t)
  | startTask l => exact h.adds (adds_startTask hstep)
  | begin => exact h.adds (adds_begin hstep)
  | dwelled => exact h.adds (adds_dwelled hstep)
  | activity =>
    cases hstep
    exact h.activity hminds
  | extend => exact h.extend hstep
  | stop restore => exact h.adds (adds_stop hstep)
  | stopped => exact h.adds (adds_stopped hstep)

/-- No scan has run, and there is no session. -/
def idle (home : String → RadioStamp) : ScannerState := { service := ServiceState.fresh home }

theorem tidy_idle (home : String → RadioStamp) : (idle home).Tidy := by
  refine tidy_of_none rfl ?_ rfl
  intro hon
  cases hon

theorem meets_idle (home : String → RadioStamp) : (idle home).Meets := by
  intro run hext
  rcases hext with ⟨_, hmem⟩ | ⟨_, hmem, _⟩ <;> cases hmem

theorem ScannerState.Tidy.run (htidy : s.Tidy) (r : Run ScannerStep s h s') : s'.Tidy :=
  r.invariant (P := Tidy) (C := fun _ => True) (fun _ _ => trivial)
    (fun _ hstep _ hpre => hpre.step hstep) htidy

theorem ScannerState.Told.run {run : ℕ}
    (htold : s.Told run) (r : Run ScannerStep s h s') : s'.Told run :=
  r.invariant (P := Told run) (C := fun _ => True) (fun _ _ => trivial)
    (fun _ hstep _ hpre => hpre.step hstep) htold

/-- An end from outside that is heard tells the run. -/
theorem told_of_endsOutside (h : e.pre.Tidy)
    (hstep : ScannerStep e.pre e.label e.post) (hends : endsOutside e = true)
    (htask : e.pre.task ≠ none) (hminds : minds e = true) : e.post.Told e.pre.lastRun := by
  obtain ⟨s, op, s'⟩ := e
  dsimp only at h hstep htask ⊢
  obtain ⟨hlabel, hclears⟩ := Bool.and_eq_true_iff.mp hends
  have hop : op = .service .saved := of_decide_eq_true hlabel
  subst hop
  have hheard : s.hears = true := by
    simpa only [minds, hends, Bool.not_true, Bool.false_or] using hminds
  obtain ⟨_, t, _, rfl⟩ := apply_service (by simp) hstep
  refine told_follow h htask hheard ?_ t
  intro hnone
  rw [hnone] at hclears
  cases hclears

/-- **A scan stops when its session is ended from outside**, and an extension moves the
end of no other session than that of its scan. -/
theorem scan_stops {home : String → RadioStamp} {h : List ScannerEvent} {s : ScannerState}
    (r : Run ScannerStep (idle home) h s) (hminds : ∀ e ∈ h, minds e = true) :
    StopsWithSession h := by
  refine ⟨?_, ?_⟩
  · intro h₁ e h₂ hsplit hends htask e' he'
    subst hsplit
    obtain ⟨r₁, hstep, r₂⟩ := r.at_event
    have htidy : e.pre.Tidy := (tidy_idle home).run r₁
    have htold : e.post.Told e.pre.lastRun :=
      told_of_endsOutside htidy hstep hends htask
        (hminds e (List.mem_append_right _ List.mem_cons_self))
    obtain ⟨h₃, h₄, hlater⟩ := List.append_of_mem he'
    subst hlater
    obtain ⟨r₃, _, _⟩ := r₂.at_event
    refine Bool.eq_false_iff.mpr ?_
    intro hstarts
    obtain ⟨_, hhead⟩ := Bool.and_eq_true_iff.mp hstarts
    obtain ⟨c, hhead, hstart⟩ := (Option.any_eq_true ..).mp hhead
    obtain ⟨hcaller, hstart⟩ := Bool.and_eq_true_iff.mp hstart
    have hcaller : c.caller = .scan e.pre.lastRun := of_decide_eq_true hcaller
    have hcall : c ∈ e'.pre.service.scannerCalls := by
      refine List.mem_append_right _ (List.mem_filter.mpr ⟨List.mem_of_head? hhead, ?_⟩)
      rw [hcaller]
      rfl
    rw [(htold.run r₃).no_start ((htidy.step hstep).run r₃) hcall hcaller] at hstart
    cases hstart
  · intro e he run hmoves
    obtain ⟨h₁, h₂, hsplit⟩ := List.append_of_mem he
    subst hsplit
    obtain ⟨r₁, _, _⟩ := r.at_event
    have hmeets : e.pre.Meets := by
      refine r₁.invariant (P := Meets) (C := fun e => minds e = true) ?_ ?_ (meets_idle home)
      · intro e' he'
        exact hminds e' (List.mem_append_left _ he')
      · intro e' hstep hm hpre
        exact hpre.step hstep hm
    obtain ⟨_, ⟨c, hhead, hcaller⟩, _⟩ := hmoves
    exact hmeets run (extends_of_queue (List.mem_of_head? hhead) hcaller)

/-- Two entries of a minute, held on for half a minute by activity. -/
def border : ScanList where
  id := 1
  first := ⟨ServiceState.stamp 8, none, 60⟩
  others := [⟨ServiceState.stamp 9, none, 60⟩]
  rounds := 0
  normalBetweenSecs := 0
  holdOnActivitySecs := 30

/-- The start of an entry is served. -/
def serveStart : List ScannerOp :=
  [.service .enter, .service .saved, .service .takes, .service (.switched true)]

def serveRestore : List ScannerOp :=
  [.service .enter, .service .takes, .service (.switched true), .service .saved]

/-- The session of a scan is held on by a packet and then restored by the user. -/
def restoredInDwell : List ScannerOp :=
  [.service (.connect "c0" true false), .startTask border, .begin] ++ serveStart ++
    [.service (.advance 50), .activity, .extend, .service .enter, .service .saved,
      .service (.call ⟨.other, .restore⟩)] ++ serveRestore ++ [.dwelled]

theorem scan_stops_restoredInDwell :
    ∃ (h : List ScannerEvent) (s : ScannerState),
      Run ScannerStep (idle (fun _ => ServiceState.stamp 7)) h s ∧
        h.map Event.label = restoredInDwell ∧ StopsWithSession h := by
  obtain ⟨h, s, r, hlabels, hrun⟩ :=
    Run.exists_of_trace ScannerOp.apply (idle (fun _ => ServiceState.stamp 7)) restoredInDwell
      (fun x => x.1.all minds) (by decide +kernel)
  exact ⟨h, s, r, hlabels, scan_stops r (List.all_eq_true.mp hrun)⟩

/-- The user restores while the scanner already waits for the lock with its next entry. -/
def restoredInTurn : List ScannerOp :=
  [.service (.connect "c0" true false), .startTask border, .begin] ++ serveStart ++
    [.service (.call ⟨.other, .restore⟩), .service .enter, .service (.advance 60), .dwelled,
      .service .takes, .service (.switched true), .service .saved, .service .enter]

/-- The event after the first `n` is an end from outside, and the one after it starts an
entry of the same run. -/
def goesOn (n : ℕ) (h : List ScannerEvent) : Bool :=
  match h.drop n with
  | e :: e' :: _ => endsOutside e && e.pre.task.isSome && startsEntry e.pre.lastRun e'
  | _ => false

theorem not_forall_scan_stops :
    ¬ ∀ (home : String → RadioStamp) (h : List ScannerEvent) (s : ScannerState),
      Run ScannerStep (idle home) h s → StopsWithSession h := by
  intro hall
  obtain ⟨h, s, r, _, hgoes⟩ :=
    Run.exists_of_trace ScannerOp.apply (idle (fun _ => ServiceState.stamp 7)) restoredInTurn
      (fun x => goesOn 13 x.1) (by decide +kernel)
  unfold goesOn at hgoes
  dsimp only at hgoes
  split at hgoes
  · rename_i e e' rest hdrop
    simp only [Bool.and_eq_true] at hgoes
    obtain ⟨⟨hends, htask⟩, hstarts⟩ := hgoes
    have hsplit : h = h.take 13 ++ e :: e' :: rest := by rw [← hdrop, List.take_append_drop]
    have hstops := (hall _ h s r).entries _ e _ hsplit hends
      (Option.isSome_iff_ne_none.mp htask) e' List.mem_cons_self
    rw [hstarts] at hstops
    cases hstops
  · cases hgoes

end

end RtfmEv.TempRadio
