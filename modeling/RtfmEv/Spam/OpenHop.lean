import RtfmEv.Lib.Run
import RtfmEv.Spam.Reconcile

/-!
# Keeping the rules on an OpenHop node (`app/services/spam_backend_openhop.py`)

`want` and `release` say what is to be on the node, and a worker brings the node
in line, one read and at most one write at a time. The worker is cut at its
awaits, so that `want` and `release` may run between any two of them. A write
that fails may have been applied, and there is one configured node: a client for
it is always found once its rules are known to be there.

No rule of ours is left on a node that was released, unless the first write of
our rules loses its answer or is overtaken by the release.
-/

namespace RtfmEv.Spam

open RtfmEv.Lib

/-! ### The backend and its node -/

/-- What the `_fingerprint` of two rule sets tells apart. -/
def fingerprint (r : NodeRules) : List SpamRule × List SpamRule × List String × List String :=
  (r.before, r.after, r.knownSenders, r.botSenders)

inductive SyncState
  | idle
  | pending
  | synced
  | unconfigured
  | refused
  | failed
  deriving DecidableEq

/-- Where the worker is: between two syncs, with a timeout or without one, or at
one of the awaits of a sync. -/
inductive Phase
  | waiting (timeout : Bool)
  | pausing
  | connecting (desired : NodeRules) (knownNode : Bool)
  | reading (desired : NodeRules)
  | writing (desired : NodeRules) (read : EngineDocument) (settled : SyncState)
  | closing (synced : Option NodeRules)

/-- Between two syncs. -/
def Phase.isIdle : Phase → Bool
  | .waiting _ => true
  | .pausing => true
  | _ => false

structure OpenHopBackend where
  desired : NodeRules
  active : Bool
  dirty : Bool
  /-- rules of ours are, or may still be, on the node -/
  maybePresent : Bool
  written : Option NodeRules
  state : SyncState
  present : ℕ
  repairs : ℕ
  failures : ℕ
  wake : Bool
  phase : Phase
  node : EngineDocument

abbrev verifyIntervalSeconds : ℕ := 60
abbrev retryIntervalSeconds : ℕ := 30

namespace OpenHopBackend

/-- A backend that was just made. -/
def start (node : EngineDocument) : OpenHopBackend where
  desired := .empty
  active := false
  dirty := false
  maybePresent := false
  written := none
  state := .idle
  present := 0
  repairs := 0
  failures := 0
  wake := false
  phase := .waiting false
  node := node

/-- `_set`. -/
def setRules (b : OpenHopBackend) (rules : NodeRules) (active : Bool) : OpenHopBackend :=
  if fingerprint rules = fingerprint b.desired ∧ active = b.active then b
  else if !active && !b.maybePresent then
    { b with desired := rules, active := active, dirty := false, state := .idle }
  else
    { b with desired := rules, active := active, dirty := true, state := .pending, wake := true }

/-- `_delay`: seconds until the next sync is due, and none to wait for a change. -/
def delay (b : OpenHopBackend) : Option ℕ :=
  if b.state = .unconfigured then
    if b.active || b.maybePresent then some verifyIntervalSeconds else none
  else if b.failures ≠ 0 then some retryIntervalSeconds
  else if b.dirty then some 0
  else if b.active && (b.maybePresent || !b.desired.rules.isEmpty) then
    some verifyIntervalSeconds
  else none

/-- Back to the wait of the worker. -/
def wait (b : OpenHopBackend) : OpenHopBackend := { b with phase := .waiting b.delay.isSome }

/-- A sync that failed. -/
def fail (b : OpenHopBackend) : OpenHopBackend :=
  { b with failures := b.failures + 1, state := .failed, phase := .closing none }

/-- How many rules of ours were read. -/
def presentIn (d : EngineDocument) : ℕ := d.ruleList.length - (theirs d).length

/-- What is reported once the node is in line. -/
def settledState (b : OpenHopBackend) (d : EngineDocument) : SyncState :=
  if refused d then .refused else if b.active then .synced else .idle

/-- The node was read: it is in line, or is written next. -/
def afterRead (b : OpenHopBackend) (desired : NodeRules) : OpenHopBackend :=
  if unchanged b.node desired then
    { b with
      present := presentIn b.node
      maybePresent := presentIn b.node > 0
      state := b.settledState b.node
      written := if refused b.node then b.written else some desired
      phase := .closing (some desired) }
  else { b with phase := .writing desired b.node (b.settledState b.node) }

/-- The node was written and answered. -/
def afterWrite (b : OpenHopBackend) (desired : NodeRules) (read : EngineDocument)
    (settled : SyncState) : OpenHopBackend :=
  { b with
    repairs :=
      if !refused read && b.written.map fingerprint = some (fingerprint desired) then b.repairs + 1
      else b.repairs
    written := if refused read then none else some desired
    present := (wanted read desired).rules.length
    maybePresent := (wanted read desired).rules.length > 0
    state := settled
    phase := .closing (some desired)
    node := target read desired }

/-- The end of a sync, after the client was closed. -/
def afterClose (b : OpenHopBackend) (synced : Option NodeRules) : OpenHopBackend :=
  match synced with
  | none => b.wait
  | some desired =>
    ({ b with
      failures := 0
      dirty := if fingerprint b.desired = fingerprint desired then false else b.dirty
      } : OpenHopBackend).wait

end OpenHopBackend

/-- How a write ends: with an answer, or without one and then applied or not. -/
inductive WriteOutcome
  | answered
  | lost (applied : Bool)
  deriving DecidableEq

/-- What happens next: a call of the program, or the end of an await. -/
inductive SyncEvent
  | want (rules : NodeRules)
  | release
  | wakeUp
  | begin
  | connected (found : Bool)
  | read (ok : Bool)
  | wrote (outcome : WriteOutcome)
  | closed (ok : Bool)

open OpenHopBackend in
/-- One event, if it is possible. -/
def OpenHopBackend.step (b : OpenHopBackend) : SyncEvent → Option OpenHopBackend
  | .want rules => some (b.setRules rules true)
  | .release => some (b.setRules .empty false)
  | .wakeUp =>
    match b.phase with
    | .waiting timeout =>
      if timeout || b.wake then some { b with wake := false, phase := .pausing } else none
    | _ => none
  | .begin =>
    match b.phase with
    | .pausing => some { b with phase := .connecting b.desired b.maybePresent }
    | _ => none
  | .connected found =>
    match b.phase with
    | .connecting desired knownNode =>
      if found then some { b with phase := .reading desired }
      else if knownNode then none
      else some ({ b with state := .unconfigured, failures := 0 } : OpenHopBackend).wait
    | _ => none
  | .read ok =>
    match b.phase with
    | .reading desired => if ok then some (b.afterRead desired) else some b.fail
    | _ => none
  | .wrote outcome =>
    match b.phase with
    | .writing desired read settled =>
      match outcome with
      | .answered => some (b.afterWrite desired read settled)
      | .lost true => some ({ b with node := target read desired } : OpenHopBackend).fail
      | .lost false => some b.fail
    | _ => none
  | .closed ok =>
    match b.phase with
    | .closing synced => if ok then some (b.afterClose synced) else some b.wait
    | _ => none

def SyncStep (b : OpenHopBackend) (e : SyncEvent) (b' : OpenHopBackend) : Prop :=
  b.step e = some b'

/-! ### Our rules on the node -/

/-- The rules of ours in a document. -/
def ours (d : EngineDocument) : List Json := d.ruleList.filter (named openhopPrefix)

theorem presentIn_eq (d : EngineDocument) :
    OpenHopBackend.presentIn d = (ours d).length := by
  unfold OpenHopBackend.presentIn
  have hsplit := List.length_eq_length_filter_add (l := d.ruleList) (named openhopPrefix)
  show d.ruleList.length - (d.ruleList.filter (fun rule => !named openhopPrefix rule)).length =
    (d.ruleList.filter (named openhopPrefix)).length
  omega

theorem filter_named_of_all {rules : List Json} (h : ∀ j ∈ rules, named openhopPrefix j = true) :
    rules.filter (named openhopPrefix) = rules :=
  List.filter_eq_self.mpr h

theorem ours_target (d : EngineDocument) (desired : NodeRules) :
    ours (target d desired) = (wanted d desired).rules.map SpamRule.toJson := by
  have htheirs : (theirs d).filter (named openhopPrefix) = [] := by
    apply List.filter_eq_nil_iff.mpr
    intro j hj
    have hno := (List.mem_filter.mp hj).2
    simpa using hno
  show (targetRules d (wanted d desired)).filter _ = _
  unfold targetRules
  rw [List.filter_append, List.filter_append, filter_named_of_all (named_before _),
    filter_named_of_all (named_after _), htheirs, List.append_nil]
  exact List.map_append.symm

theorem length_of_pyEqItems {xs ys : List Json} (h : Json.pyEqItems xs ys = true) :
    xs.length = ys.length := by
  induction xs generalizing ys with
  | nil =>
    cases ys with
    | nil => rfl
    | cons y ys =>
      unfold Json.pyEqItems at h
      cases h
  | cons x xs ih =>
    cases ys with
    | nil =>
      unfold Json.pyEqItems at h
      cases h
    | cons y ys =>
      unfold Json.pyEqItems at h
      rw [Bool.and_eq_true] at h
      rw [List.length_cons, List.length_cons, ih h.2]

/-- A node that is in line and has rules of ours is to have some. -/
theorem ours_of_unchanged {d : EngineDocument} {desired : NodeRules}
    (h : unchanged d desired = true) (hours : ours d ≠ []) : desired.rules ≠ [] := by
  intro hnone
  have hwanted : (wanted d desired).rules = [] := by
    unfold wanted
    split_ifs
    · rfl
    · exact hnone
  have hlen : (targetRules d (wanted d desired)).length = d.ruleList.length := by
    unfold unchanged at h
    rw [Bool.and_eq_true, Bool.and_eq_true] at h
    exact length_of_pyEqItems h.1.1
  obtain ⟨hbefore, hafter⟩ := List.append_eq_nil_iff.mp hwanted
  unfold targetRules at hlen
  rw [hbefore, hafter, List.map_nil, List.nil_append, List.append_nil] at hlen
  have hpresent := presentIn_eq d
  unfold OpenHopBackend.presentIn at hpresent
  rw [hlen, Nat.sub_self] at hpresent
  exact hours (List.length_eq_zero_iff.mp hpresent.symm)

/-! ### The invariant -/

/-- A write that puts rules of ours on the node while none are known to be there
is answered, and not after a release. -/
def SettledWrite (e : Lib.Event OpenHopBackend SyncEvent) : Bool :=
  match e.label, e.pre.phase with
  | .wrote .answered, .writing desired read _ =>
    (wanted read desired).rules.isEmpty || e.pre.maybePresent || e.pre.active
  | .wrote (.lost true), .writing desired read _ =>
    (wanted read desired).rules.isEmpty || e.pre.maybePresent
  | _, _ => true

/-- What the flags know of the node. -/
structure Tracked (b : OpenHopBackend) : Prop where
  known : ours b.node ≠ [] → b.maybePresent = true
  inactive : b.active = false → b.desired.rules = []
  dirty : b.active = false → b.maybePresent = true → b.dirty = true
  closing : ∀ desired, b.phase = .closing (some desired) → b.maybePresent = true →
    desired.rules ≠ []

section

variable {b : OpenHopBackend} {desired : NodeRules}

theorem tracked_start {node : EngineDocument} (h : ours node = []) :
    Tracked (OpenHopBackend.start node) where
  known := fun hne => absurd h hne
  inactive := fun _ => rfl
  dirty := by
    intro _ hpresent
    cases hpresent
  closing := by
    intro desired hphase
    cases hphase

theorem Tracked.setRules (h : Tracked b) {rules : NodeRules} {active : Bool}
    (hrules : active = false → rules.rules = []) : Tracked (b.setRules rules active) := by
  unfold OpenHopBackend.setRules
  split_ifs with hsame hquiet
  · exact h
  · refine ⟨h.known, hrules, ?_, h.closing⟩
    intro _ hpresent
    rw [Bool.and_eq_true] at hquiet
    have hpresent' : b.maybePresent = true := hpresent
    rw [hpresent'] at hquiet
    cases hquiet.2
  · exact ⟨h.known, hrules, fun _ _ => rfl, h.closing⟩

theorem Tracked.wait (h : Tracked b) : Tracked b.wait :=
  ⟨h.known, h.inactive, h.dirty, fun _ hphase => by cases hphase⟩

theorem Tracked.fail (h : Tracked b) : Tracked b.fail :=
  ⟨h.known, h.inactive, h.dirty, fun _ hphase => by cases hphase⟩

theorem Tracked.afterRead (h : Tracked b) (desired : NodeRules) :
    Tracked (b.afterRead desired) := by
  unfold OpenHopBackend.afterRead
  by_cases hsame : unchanged b.node desired = true
  · rw [if_pos hsame]
    have hpresent : decide (OpenHopBackend.presentIn b.node > 0) = true ↔ ours b.node ≠ [] := by
      rw [decide_eq_true_iff, presentIn_eq, gt_iff_lt, List.length_pos_iff]
    refine ⟨hpresent.mpr, h.inactive, ?_, ?_⟩
    · intro hactive hp
      exact h.dirty hactive (h.known (hpresent.mp hp))
    · intro d hphase hp
      cases hphase
      exact ours_of_unchanged hsame (hpresent.mp hp)
  · rw [if_neg hsame]
    exact ⟨h.known, h.inactive, h.dirty, fun _ hphase => by cases hphase⟩

theorem rules_of_wanted {d : EngineDocument}
    (h : (wanted d desired).rules ≠ []) : desired.rules ≠ [] := by
  unfold wanted at h
  split_ifs at h
  · exact absurd rfl h
  · exact h

theorem Tracked.afterWrite (h : Tracked b) {read : EngineDocument} {settled : SyncState}
    (hsafe : (wanted read desired).rules ≠ [] → b.maybePresent = true ∨ b.active = true) :
    Tracked (b.afterWrite desired read settled) := by
  have hpresent : decide ((wanted read desired).rules.length > 0) = true ↔
      (wanted read desired).rules ≠ [] := by
    rw [decide_eq_true_iff, gt_iff_lt, List.length_pos_iff]
  refine ⟨?_, h.inactive, ?_, ?_⟩
  · intro hours
    apply hpresent.mpr
    intro hnone
    apply hours
    show ours (target read desired) = []
    rw [ours_target, hnone, List.map_nil]
  · intro hactive hp
    have hactive' : b.active = false := hactive
    rcases hsafe (hpresent.mp hp) with hknown | hyes
    · exact h.dirty hactive' hknown
    · rw [hactive'] at hyes
      cases hyes
  · intro d hphase hp
    cases hphase
    exact rules_of_wanted (hpresent.mp hp)

theorem Tracked.afterClose (h : Tracked b) {synced : Option NodeRules}
    (hphase : b.phase = .closing synced) : Tracked (b.afterClose synced) := by
  cases synced with
  | none => exact h.wait
  | some desired =>
    refine ⟨h.known, h.inactive, ?_, fun _ hphase => by cases hphase⟩
    intro hactive hp
    have hne : fingerprint b.desired ≠ fingerprint desired := by
      intro hsame
      have hempty := h.inactive hactive
      unfold RuleSet.rules at hempty
      obtain ⟨hbefore, hafter⟩ := List.append_eq_nil_iff.mp hempty
      simp only [fingerprint, Prod.mk.injEq] at hsame
      apply h.closing desired hphase hp
      unfold RuleSet.rules
      rw [← hsame.1, ← hsame.2.1, hbefore, hafter]
      rfl
    show (if fingerprint b.desired = fingerprint desired then false else b.dirty) = true
    rw [if_neg hne]
    exact h.dirty hactive hp

end

variable {b : OpenHopBackend}

/-- **One event.** The flags keep knowing what is on the node. -/
theorem Tracked.step {b' : OpenHopBackend} {l : SyncEvent} (h : Tracked b)
    (hsafe : SettledWrite ⟨b, l, b'⟩ = true) (hstep : SyncStep b l b') : Tracked b' := by
  unfold SyncStep OpenHopBackend.step at hstep
  cases l with
  | want rules =>
    obtain rfl := Option.some.inj hstep
    exact h.setRules (fun hno => by cases hno)
  | release =>
    obtain rfl := Option.some.inj hstep
    exact h.setRules (fun _ => rfl)
  | wakeUp =>
    dsimp only at hstep
    split at hstep
    · split_ifs at hstep
      obtain rfl := Option.some.inj hstep
      exact ⟨h.known, h.inactive, h.dirty, fun _ hphase => by cases hphase⟩
    · cases hstep
  | begin =>
    dsimp only at hstep
    split at hstep
    · obtain rfl := Option.some.inj hstep
      exact ⟨h.known, h.inactive, h.dirty, fun _ hphase => by cases hphase⟩
    · cases hstep
  | connected found =>
    dsimp only at hstep
    split at hstep
    · split_ifs at hstep
      · obtain rfl := Option.some.inj hstep
        exact ⟨h.known, h.inactive, h.dirty, fun _ hphase => by cases hphase⟩
      · obtain rfl := Option.some.inj hstep
        exact ⟨h.known, h.inactive, h.dirty, fun _ hphase => by cases hphase⟩
    · cases hstep
  | read ok =>
    dsimp only at hstep
    split at hstep
    · split_ifs at hstep
      · obtain rfl := Option.some.inj hstep
        exact h.afterRead _
      · obtain rfl := Option.some.inj hstep
        exact h.fail
    · cases hstep
  | wrote outcome =>
    dsimp only at hstep
    split at hstep
    · rename_i desired read settled hphase
      cases outcome with
      | answered =>
        obtain rfl := Option.some.inj hstep
        apply h.afterWrite
        intro hrules
        simp only [SettledWrite, hphase, Bool.or_eq_true, List.isEmpty_iff] at hsafe
        rcases hsafe with (hempty | hknown) | hactive
        · exact absurd hempty hrules
        · exact Or.inl hknown
        · exact Or.inr hactive
      | lost applied =>
        cases applied with
        | true =>
          obtain rfl := Option.some.inj hstep
          apply Tracked.fail
          refine ⟨?_, h.inactive, h.dirty, ?_⟩
          · intro hours
            simp only [SettledWrite, hphase, Bool.or_eq_true, List.isEmpty_iff] at hsafe
            rcases hsafe with hempty | hknown
            · refine absurd ?_ hours
              show ours (target read desired) = []
              rw [ours_target, hempty, List.map_nil]
            · exact hknown
          · intro d hclosing
            rw [hphase] at hclosing
            cases hclosing
        | false =>
          obtain rfl := Option.some.inj hstep
          exact h.fail
    · cases hstep
  | closed ok =>
    dsimp only at hstep
    split at hstep
    · rename_i synced hphase
      split_ifs at hstep
      · obtain rfl := Option.some.inj hstep
        exact h.afterClose hphase
      · obtain rfl := Option.some.inj hstep
        exact h.wait
    · cases hstep

/-! ### No orphaned rules -/

/-- What holds of the node between two syncs. -/
structure NoOrphans (b : OpenHopBackend) : Prop where
  /-- Rules of ours on the node are known of. -/
  known : b.phase.isIdle = true → ours b.node ≠ [] → b.maybePresent = true
  /-- A node that is left alone after a release has none. -/
  released : b.phase.isIdle = true → b.delay = none → b.active = false → ours b.node = []
  /-- A node that is left alone otherwise has the desired ones. -/
  wanted : b.phase.isIdle = true → b.delay = none → b.active = true → refused b.node = false →
    ours b.node = b.desired.rules.map SpamRule.toJson

/-- Nothing of ours is expected where no sync is due. -/
theorem absent_of_delay (h : Tracked b) (hdelay : b.delay = none) :
    b.maybePresent = false ∧ b.desired.rules = [] := by
  unfold OpenHopBackend.delay at hdelay
  split_ifs at hdelay with hstate hknown hfailures hdirty hverify
  · rw [Bool.not_eq_true, Bool.or_eq_false_iff] at hknown
    exact ⟨hknown.2, h.inactive hknown.1⟩
  · cases hactive : b.active with
    | false =>
      refine ⟨?_, h.inactive hactive⟩
      by_contra hpresent
      rw [Bool.not_eq_false] at hpresent
      exact hdirty (h.dirty hactive hpresent)
    | true =>
      rw [hactive, Bool.true_and, Bool.or_eq_true, not_or] at hverify
      refine ⟨Bool.not_eq_true _ ▸ hverify.1, ?_⟩
      simpa using hverify.2

theorem Tracked.noOrphans (h : Tracked b) : NoOrphans b where
  known := fun _ => h.known
  released := by
    intro _ hdelay _
    by_contra hours
    have hpresent := h.known hours
    rw [(absent_of_delay h hdelay).1] at hpresent
    cases hpresent
  wanted := by
    intro _ hdelay _ _
    obtain ⟨habsent, hrules⟩ := absent_of_delay h hdelay
    rw [hrules, List.map_nil]
    by_contra hours
    have hpresent := h.known hours
    rw [habsent] at hpresent
    cases hpresent

/-- **No orphaned rules.** In a run whose first writes are answered before a
release, a node that is left alone has what it is to have. -/
theorem noOrphans_of_run {node : EngineDocument} (hnode : ours node = [])
    {h : List (Lib.Event OpenHopBackend SyncEvent)} {b : OpenHopBackend}
    (run : Run SyncStep (OpenHopBackend.start node) h b)
    (hsafe : ∀ e ∈ h, SettledWrite e = true) : NoOrphans b := by
  apply Tracked.noOrphans
  exact run.invariant (C := fun e => SettledWrite e = true) hsafe
    (fun _ hstep hc hpre => hpre.step hc hstep) (tracked_start hnode)

/-! ### A release during the first write -/

/-- The worker writes the first rules. -/
def firstWrite : List SyncEvent :=
  [.want (textRules "buy cheap coins"), .wakeUp, .begin, .connected true, .read true]

/-- The node gets the rules and is left with them. -/
theorem not_forall_noOrphans :
    ¬ ∀ (node : EngineDocument) (h : List (Lib.Event OpenHopBackend SyncEvent))
      (b : OpenHopBackend), ours node = [] → Run SyncStep (OpenHopBackend.start node) h b →
        NoOrphans b := by
  intro hall
  obtain ⟨h, b, run, _, hp⟩ := Run.exists_of_trace OpenHopBackend.step
    (OpenHopBackend.start userDocument)
    (firstWrite ++ [.release, .wrote .answered, .closed true])
    (fun r => r.2.phase.isIdle && r.2.delay.isNone && !r.2.active && !(ours r.2.node).isEmpty)
    (by decide +kernel)
  simp only [Bool.and_eq_true, Bool.not_eq_true', Option.isNone_iff_eq_none] at hp
  obtain ⟨⟨⟨hidle, hdelay⟩, hactive⟩, hours⟩ := hp
  have hnone := (hall userDocument h b (by decide +kernel) run).released hidle hdelay hactive
  rw [hnone] at hours
  cases hours

/-- A release after the first write takes the rules off again. -/
theorem noOrphans_of_run_released :
    ∃ h b, Run SyncStep (OpenHopBackend.start userDocument) h b ∧
      (∀ e ∈ h, SettledWrite e = true) ∧ NoOrphans b ∧ b.delay = none ∧ b.active = false := by
  obtain ⟨h, b, run, _, hp⟩ := Run.exists_of_trace OpenHopBackend.step
    (OpenHopBackend.start userDocument)
    (firstWrite ++ [.wrote .answered, .release, .closed true, .wakeUp, .begin, .connected true,
      .read true, .wrote .answered, .closed true])
    (fun r => r.1.all SettledWrite && r.2.delay.isNone && !r.2.active)
    (by decide +kernel)
  simp only [Bool.and_eq_true, Bool.not_eq_true', Option.isNone_iff_eq_none] at hp
  have hsafe := List.all_eq_true.mp hp.1.1
  exact ⟨h, b, run, hsafe, noOrphans_of_run (by decide +kernel) run hsafe, hp.1.2, hp.2⟩

end RtfmEv.Spam
