import Mathlib.Data.List.Infix
import RtfmEv.Lib.Run

/-!
# A manual unread mark on the open conversation

Read positions go out from four places: on opening a conversation, after an unread refresh, from
a debounced timer and on leaving. After a mark the conversation is suppressed, and two of these
places look at that. The suppression begins with the server's answer.

A render gives the hook a new conversation object; its effects run before the next render. The
counts and badges, and the explicit calls that mark conversations as read, are left out.
-/

namespace RtfmEv.MarkUnread

open RtfmEv.Lib

variable {K : Type}

/-- A message of a conversation, as a read position. -/
structure Boundary (K : Type) where
  conv : K
  messageId : ℕ
  receivedAt : ℕ
deriving DecidableEq

/-- What is seen from outside: read requests for a whole conversation or up to a message, answers
to a mark, and conversations that the user opens. -/
inductive Entry (K : Type)
  | readAll (conv : K)
  | readTo (boundary : Boundary K)
  | answered (m : Boundary K)
  | opened (conv : K)
deriving DecidableEq

inductive Marking (K : Type)
  | unasked
  | asked (m : Boundary K)
  | done
deriving DecidableEq

structure State (K : Type) where
  /-- `activeConvRef`, and whether the effects of its render are still to run. -/
  activeConv : Option K
  effectDue : Bool
  /-- Whether the last effect left `flushPendingRead` to be called on leaving. -/
  cleanup : Bool
  prevActiveKey : Option K
  pendingRead : Option (Boundary K)
  timer : Bool
  suppressAutoReadKey : Option K
  /-- How many `fetchUnreads` wait for the server. -/
  refreshes : ℕ
  marking : Marking K
  log : List (Entry K)

def State.init : State K :=
  { activeConv := none, effectDue := false, cleanup := false, prevActiveKey := none
    pendingRead := none, timer := false, suppressAutoReadKey := none, refreshes := 0
    marking := .unasked, log := [] }

namespace State

def flushPendingRead (s : State K) : State K :=
  { s with
    timer := false
    pendingRead := none
    log := s.log ++ (s.pendingRead.map Entry.readTo).toList }

def later (b current : Boundary K) : Bool :=
  current.receivedAt < b.receivedAt ||
    (current.receivedAt == b.receivedAt && current.messageId < b.messageId)

variable [DecidableEq K]

def scheduleReadBoundary (s : State K) (b : Boundary K) : State K :=
  let s := if s.pendingRead.any (·.conv ≠ b.conv) then s.flushPendingRead else s
  { s with
    pendingRead := if s.pendingRead.all (later b) then some b else s.pendingRead
    timer := true }

/-- The end of `fetchUnreads`: the open conversation counts as read again. -/
def reread (s : State K) : State K :=
  match s.activeConv with
  | none => s
  | some conv =>
    if s.suppressAutoReadKey = some conv then s else { s with log := s.log ++ [.readAll conv] }

/-- The effect on the conversation, after the cleanup of the one before. -/
def effect (s : State K) : State K :=
  let s := if s.cleanup then s.flushPendingRead else s
  let isNavigation := s.prevActiveKey ≠ s.activeConv
  let s := { s with prevActiveKey := s.activeConv, effectDue := false, cleanup := true }
  match s.activeConv with
  | none => s
  | some conv =>
    if s.suppressAutoReadKey = some conv then
      if isNavigation then
        { s with suppressAutoReadKey := none, log := s.log ++ [.readAll conv] }
      else { s with cleanup := false }
    else { s with log := s.log ++ [.readAll conv] }

/-- `recordMessageEvent` of a new incoming message. -/
def recordMessageEvent (s : State K) (b : Boundary K) : State K :=
  if s.activeConv = some b.conv ∧ s.suppressAutoReadKey ≠ some b.conv then
    s.scheduleReadBoundary b
  else s

/-- `markConversationUnreadFromMessage` after the server's answer. -/
def marked (s : State K) (m : Boundary K) : State K :=
  { s with
    suppressAutoReadKey :=
      if s.activeConv = some m.conv then some m.conv else s.suppressAutoReadKey
    refreshes := s.refreshes + 1
    marking := .done
    log := s.log ++ [.answered m] }

end State

inductive Label (K : Type)
  | render (conv : Option K)
  | effect
  | message (b : Boundary K)
  | timer
  | refresh
  | refreshed
  | mark (m : Boundary K)
  | answered (ok : Bool)
deriving DecidableEq

/-- One step, where it is possible. A mark is made on the open conversation, and once. -/
def step [DecidableEq K] (s : State K) : Label K → Option (State K)
  | .render conv =>
    if s.effectDue then none
    else
      some { s with
        activeConv := conv
        effectDue := true
        log := s.log ++ (if conv = s.activeConv then [] else (conv.map Entry.opened).toList) }
  | .effect => if s.effectDue then some s.effect else none
  | .message b => some (s.recordMessageEvent b)
  | .timer => if s.timer then some s.flushPendingRead else none
  | .refresh => some { s with refreshes := s.refreshes + 1 }
  | .refreshed =>
    if s.refreshes = 0 then none else some { s with refreshes := s.refreshes - 1 }.reread
  | .mark m =>
    if s.marking = .unasked ∧ s.activeConv = some m.conv then some { s with marking := .asked m }
    else none
  | .answered ok =>
    match s.marking with
    | .asked m => some (if ok then s.marked m else { s with marking := .done })
    | _ => none

def Step [DecidableEq K] (s : State K) (l : Label K) (t : State K) : Prop := step s l = some t

/-! ### The mark sticks -/

/-- The request makes the server count the message as read. -/
def Covers (m : Boundary K) : Entry K → Prop
  | .readAll conv => conv = m.conv
  | .readTo b => b.conv = m.conv ∧ m.receivedAt ≤ b.receivedAt
  | _ => False

/-- The server has answered the mark, and its conversation was not opened again since. -/
def Watched (log : List (Entry K)) (m : Boundary K) : Prop :=
  ∃ before mid, log = before ++ .answered m :: mid ∧ .opened m.conv ∉ mid

/-- **The mark sticks**: while it is watched, no read request covers its message. -/
def Sticks (log : List (Entry K)) : Prop :=
  ∀ pre e m, pre ++ [e] <+: log → Watched pre m → ¬ Covers m e

/-- **When the answer comes in time**: no read position that covers the message waits to be sent,
and the effect that opens the conversation has run. -/
structure InTime (s : State K) (m : Boundary K) : Prop where
  pending : ∀ b, s.pendingRead = some b → ¬ Covers m (.readTo b)
  opened : s.activeConv = some m.conv → s.prevActiveKey = some m.conv

variable {log : List (Entry K)} {m : Boundary K} {e : Entry K} {s t : State K}

theorem watched_concat : Watched (log ++ [e]) m ↔
    e = .answered m ∨ Watched log m ∧ e ≠ .opened m.conv := by
  constructor
  · rintro ⟨before, mid, heq, hnot⟩
    cases mid using List.reverseRecOn with
    | nil => exact Or.inl (List.singleton_inj.mp (List.append_inj' heq rfl).2)
    | append_singleton mid e' =>
      rw [← List.cons_append, ← List.append_assoc] at heq
      obtain ⟨hlog, hlast⟩ := List.append_inj' heq rfl
      obtain rfl := List.singleton_inj.mp hlast
      rw [List.mem_append, List.mem_singleton, not_or] at hnot
      exact Or.inr ⟨⟨before, mid, hlog, hnot.1⟩, fun he => hnot.2 he.symm⟩
  · rintro (rfl | ⟨⟨before, mid, rfl, hnot⟩, hne⟩)
    · exact ⟨log, [], rfl, List.not_mem_nil⟩
    · refine ⟨before, mid ++ [e], by simp, ?_⟩
      rw [List.mem_append, List.mem_singleton, not_or]
      exact ⟨hnot, fun he => hne he.symm⟩

theorem Sticks.concat (h : Sticks log) (he : ∀ m, Watched log m → ¬ Covers m e) :
    Sticks (log ++ [e]) := by
  intro pre e' m hpre hw
  rcases List.prefix_concat_iff.mp hpre with heq | hpre
  · obtain ⟨rfl, hlast⟩ := List.append_inj' heq rfl
    rw [List.singleton_inj.mp hlast]
    exact he m hw
  · exact h pre e' m hpre hw

/-- What keeps a watched mark from being undone. -/
structure Safe (s : State K) (m : Boundary K) : Prop where
  done : s.marking = .done
  pending : ∀ b, s.pendingRead = some b → ¬ Covers m (.readTo b)
  suppressed : s.activeConv = some m.conv →
    s.suppressAutoReadKey = some m.conv ∧ s.prevActiveKey = some m.conv

structure Inv (s : State K) : Prop where
  sticks : Sticks s.log
  safe : ∀ m, Watched s.log m → Safe s m

theorem inv_init : Inv (State.init : State K) where
  sticks := fun pre e m hpre => by simp [State.init] at hpre
  safe := fun m ⟨before, mid, heq, _⟩ => by simp [State.init] at heq

theorem Inv.of_log (h : Inv s) (hlog : t.log = s.log) (hsafe : ∀ m, Safe s m → Safe t m) :
    Inv t where
  sticks := hlog ▸ h.sticks
  safe := fun m hw => hsafe m (h.safe m (hlog ▸ hw))

/-- One more request, or a conversation that is opened. -/
theorem Inv.concat (h : Inv s) (e : Entry K) (hlog : t.log = s.log ++ [e])
    (hanswer : ∀ m, e ≠ .answered m) (hcovers : ∀ m, Safe s m → ¬ Covers m e)
    (hsafe : ∀ m, e ≠ .opened m.conv → Safe s m → Safe t m) : Inv t where
  sticks := hlog ▸ h.sticks.concat fun m hw => hcovers m (h.safe m hw)
  safe := by
    intro m hw
    rw [hlog] at hw
    rcases watched_concat.mp hw with heq | ⟨hw, hne⟩
    · exact absurd heq (hanswer m)
    · exact hsafe m hne (h.safe m hw)

theorem Inv.flushPendingRead (h : Inv s) : Inv s.flushPendingRead := by
  have hsafe : ∀ m, Safe s m → Safe s.flushPendingRead m := fun m hs =>
    ⟨hs.done, nofun, hs.suppressed⟩
  cases hp : s.pendingRead with
  | none => exact h.of_log (by simp [State.flushPendingRead, hp]) hsafe
  | some b =>
    exact h.concat (.readTo b) (by simp [State.flushPendingRead, hp]) nofun
      (fun m hs => hs.pending b hp) fun m _ => hsafe m

/-- A whole conversation is read: not one whose mark is watched. -/
theorem Inv.readAll (h : Inv s) {conv : K} (hconv : s.activeConv = some conv)
    (hfree : s.suppressAutoReadKey ≠ some conv ∨ s.prevActiveKey ≠ some conv)
    (hlog : t.log = s.log ++ [.readAll conv]) (hmarking : t.marking = s.marking)
    (hpending : t.pendingRead = s.pendingRead) (hactive : t.activeConv = s.activeConv) :
    Inv t := by
  have hne : ∀ m, Safe s m → conv ≠ m.conv := by
    rintro m hs rfl
    obtain ⟨hsup, hprev⟩ := hs.suppressed hconv
    exact hfree.elim (absurd hsup) (absurd hprev)
  refine h.concat (.readAll conv) hlog nofun (fun m hs heq => hne m hs heq) fun m _ hs => ?_
  refine ⟨hmarking ▸ hs.done, hpending ▸ hs.pending, fun hm => ?_⟩
  rw [hactive, hconv] at hm
  exact absurd (Option.some.inj hm) (hne m hs)

variable [DecidableEq K]

theorem Inv.effect (h : Inv s) : Inv s.effect := by
  have hflush : Inv (if s.cleanup then s.flushPendingRead else s) := by
    split_ifs
    · exact h.flushPendingRead
    · exact h
  rw [State.effect]
  generalize (if s.cleanup then s.flushPendingRead else s) = u at hflush ⊢
  dsimp only
  cases hactive : u.activeConv with
  | none => exact hflush.of_log rfl fun m hs => ⟨hs.done, hs.pending, nofun⟩
  | some conv =>
    dsimp only
    split_ifs with hsup hnav
    · exact hflush.readAll hactive (Or.inr hnav) rfl rfl rfl hactive.symm
    · exact hflush.of_log rfl fun m hs => ⟨hs.done, hs.pending, fun hm =>
        ⟨(hs.suppressed (hactive.trans hm)).1, hm⟩⟩
    · exact hflush.readAll hactive (Or.inl hsup) rfl rfl rfl hactive.symm

theorem Inv.recordMessageEvent (h : Inv s) (b : Boundary K) : Inv (s.recordMessageEvent b) := by
  rw [State.recordMessageEvent]
  split_ifs with hopen
  swap
  · exact h
  have hflush : Inv (if s.pendingRead.any (·.conv ≠ b.conv) then s.flushPendingRead else s) := by
    split_ifs
    · exact h.flushPendingRead
    · exact h
  have hkeep : ∀ u : State K, u = (if s.pendingRead.any (·.conv ≠ b.conv) then s.flushPendingRead
      else s) → u.activeConv = s.activeConv ∧ u.suppressAutoReadKey = s.suppressAutoReadKey := by
    rintro u rfl
    split_ifs <;> exact ⟨rfl, rfl⟩
  rw [State.scheduleReadBoundary]
  generalize (if s.pendingRead.any (·.conv ≠ b.conv) then s.flushPendingRead else s) = u
    at hflush hkeep ⊢
  obtain ⟨hactive, hsup⟩ := hkeep u rfl
  refine hflush.of_log rfl fun m hs => ⟨hs.done, fun b' hb' => ?_, hs.suppressed⟩
  dsimp only at hb'
  split_ifs at hb'
  · -- the message is of a conversation that is open and not suppressed
    obtain rfl := Option.some.inj hb'
    rintro ⟨hconv, -⟩
    rw [hconv] at hopen
    exact hopen.2 (hsup ▸ (hs.suppressed (hactive ▸ hopen.1)).1)
  · exact hs.pending b' hb'

/-- **Every step keeps the marks**, an answer that comes in time among them. -/
theorem Inv.step {l : Label K} (h : Inv s)
    (htime : ∀ m, l = .answered true → s.marking = .asked m → InTime s m) (hstep : Step s l t) :
    Inv t := by
  rw [Step, MarkUnread.step.eq_def] at hstep
  cases l with
  | render conv =>
    dsimp only at hstep
    split_ifs at hstep with hdue hsame <;> obtain rfl := Option.some.inj hstep
    · exact h.of_log (List.append_nil _) fun m hs =>
        ⟨hs.done, hs.pending, fun hm => hs.suppressed (hsame ▸ hm)⟩
    · cases conv with
      | none => exact h.of_log (List.append_nil _) fun m hs => ⟨hs.done, hs.pending, nofun⟩
      | some conv =>
        refine h.concat (.opened conv) rfl nofun (fun m hs => id) fun m hne hs =>
          ⟨hs.done, hs.pending, fun hm => ?_⟩
        exact absurd (congrArg Entry.opened (Option.some.inj hm)) hne
  | effect =>
    dsimp only at hstep
    split_ifs at hstep
    obtain rfl := Option.some.inj hstep
    exact h.effect
  | message b =>
    obtain rfl := Option.some.inj hstep
    exact h.recordMessageEvent b
  | timer =>
    dsimp only at hstep
    split_ifs at hstep
    obtain rfl := Option.some.inj hstep
    exact h.flushPendingRead
  | refresh =>
    obtain rfl := Option.some.inj hstep
    exact h.of_log rfl fun m hs => ⟨hs.done, hs.pending, hs.suppressed⟩
  | refreshed =>
    dsimp only at hstep
    split_ifs at hstep
    obtain rfl := Option.some.inj hstep
    rw [State.reread]
    have hquiet : Inv { s with refreshes := s.refreshes - 1 } :=
      h.of_log rfl fun m hs => ⟨hs.done, hs.pending, hs.suppressed⟩
    cases hactive : s.activeConv with
    | none => simpa only [hactive] using hquiet
    | some conv =>
      dsimp only
      split_ifs with hsup
      · simpa only [hactive] using hquiet
      · exact h.readAll hactive (Or.inl hsup) rfl rfl rfl hactive.symm
  | mark m =>
    dsimp only at hstep
    split_ifs at hstep with hfirst
    obtain rfl := Option.some.inj hstep
    exact h.of_log rfl fun m' hs => by cases hfirst.1.symm.trans hs.done
  | answered ok =>
    cases hm : s.marking with
    | unasked | done => simp [hm] at hstep
    | asked m =>
      have hnone : ∀ m', ¬ Safe s m' := fun m' hs => by cases hm.symm.trans hs.done
      simp only [hm, Option.some.injEq] at hstep
      subst hstep
      cases ok with
      | false => exact h.of_log rfl fun m' hs => absurd hs (hnone m')
      | true =>
        refine ⟨h.sticks.concat fun m' _ => id, fun m' hw => ?_⟩
        rcases watched_concat.mp hw with heq | ⟨hw, -⟩
        · obtain rfl := Entry.answered.inj heq
          obtain ⟨hpending, hopened⟩ := htime m rfl hm
          exact ⟨rfl, hpending, fun ha => ⟨if_pos ha, hopened ha⟩⟩
        · exact absurd (h.safe m' hw) (hnone m')

/-- **A manual unread mark sticks** in every run in which its answer comes in time: from the answer
on no read request covers the message, until the conversation is opened again. -/
theorem unread_mark_sticks {h : List (Event (State K) (Label K))} (r : Run Step .init h s)
    (htime : ∀ e ∈ h, ∀ m, e.label = .answered true → e.pre.marking = .asked m →
      InTime e.pre m) : Sticks s.log :=
  (r.invariant (P := Inv) htime (fun _ he ht hi => hi.step ht he) inv_init).sticks

/-- With the answer after the timer the mark sticks, also over a refresh. -/
theorem unread_mark_sticks_afterTimer : ∃ (h : List (Event (State ℕ) (Label ℕ))) (s : State ℕ),
    Run Step .init h s ∧ Sticks s.log := by
  obtain ⟨h, s, hrun, -, hends⟩ := Run.exists_of_trace step .init
    ([.render (some 1), .effect, .message ⟨1, 5, 100⟩, .timer, .mark ⟨1, 5, 100⟩,
      .answered true, .refreshed] : List (Label ℕ))
    (fun r => r.1.all fun e => e.label ≠ .answered true ∨
      e.pre.pendingRead = none ∧ e.pre.prevActiveKey = e.pre.activeConv) (by decide +kernel)
  refine ⟨h, s, hrun, unread_mark_sticks hrun fun e he m hl _ => ?_⟩
  obtain hne | ⟨hpending, hopened⟩ := of_decide_eq_true (List.all_eq_true.mp hends e he)
  · exact absurd hl hne
  · exact ⟨fun b hb => (by cases hpending.symm.trans hb), fun ha => hopened.trans ha⟩

end RtfmEv.MarkUnread
