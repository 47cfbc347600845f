import Mathlib.Data.Rat.Floor
import RtfmEv.Lib.Table
import RtfmEv.Lib.Run

/-!
# Pending ACKs of direct messages (`app/services/dm_ack_tracker.py`)

The four tables of the tracker and its operations on them. A clock reading is an
argument, and a function takes no time: all its readings are the same.
-/

namespace RtfmEv.DirectMessage

open RtfmEv.Lib

abbrev bufferedAckTtlSeconds : ℚ := 30
abbrev deletedMessageTtlSeconds : ℚ := 300
abbrev failedAckGraceSeconds : ℚ := 30

structure PendingAck where
  messageId : ℕ
  createdAt : ℚ
  timeoutMs : ℤ
  deriving DecidableEq

structure FailedAck where
  messageId : ℕ
  failedAt : ℚ
  deriving DecidableEq

structure AckTables where
  pending : Table String PendingAck := .empty
  buffered : Table String ℚ := .empty
  deleted : Table ℕ ℚ := .empty
  failed : Table String FailedAck := .empty

/-- Twice the timeout has passed since the code was registered. -/
def PendingAck.expired (now : ℚ) (e : PendingAck) : Bool :=
  decide (now - e.createdAt > e.timeoutMs / 1000 * 2)

def FailedAck.expired (now : ℚ) (e : FailedAck) : Bool :=
  decide (now - e.failedAt > failedAckGraceSeconds)

namespace AckTables

/-- Track an expected ACK code. The result is true when the ACK was already
buffered before the registration. -/
def trackPendingAck (expectedAck : String) (messageId : ℕ) (timeoutMs : ℤ) (now : ℚ)
    (T : AckTables) : Bool × AckTables :=
  match T.buffered.get expectedAck with
  | some _ => (true, { T with buffered := T.buffered.erase expectedAck })
  | none => (false, { T with pending := T.pending.set expectedAck ⟨messageId, now, timeoutMs⟩ })

def bufferUnmatchedAck (ackCode : String) (now : ℚ) (T : AckTables) : AckTables :=
  { T with buffered := T.buffered.set ackCode now }

def cleanupExpiredDeletedMarks (now : ℚ) (T : AckTables) : AckTables :=
  { T with deleted := T.deleted.keep (fun t => !decide (now - t > deletedMessageTtlSeconds)) }

def cleanupExpiredAcks (now : ℚ) (T : AckTables) : AckTables :=
  cleanupExpiredDeletedMarks now { T with
    pending := T.pending.keep (fun e => !e.expired now)
    buffered := T.buffered.keep (fun t => !decide (now - t > bufferedAckTtlSeconds))
    failed := T.failed.keep (fun e => !e.expired now) }

/-- Claim the tracked message of a code. -/
def popPendingAck (ackCode : String) (T : AckTables) : Option ℕ × AckTables :=
  match T.pending.get ackCode with
  | some e => (some e.messageId, { T with pending := T.pending.erase ackCode })
  | none => (none, T)

def clearFailedAcksForMessage (messageId : ℕ) (T : AckTables) : AckTables :=
  { T with failed := T.failed.keep (fun e => e.messageId != messageId) }

/-- Drop the codes of a message once one ACK wins. -/
def clearPendingAcksForMessage (messageId : ℕ) (T : AckTables) : AckTables :=
  clearFailedAcksForMessage messageId
    { T with pending := T.pending.keep (fun e => e.messageId != messageId) }

def markMessageDeleted (messageId : ℕ) (now : ℚ) (T : AckTables) : AckTables :=
  { T with deleted := T.deleted.set messageId now }

def isMessageDeleted (messageId : ℕ) (T : AckTables) : Bool := (T.deleted.get messageId).isSome

/-- Keep the codes of a failed message matchable for the grace time. -/
def trackFailedAcks (ackCodes : List String) (messageId : ℕ) (now : ℚ) (T : AckTables) :
    AckTables :=
  { T with
    pending := T.pending.keep (fun e => e.messageId != messageId)
    failed := T.failed.setAll ackCodes ⟨messageId, now⟩ }

/-- Claim a failed message for a late ACK inside the grace time. -/
def popFailedAck (ackCode : String) (now : ℚ) (T : AckTables) : Option ℕ × AckTables :=
  match T.failed.get ackCode with
  | none => (none, T)
  | some e =>
    let T := { T with failed := T.failed.erase ackCode }
    if e.expired now then (none, T) else (some e.messageId, T)

/-- `apply_dm_ack_code` up to its first await: the message whose count is
incremented next, if the code matches one. -/
def applyDmAckCode (ackCode : String) (now : ℚ) (T : AckTables) : Option ℕ × AckTables :=
  match (T.cleanupExpiredAcks now).popPendingAck ackCode with
  | (some messageId, T) => (some messageId, T.clearPendingAcksForMessage messageId)
  | (none, T) =>
    match T.popFailedAck ackCode now with
    | (some messageId, T) => (some messageId, T.clearPendingAcksForMessage messageId)
    | (none, T) => (none, T.bufferUnmatchedAck ackCode now)

/-! ### What the operations keep -/

/-- The pending and failed entries of one state of the tables are among those of
another. -/
structure Within (T' T : AckTables) : Prop where
  pending : ∀ {code e}, T'.pending.get code = some e → T.pending.get code = some e
  failed : ∀ {code e}, T'.failed.get code = some e → T.failed.get code = some e

variable {T : AckTables} {code : String} {now : ℚ}

theorem Within.trans {T' T'' : AckTables} (h : Within T'' T') (h' : Within T' T) :
    Within T'' T := ⟨fun hc => h'.pending (h.pending hc), fun hc => h'.failed (h.failed hc)⟩

theorem within_cleanupExpiredAcks (now : ℚ) (T : AckTables) :
    Within (T.cleanupExpiredAcks now) T where
  pending := fun h => (Table.get_keep_eq_some.mp h).1
  failed := fun h => (Table.get_keep_eq_some.mp h).1

theorem within_clearPendingAcksForMessage (m : ℕ) (T : AckTables) :
    Within (T.clearPendingAcksForMessage m) T where
  pending := fun h => (Table.get_keep_eq_some.mp h).1
  failed := fun h => (Table.get_keep_eq_some.mp h).1

theorem failed_clearPendingAcksForMessage {m : ℕ} {e : FailedAck}
    (h : T.failed.get code = some e) (hm : e.messageId ≠ m) :
    (T.clearPendingAcksForMessage m).failed.get code = some e :=
  Table.get_keep_of_pass h (bne_iff_ne.mpr hm)

/-- What an ACK that arrives does: it is matched by an entry of its code that has
not expired, or buffered when there is none. -/
structure Applied (code : String) (now : ℚ) (T : AckTables) (matched : Option ℕ)
    (T' : AckTables) : Prop where
  within : Within T' T
  failed_kept : ∀ {c e}, T.failed.get c = some e →
    T'.failed.get c = some e ∨ e.expired now = true ∨ matched = some e.messageId
  buffered : ∀ {c b}, T'.buffered.get c = some b →
    T.buffered.get c = some b ∨ (matched = none ∧ c = code)
  buffered_kept : ∀ {c b}, T.buffered.get c = some b →
    (∃ b', T'.buffered.get c = some b' ∧ (b' = b ∨ b' = now)) ∨ now - b > bufferedAckTtlSeconds
  buffered_of_unmatched : matched = none → T'.buffered.get code = some now
  matched_of : ∀ {m}, matched = some m →
    (∃ e, T.pending.get code = some e ∧ e.messageId = m) ∨
      ∃ e, T.failed.get code = some e ∧ e.messageId = m
  pending_expired : matched = none → ∀ {e}, T.pending.get code = some e → e.expired now = true
  failed_expired : matched = none → ∀ {e}, T.failed.get code = some e → e.expired now = true
  deleted : ∀ {m t}, T'.deleted.get m = some t → T.deleted.get m = some t

theorem failed_cleanupExpiredAcks {e : FailedAck}
    (h : T.failed.get code = some e) :
    (T.cleanupExpiredAcks now).failed.get code = some e ∨ e.expired now = true := by
  cases he : e.expired now with
  | true => exact Or.inr rfl
  | false =>
    have hpass : (!e.expired now) = true := by rw [he]; rfl
    exact Or.inl (Table.get_keep_of_pass h hpass)

theorem pending_cleanupExpiredAcks {e : PendingAck}
    (h : T.pending.get code = some e) :
    (T.cleanupExpiredAcks now).pending.get code = some e ∨ e.expired now = true := by
  cases he : e.expired now with
  | true => exact Or.inr rfl
  | false =>
    have hpass : (!e.expired now) = true := by rw [he]; rfl
    exact Or.inl (Table.get_keep_of_pass h hpass)

theorem buffered_cleanupExpiredAcks {b : ℚ}
    (h : T.buffered.get code = some b) :
    (T.cleanupExpiredAcks now).buffered.get code = some b ∨ now - b > bufferedAckTtlSeconds := by
  by_cases hb : now - b > bufferedAckTtlSeconds
  · exact Or.inr hb
  · exact Or.inl (Table.get_keep_of_pass h (by simpa using hb))

/-- A match: the entry is taken out of the cleaned tables and the other entries
of its message go with it. -/
theorem Applied.of_match {m : ℕ} {U : AckTables}
    (hwithin : Within U (T.cleanupExpiredAcks now))
    (hbuffered : U.buffered = (T.cleanupExpiredAcks now).buffered)
    (hdeleted : U.deleted = (T.cleanupExpiredAcks now).deleted)
    (hfailed : ∀ {c e}, (T.cleanupExpiredAcks now).failed.get c = some e →
      U.failed.get c = some e ∨ e.messageId = m)
    (hmatch : (∃ e, T.pending.get code = some e ∧ e.messageId = m) ∨
      ∃ e, T.failed.get code = some e ∧ e.messageId = m) :
    Applied code now T (some m) (U.clearPendingAcksForMessage m) where
  within := ((within_clearPendingAcksForMessage m U).trans hwithin).trans
    (within_cleanupExpiredAcks now T)
  failed_kept := by
    intro c e h
    rcases failed_cleanupExpiredAcks h with h | h
    · by_cases hm : e.messageId = m
      · exact Or.inr (Or.inr (congrArg some hm.symm))
      · exact Or.inl (failed_clearPendingAcksForMessage ((hfailed h).resolve_right hm) hm)
    · exact Or.inr (Or.inl h)
  buffered := by
    intro c b h
    change U.buffered.get c = some b at h
    rw [hbuffered] at h
    exact Or.inl (Table.get_keep_eq_some.mp h).1
  buffered_kept := by
    intro c b h
    rcases buffered_cleanupExpiredAcks h with h | h
    · refine Or.inl ⟨b, ?_, Or.inl rfl⟩
      change U.buffered.get c = some b
      rw [hbuffered]
      exact h
    · exact Or.inr h
  buffered_of_unmatched := by
    intro h
    cases h
  matched_of := by
    intro m' h
    cases h
    exact hmatch
  pending_expired := by
    intro h
    cases h
  failed_expired := by
    intro h
    cases h
  deleted := by
    intro m' t h
    change U.deleted.get m' = some t at h
    rw [hdeleted] at h
    exact (Table.get_keep_eq_some.mp h).1

/-- No match: the cleaned tables hold no entry of the code. -/
theorem Applied.of_unmatched
    (hpending : (T.cleanupExpiredAcks now).pending.get code = none)
    (hfailed : (T.cleanupExpiredAcks now).failed.get code = none) :
    Applied code now T none ((T.cleanupExpiredAcks now).bufferUnmatchedAck code now) where
  within :=
    ⟨(within_cleanupExpiredAcks now T).pending, (within_cleanupExpiredAcks now T).failed⟩
  failed_kept := by
    intro c e h
    rcases failed_cleanupExpiredAcks h with h | h
    · exact Or.inl h
    · exact Or.inr (Or.inl h)
  buffered := by
    intro c b h
    rcases Table.get_set_eq_some h with ⟨hc, _⟩ | ⟨_, h⟩
    · exact Or.inr ⟨rfl, hc⟩
    · exact Or.inl (Table.get_keep_eq_some.mp h).1
  buffered_kept := by
    intro c b h
    by_cases hc : c = code
    · subst hc
      exact Or.inl ⟨now, Table.get_set_self .., Or.inr rfl⟩
    · rcases buffered_cleanupExpiredAcks h with h | h
      · exact Or.inl ⟨b, (Table.get_set_of_ne _ now hc).trans h, Or.inl rfl⟩
      · exact Or.inr h
  buffered_of_unmatched := fun _ => Table.get_set_self ..
  matched_of := by
    intro m h
    cases h
  pending_expired := by
    intro _ e h
    rcases pending_cleanupExpiredAcks h with h | h
    · rw [hpending] at h
      cases h
    · exact h
  failed_expired := by
    intro _ e h
    rcases failed_cleanupExpiredAcks h with h | h
    · rw [hfailed] at h
      cases h
    · exact h
  deleted := fun h => (Table.get_keep_eq_some.mp h).1

/-- **One arrival.** -/
theorem applyDmAckCode_spec (code : String) (now : ℚ) (T : AckTables) :
    Applied code now T (T.applyDmAckCode code now).1 (T.applyDmAckCode code now).2 := by
  have hcleanup := within_cleanupExpiredAcks now T
  unfold applyDmAckCode popPendingAck
  cases hpending : (T.cleanupExpiredAcks now).pending.get code with
  | some e =>
    refine Applied.of_match ⟨?_, fun h => h⟩ rfl rfl (fun h => Or.inl h)
      (Or.inl ⟨e, hcleanup.pending hpending, rfl⟩)
    exact fun h => (Table.get_erase_eq_some h).2
  | none =>
    dsimp only
    unfold popFailedAck
    cases hfailed : (T.cleanupExpiredAcks now).failed.get code with
    | none => exact Applied.of_unmatched hpending hfailed
    | some e =>
      have hfresh : e.expired now = false := by
        have hpass := (Table.get_keep_eq_some.mp hfailed).2
        simpa using hpass
      dsimp only
      rw [hfresh, if_neg Bool.false_ne_true]
      refine Applied.of_match ⟨fun h => h, ?_⟩ rfl rfl ?_
        (Or.inr ⟨e, hcleanup.failed hfailed, rfl⟩)
      · exact fun h => (Table.get_erase_eq_some h).2
      · intro c e' h
        by_cases hc : c = code
        · subst hc
          rw [hfailed] at h
          exact Or.inr (by rw [← Option.some.inj h])
        · exact Or.inl ((Table.get_erase_of_ne _ hc).trans h)

end AckTables

/-!
## Sending a direct message with its retries (`app/services/message_send.py`)

`send_direct_message_to_contact`, `_retry_direct_message_until_acked` and
`_mark_direct_message_failed` are cut at their awaits, as are the arrival of an
ACK (`app/services/dm_ack_apply.py`) and the deletion of a message: an operation
is what the source does between two of them. Time passes in operations of its
own and never goes back. A message id is used once.

Of a row only the ACK count and the failed marker are kept. A send to the command
contact of the radio itself has no retries and is left out.
-/

abbrev dmSendMaxAttempts : ℕ := 3
abbrev defaultDmAckTimeoutMs : ℤ := 10000
abbrev dmRetryWaitMargin : ℚ := 6 / 5

structure MessageRow where
  acked : ℕ := 0
  failedAt : Option ℤ := none
  deriving DecidableEq

/-- Where the send of a message gave the event loop back: before its first code
is registered, or at an await of the retry loop. -/
inductive SendPhase
  | first
  | sleeping (wakeAt : ℚ)
  | checking
  | sending
  | rechecking (ackCode : Option String) (suggestedTimeout : Option ℤ)
  | registering (ackCode : String) (timeoutMs : ℤ)
  | counting
  | marking
  | tracking
  deriving DecidableEq

structure SendTask where
  ackCodes : List String
  nextWaitTimeoutMs : ℤ
  attempt : ℕ
  phase : SendPhase
  deriving DecidableEq

/-- How one more attempt ended: the radio was busy, it failed, or it was sent
with an expected ACK code and a timeout, each of which the radio may omit. -/
inductive AttemptOutcome
  | busy
  | failed
  | sent (ackCode : Option String) (suggestedTimeout : Option ℤ)
  deriving DecidableEq

/-- The tables of the tracker, the rows and sends of the messages, and the
messages with an increment under way for an ACK that arrived. -/
structure DmState where
  clock : ℚ := 0
  lastId : ℕ := 0
  tables : AckTables := {}
  rows : Table ℕ MessageRow := .empty
  tasks : Table ℕ SendTask := .empty
  acking : List ℕ := []

/-- `_get_ack_tracking_timeout_ms` of an accepted send. -/
def ackTrackingTimeoutMs (suggestedTimeout : Option ℤ) : ℤ :=
  match suggestedTimeout with
  | none => defaultDmAckTimeoutMs
  | some timeout => max 1 timeout

namespace SendTask

/-- The sleep before the next attempt, or before the message is marked failed. -/
def sleep (now : ℚ) (t : SendTask) : SendTask :=
  { t with phase := .sleeping (now + t.nextWaitTimeoutMs / 1000 * dmRetryWaitMargin) }

/-- The attempt is used up. -/
def nextAttempt (t : SendTask) : SendTask := { t with attempt := t.attempt + 1 }

end SendTask

namespace DmState

def isMessageAcked (m : ℕ) (s : DmState) : Bool :=
  match s.rows.get m with
  | some row => decide (row.acked > 0)
  | none => false

/-- `increment_ack_count`: an ACK also clears the failed marker. -/
def incrementAckCount (m : ℕ) (s : DmState) : DmState :=
  match s.rows.get m with
  | some row => { s with rows := s.rows.set m ⟨row.acked + 1, none⟩ }
  | none => s

/-- The send of a message goes on, or ends. -/
def goOn (m : ℕ) (t : SendTask) (s : DmState) : DmState := { s with tasks := s.tasks.set m t }

def endSend (m : ℕ) (s : DmState) : DmState := { s with tasks := s.tasks.erase m }

/-- `_apply_direct_message_ack_tracking` up to its first await, and the sleep
that follows when the ACK was not there before its registration. -/
def applyAckTracking (m : ℕ) (ackCode : String) (timeoutMs : ℤ) (t : SendTask) (s : DmState) :
    DmState :=
  match s.tables.trackPendingAck ackCode m timeoutMs s.clock with
  | (true, T) =>
    { s with tables := T.clearPendingAcksForMessage m }.goOn m { t with phase := .counting }
  | (false, T) => { s with tables := T }.goOn m (t.sleep s.clock)

/-! #### The first send -/

/-- The row is stored before the radio sends. -/
def create (m : ℕ) (s : DmState) : Option DmState :=
  if m > s.lastId then
    some ({ s with
      lastId := m
      rows := s.rows.set m {} }.goOn m ⟨[], defaultDmAckTimeoutMs, 0, .first⟩)
  else none

/-- The radio took the message. Without an ACK code nothing is tracked. -/
def firstSent (m : ℕ) (ackCode : Option String) (suggestedTimeout : Option ℤ) (t : SendTask)
    (s : DmState) : Option DmState :=
  match t.phase, ackCode with
  | .first, none => some (s.endSend m)
  | .first, some code =>
    let timeoutMs := ackTrackingTimeoutMs suggestedTimeout
    some (s.applyAckTracking m code timeoutMs ⟨[code], timeoutMs, 1, .first⟩)
  | _, _ => none

/-- The send failed. The row stays when its outcome is unknown. -/
def firstFailed (m : ℕ) (keepRow : Bool) (t : SendTask) (s : DmState) : Option DmState :=
  match t.phase with
  | .first => some ({ s with rows := if keepRow then s.rows else s.rows.erase m }.endSend m)
  | _ => none

/-! #### The retry loop -/

/-- The sleep is over. -/
def wake (m : ℕ) (t : SendTask) (s : DmState) : Option DmState :=
  match t.phase with
  | .sleeping wakeAt =>
    if s.clock < wakeAt then none
    else if t.attempt < dmSendMaxAttempts ∧ s.tables.isMessageDeleted m then some (s.endSend m)
    else some (s.goOn m { t with phase := .checking })
  | _ => none

/-- The ACK count was read before an attempt, or before the message is marked
failed. -/
def check (m : ℕ) (t : SendTask) (s : DmState) : Option DmState :=
  match t.phase with
  | .checking =>
    if s.isMessageAcked m then some (s.endSend m)
    else if t.attempt < dmSendMaxAttempts then some (s.goOn m { t with phase := .sending })
    else some (s.goOn m { t with phase := .marking })
  | _ => none

/-- The attempt has ended. A busy radio does not use it up. -/
def attempted (m : ℕ) (outcome : AttemptOutcome) (t : SendTask) (s : DmState) : Option DmState :=
  match t.phase, outcome with
  | .sending, .busy => some (s.goOn m (t.sleep s.clock))
  | .sending, .failed => some (s.goOn m (t.nextAttempt.sleep s.clock))
  | .sending, .sent code suggested =>
    some (s.goOn m { t with phase := .rechecking code suggested })
  | _, _ => none

/-- The ACK count was read after an attempt. -/
def recheck (m : ℕ) (t : SendTask) (s : DmState) : Option DmState :=
  match t.phase with
  | .rechecking code suggested =>
    if s.isMessageAcked m then some (s.endSend m)
    else
      match code with
      | none => some (s.goOn m (t.nextAttempt.sleep s.clock))
      | some code =>
        some (s.goOn m { t with phase := .registering code (ackTrackingTimeoutMs suggested) })
  | _ => none

/-- The code of the attempt is registered. -/
def register (m : ℕ) (t : SendTask) (s : DmState) : Option DmState :=
  match t.phase with
  | .registering code timeoutMs =>
    some (s.applyAckTracking m code timeoutMs
      { t.nextAttempt with
        ackCodes := t.ackCodes ++ [code]
        nextWaitTimeoutMs := timeoutMs })
  | _ => none

/-- The count of an ACK that was there before its registration. -/
def count (m : ℕ) (t : SendTask) (s : DmState) : Option DmState :=
  match t.phase with
  | .counting => some ((s.incrementAckCount m).endSend m)
  | _ => none

/-- `mark_failed`: a row that is acked or gone is left alone. -/
def mark (m : ℕ) (t : SendTask) (s : DmState) : Option DmState :=
  match t.phase with
  | .marking =>
    match s.rows.get m with
    | none => some (s.endSend m)
    | some row =>
      if row.acked = 0 then
        some ({ s with rows := s.rows.set m { row with failedAt := some ⌊s.clock⌋ } }.goOn m
          { t with phase := .tracking })
      else some (s.endSend m)
  | _ => none

/-- The codes of the failed message stay matchable. -/
def track (m : ℕ) (t : SendTask) (s : DmState) : Option DmState :=
  match t.phase with
  | .tracking =>
    some ({ s with tables := s.tables.trackFailedAcks t.ackCodes m s.clock }.endSend m)
  | _ => none

/-! #### ACKs -/

/-- `apply_dm_ack_code` up to its first await. -/
def ack (code : String) (s : DmState) : DmState :=
  match s.tables.applyDmAckCode code s.clock with
  | (some m, T) => { s with tables := T, acking := s.acking ++ [m] }
  | (none, T) => { s with tables := T }

/-- The increment of an ACK that arrived. -/
def increment (m : ℕ) (s : DmState) : Option DmState :=
  if m ∈ s.acking then some ({ s with acking := s.acking.erase m }.incrementAckCount m) else none

end DmState

/-- What can happen. `requestDelete` and `dropCodes` are what the deletion and
the resend of a message do before its row goes. -/
inductive DmOp
  | advance (now : ℚ)
  | create (m : ℕ)
  | firstSent (m : ℕ) (ackCode : Option String) (suggestedTimeout : Option ℤ)
  | firstFailed (m : ℕ) (keepRow : Bool)
  | wake (m : ℕ)
  | check (m : ℕ)
  | attempted (m : ℕ) (outcome : AttemptOutcome)
  | recheck (m : ℕ)
  | register (m : ℕ)
  | count (m : ℕ)
  | mark (m : ℕ)
  | track (m : ℕ)
  | ack (code : String)
  | increment (m : ℕ)
  | requestDelete (m : ℕ)
  | dropCodes (m : ℕ)
  | deleteRow (m : ℕ)
  deriving DecidableEq

/-- The state after an operation, `none` when it cannot happen. -/
def DmOp.apply (s : DmState) : DmOp → Option DmState
  | .advance now => if s.clock ≤ now then some { s with clock := now } else none
  | .create m => s.create m
  | .firstSent m code suggested => (s.tasks.get m).bind (fun t => s.firstSent m code suggested t)
  | .firstFailed m keepRow => (s.tasks.get m).bind (fun t => s.firstFailed m keepRow t)
  | .wake m => (s.tasks.get m).bind (fun t => s.wake m t)
  | .check m => (s.tasks.get m).bind (fun t => s.check m t)
  | .attempted m outcome => (s.tasks.get m).bind (fun t => s.attempted m outcome t)
  | .recheck m => (s.tasks.get m).bind (fun t => s.recheck m t)
  | .register m => (s.tasks.get m).bind (fun t => s.register m t)
  | .count m => (s.tasks.get m).bind (fun t => s.count m t)
  | .mark m => (s.tasks.get m).bind (fun t => s.mark m t)
  | .track m => (s.tasks.get m).bind (fun t => s.track m t)
  | .ack code => some (s.ack code)
  | .increment m => s.increment m
  | .requestDelete m =>
    some { s with tables := (s.tables.markMessageDeleted m s.clock).clearPendingAcksForMessage m }
  | .dropCodes m => some { s with tables := s.tables.clearPendingAcksForMessage m }
  | .deleteRow m => some { s with rows := s.rows.erase m }

abbrev DmEvent := Event DmState DmOp

def DmStep (s : DmState) (op : DmOp) (s' : DmState) : Prop := op.apply s = some s'

end RtfmEv.DirectMessage
