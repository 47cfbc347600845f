import Mathlib.Data.List.Basic

/-!
# Loading contacts onto the radio (`app/radio_sync.py`)

`_reconcile_radio_contacts_in_background` brings the contacts on the radio towards the
contacts that are desired. Each pass of its loop has a budget of two commands. Without
autoevict it removes what is not desired and then adds what is missing; with autoevict it
adds the desired contacts one after the other, whatever is on the radio.

A contact goes by its public key in lower case. The radio lock is free and the transport
stays the same, so the exits that wait for another turn or give up on the radio are left
out. The meshcore library is met in its contact cache, which is looked up by key prefix.
-/

namespace RtfmEv.RadioSync

/-- What the radio answers to a command, or the exception that sending it raises. -/
inductive Answer
  | ok
  | notFound
  | tableFull
  | otherError
  | raised
  deriving DecidableEq

inductive Command (K : Type*)
  | remove (key : K)
  | add (key : K)
  deriving DecidableEq

/-- What stays the same while the loop runs: how the radio answers, the contacts that are
selected and those of them that have a full key, the prefix of twelve digits of a key, and
the mode. -/
structure Setup (K P : Type*) where
  answer : Command K → Answer
  selected : List K
  full : K → Bool
  keyPrefix : K → P
  /-- meshcomod's command contact -/
  isCommandContact : K → Bool
  autoevict : Bool

/-- What the loop changes: its own view of the radio, the contact table of the radio, the
library's cache, the commands that were sent, and in autoevict mode the next contact and the
full passes that failed. -/
structure Reconcile (K : Type*) where
  radioContacts : List K
  table : List K
  cache : List K
  commands : List (Command K) := []
  nextIndex : ℕ := 0
  retries : ℕ := 0
  deriving DecidableEq

abbrev contactReconcileBatchSize : ℕ := 2
abbrev maxAutoevictRetries : ℕ := 3

variable {K P : Type*} [DecidableEq K] [DecidableEq P]

namespace Reconcile

/-- `get_contact_by_key_prefix`. -/
def find (s : Reconcile K) (S : Setup K P) (k : K) : Option K :=
  s.cache.find? (fun c => S.keyPrefix c = S.keyPrefix k)

/-- A command is sent, and the radio does what it answers. -/
def send (s : Reconcile K) (S : Setup K P) (c : Command K) : Reconcile K :=
  { s with
    commands := s.commands ++ [c]
    table :=
      if S.answer c = .ok then
        match c with
        | .remove k => s.table.filter (· ≠ k)
        | .add k => if k ∈ s.table then s.table else s.table ++ [k]
      else s.table }

/-- `radio_contacts[public_key] = …`. -/
def note (s : Reconcile K) (k : K) : Reconcile K :=
  { s with radioContacts := s.radioContacts ++ [k] }

/-- `radio_contacts.pop(public_key)` and `_evict_removed_contact_from_library_cache`. -/
def forget (s : Reconcile K) (k : K) : Reconcile K :=
  { s with
    radioContacts := s.radioContacts.filter (· ≠ k)
    cache := s.cache.filter (· ≠ k) }

end Reconcile

namespace Setup

variable (S : Setup K P)

/-- `desired_fill_contacts`, which are also the keys of `desired_contacts`. -/
def desired : List K := S.selected.filter S.full

/-- A removal that the loop counts as done. -/
def removed (k : K) : Bool := S.answer (.remove k) = .ok || S.answer (.remove k) = .notFound

/-- The contact is removed that the library has under the prefix. -/
def removeOne (k : K) (s : Reconcile K) : Reconcile K :=
  let target := (s.find S k).getD k
  let s := s.send S (.remove target)
  if S.removed target then s.forget k else s

/-- The removals of a pass, with the budget that they leave. -/
def removePhase : List K → ℕ → Reconcile K → Reconcile K × ℕ
  | [], budget, s => (s, budget)
  | _ :: _, 0, s => (s, 0)
  | k :: ks, budget + 1, s =>
    if k ∈ S.desired then removePhase ks (budget + 1) s
    else removePhase ks budget (S.removeOne k s)

/-- The additions of a pass, and whether the radio has answered that its table is full. -/
def addPhase : List K → ℕ → Reconcile K → Reconcile K × Bool
  | [], _, s => (s, false)
  | _ :: _, 0, s => (s, false)
  | k :: ks, budget + 1, s =>
    if k ∈ s.radioContacts then addPhase ks (budget + 1) s
    else if (s.find S k).isSome then addPhase ks (budget + 1) (s.note k)
    else
      match S.answer (.add k) with
      | .ok => addPhase ks budget ((s.send S (.add k)).note k)
      | .tableFull => (s.send S (.add k), true)
      | _ => addPhase ks budget (s.send S (.add k))

/-- What a batch of the blind fill does. -/
structure Filled (K : Type*) where
  state : Reconcile K
  processed : ℕ := 0
  failed : Bool := false
  tableFull : Bool := false

/-- A batch of the blind fill. -/
def fillPhase : List K → Filled K → Filled K
  | [], f => f
  | k :: ks, f =>
    let sent := f.state.send S (.add k)
    match S.answer (.add k) with
    | .ok =>
      let noted := if k ∈ sent.radioContacts then sent else sent.note k
      fillPhase ks { f with state := noted, processed := f.processed + 1 }
    | .tableFull => { f with state := sent, failed := true, tableFull := true }
    | _ => fillPhase ks { f with state := sent, processed := f.processed + 1, failed := true }

/-- How a pass of the loop ends: with another one, or by leaving the loop, after a table-full
answer or not. -/
inductive Outcome (K : Type*)
  | again (s : Reconcile K)
  | ended (s : Reconcile K) (tableFull : Bool)

/-- A pass without autoevict. -/
def passNormal (s : Reconcile K) : Outcome K :=
  let removable := s.radioContacts.filter (· ∉ S.desired)
  let missing := S.desired.filter (· ∉ s.radioContacts)
  if removable = [] ∧ missing = [] then .ended s false
  else
    let (s, budget) := S.removePhase s.radioContacts contactReconcileBatchSize s
    let (s, tableFull) := S.addPhase S.desired budget s
    if tableFull then .ended s true else .again s

/-- A pass with autoevict. -/
def passAutoevict (s : Reconcile K) : Outcome K :=
  if S.desired = [] then .ended s false
  else
    let next := if s.nextIndex ≥ S.desired.length then 0 else s.nextIndex
    let batch := (S.desired.drop next).take contactReconcileBatchSize
    let f := S.fillPhase batch { state := s }
    let next := next + f.processed
    let s : Reconcile K := { f.state with nextIndex := next }
    if f.tableFull then .ended s true
    else if next ≥ S.desired.length then
      if f.failed then
        let s : Reconcile K := { s with retries := s.retries + 1 }
        if s.retries ≥ maxAutoevictRetries then .ended s false else .again { s with nextIndex := 0 }
      else .ended s false
    else .again s

def pass (s : Reconcile K) : Outcome K := if S.autoevict then S.passAutoevict s else S.passNormal s

/-- The loop, for so many passes at most. -/
def run : ℕ → Reconcile K → Outcome K
  | 0, s => .again s
  | n + 1, s =>
    match S.pass s with
    | .again s => run n s
    | .ended s tableFull => .ended s tableFull

/-- The loop begins with the snapshot of the radio's contacts. The radio does not store the
command contact. -/
def start (snapshot cache : List K) : Reconcile K :=
  let contacts := snapshot.filter (fun k => !S.isCommandContact k)
  { radioContacts := contacts, table := contacts, cache := cache }

end Setup

/-- The state that a pass has led to. -/
def Setup.Outcome.state : Setup.Outcome K → Reconcile K
  | .again s => s
  | .ended s _ => s

/-! ### What is asked -/

namespace Setup

variable (S : Setup K P)

/-- A command that is always refused. -/
def refuses : Command K → Bool
  | .remove k => !S.removed k
  | .add k => S.answer (.add k) ≠ .ok

/-- The loop ends, does not go on with a command that is always refused, and unless the table
was full leaves on the radio what is desired and accepted, and nothing else that it may remove. -/
structure Delivers (s : Reconcile K) : Prop where
  ends : ∃ n s' tableFull, S.run n s = .ended s' tableFull
  bounded : ∀ c, S.refuses c = true → ∃ bound, ∀ n, (S.run n s).state.commands.count c ≤ bound
  loaded : ∀ n s', S.run n s = .ended s' false →
    ∀ k ∈ S.desired, S.answer (.add k) = .ok → k ∈ s'.table
  removed : S.autoevict = false → ∀ n s', S.run n s = .ended s' false →
    ∀ k ∉ S.desired, S.answer (.remove k) = .ok → k ∉ s'.table

end Setup

/-!
## What a pass of the reconcile loop does

Two kinds of contacts decide how the loop goes on without autoevict: a contact on the radio
whose removal is refused, and a missing one that is not taken. Neither kind ever changes, and
each of them costs a command of every pass that gets to it. What is left of the budget makes
progress.
-/

variable {K P : Type*} [DecidableEq K] [DecidableEq P]

namespace Setup

variable (S : Setup K P)

/-- A contact that the loop tries to remove in vain. -/
def stuck (k : K) : Bool := decide (k ∉ S.desired) && !S.removed k

/-- A contact that the loop removes when it gets to it. -/
def removable (k : K) : Bool := decide (k ∉ S.desired) && S.removed k

/-- A contact that the loop tries to add in vain, or at the cost of a table-full answer. -/
def hard (s : Reconcile K) (k : K) : Bool :=
  decide (k ∉ s.radioContacts) && decide (k ∉ s.cache) && decide (S.answer (.add k) ≠ .ok)

/-- The contacts on the radio that stay there against the will of the loop. -/
def stuckOn (s : Reconcile K) : List K := s.radioContacts.filter S.stuck

/-- The desired contacts that never get onto the radio, in the order in which they are tried. -/
def kept (s : Reconcile K) : List K := S.desired.filter (S.hard s)

/-- Those of them that are tried before the radio says that its table is full. -/
def blocking (ks : List K) : List K := ks.takeWhile (fun k => S.answer (.add k) ≠ .tableFull)

/-- What the loop has still to do that it can do. -/
def todo (s : Reconcile K) : ℕ :=
  (s.radioContacts.filter S.removable).length +
    (S.desired.filter (fun k => decide (k ∉ s.radioContacts))).length

/-- The prefixes tell the contacts apart. -/
def TellsApart (s : Reconcile K) : Prop :=
  ∀ k ∈ s.radioContacts ++ S.desired ++ s.cache, ∀ k' ∈ s.radioContacts ++ S.desired ++ s.cache,
    S.keyPrefix k = S.keyPrefix k' → k = k'

/-- What holds of every state of a loop that began with `s₀`. -/
structure Along (s₀ s : Reconcile K) : Prop where
  contacts : ∀ k ∈ s.radioContacts, k ∈ s₀.radioContacts ∨ k ∈ S.desired
  there : ∀ k ∈ S.desired, k ∈ s₀.radioContacts → k ∈ s.radioContacts
  cached : ∀ k ∈ s.cache, k ∈ s₀.cache
  stays : ∀ k ∈ S.desired, k ∈ s₀.cache → k ∈ s.cache
  stuck : S.stuckOn s = S.stuckOn s₀
  kept : S.kept s = S.kept s₀
  loaded : ∀ k ∈ S.desired, k ∈ s.radioContacts →
    k ∈ s.table ∨ k ∈ s₀.cache ∧ k ∉ s₀.radioContacts
  stale : ∀ k ∈ S.desired, k ∈ s₀.cache → k ∉ s₀.radioContacts → k ∉ s.table
  off : ∀ k ∉ S.desired, S.answer (.remove k) = .ok → k ∈ s.table → k ∈ s.radioContacts

variable {S} {s s₀ : Reconcile K} {k k' : K} {ks : List K} {budget : ℕ}

omit [DecidableEq P] in
theorem along_start (h : s.table = s.radioContacts) : S.Along s s := by
  refine ⟨fun _ => Or.inl, fun _ _ hk => hk, fun _ hk => hk, fun _ _ hk => hk, rfl, rfl, fun k _ hk => Or.inl ?_,
    fun k _ _ hk => ?_, fun k _ _ hk => ?_⟩
  · rw [h]
    exact hk
  · rw [h]
    exact hk
  · rw [← h]
    exact hk

/-- Where the prefixes tell the contacts apart, the library finds a contact if it has it. -/
theorem Along.find (h : S.Along s₀ s) (htell : S.TellsApart s₀)
    (hk : k ∈ s₀.radioContacts ∨ k ∈ S.desired) :
    s.find S k = if k ∈ s.cache then some k else none := by
  have hmem : k ∈ s₀.radioContacts ++ S.desired ++ s₀.cache := by
    rw [List.mem_append, List.mem_append]
    exact Or.inl hk
  have hsame : ∀ c ∈ s.cache, S.keyPrefix c = S.keyPrefix k → c = k := by
    intro c hc hprefix
    exact htell c (List.mem_append_right _ (h.cached c hc)) k hmem hprefix
  unfold Reconcile.find
  split_ifs with hin
  · cases hfind : s.cache.find? (fun c => S.keyPrefix c = S.keyPrefix k) with
    | none =>
      have hnot := List.find?_eq_none.mp hfind k hin
      simp at hnot
    | some c =>
      have hprefix := List.find?_some hfind
      rw [hsame c (List.mem_of_find?_eq_some hfind) (of_decide_eq_true hprefix)]
  · rw [List.find?_eq_none]
    intro c hc hprefix
    rw [hsame c hc (of_decide_eq_true hprefix)] at hc
    exact hin hc

/-! #### One command -/

omit [DecidableEq P] in
theorem mem_send_remove : k' ∈ (s.send S (.remove k)).table ↔
      k' ∈ s.table ∧ (S.answer (.remove k) = .ok → k' ≠ k) := by
  unfold Reconcile.send
  show k' ∈ (if _ then _ else _) ↔ _
  split_ifs with hok
  · simp [hok]
  · simp [hok]

omit [DecidableEq P] in
theorem mem_send_add :
    k' ∈ (s.send S (.add k)).table ↔ k' ∈ s.table ∨ S.answer (.add k) = .ok ∧ k' = k := by
  unfold Reconcile.send
  show k' ∈ (if _ then (if _ then _ else _) else _) ↔ _
  split_ifs with hok hin
  · refine ⟨Or.inl, ?_⟩
    rintro (hk' | ⟨_, rfl⟩)
    · exact hk'
    · exact hin
  · simp [hok]
  · simp [hok]

omit [DecidableEq P] in
theorem send_refused {c : Command K} (h : S.answer c ≠ .ok) :
    s.send S c = { s with commands := s.commands ++ [c] } := by
  unfold Reconcile.send
  rw [if_neg h]

omit [DecidableEq P] in
theorem Along.of_commands (h : S.Along s₀ s) (commands : List (Command K)) :
    S.Along s₀ { s with commands := commands } :=
  ⟨h.contacts, h.there, h.cached, h.stays, h.stuck, h.kept, h.loaded, h.stale, h.off⟩

omit [DecidableEq P] in

omit [DecidableEq P] in
theorem Along.forget (h : S.Along s₀ s) (hk : k ∉ S.desired)
    (hremoved : S.removed k = true) : S.Along s₀ ((s.send S (.remove k)).forget k) := by
  have hne : ∀ k' ∈ S.desired, k' ≠ k := by
    rintro k' hk' rfl
    exact hk hk'
  refine ⟨fun k' hk' => h.contacts k' (List.mem_filter.mp hk').1,
    fun k' hdesired hk' => List.mem_filter.mpr ⟨h.there k' hdesired hk', by simpa using hne k' hdesired⟩,
    fun k' hk' => h.cached k' (List.mem_filter.mp hk').1,
    fun k' hdesired hk' => List.mem_filter.mpr ⟨h.stays k' hdesired hk', by simpa using hne k' hdesired⟩,
    ?_, ?_, fun k' hdesired hk' => ?_, fun k' hdesired hcached hnot hk' => ?_,
    fun k' hnot hok hk' => ?_⟩
  · rw [← h.stuck]
    show (s.radioContacts.filter (· ≠ k)).filter S.stuck = s.radioContacts.filter S.stuck
    rw [List.filter_filter]
    refine List.filter_congr (fun k' _ => ?_)
    by_cases heq : k' = k
    · simp [heq, Setup.stuck, hremoved]
    · simp [heq]
  · rw [← h.kept]
    refine List.filter_congr (fun k' hdesired => ?_)
    have hk' := hne k' hdesired
    simp [hard, Reconcile.forget, Reconcile.send, hk']
  · rcases h.loaded k' hdesired (List.mem_filter.mp hk').1 with htable | hstale
    · exact Or.inl (mem_send_remove.mpr ⟨htable, fun _ => hne k' hdesired⟩)
    · exact Or.inr hstale
  · exact h.stale k' hdesired hcached hnot (mem_send_remove.mp hk').1
  · have htable := mem_send_remove.mp hk'
    refine List.mem_filter.mpr ⟨h.off k' hnot hok htable.1, ?_⟩
    have hne : k' ≠ k := by
      rintro rfl
      exact htable.2 hok rfl
    simpa using hne

omit [DecidableEq P] in
theorem hard_note (htaken : k ∈ s.cache ∨ S.answer (.add k) = .ok)
    (ks : List K) : ks.filter (S.hard (s.note k)) = ks.filter (S.hard s) := by
  refine List.filter_congr (fun k' _ => ?_)
  by_cases heq : k' = k
  · subst heq
    rcases htaken with hcache | hok
    · simp [hard, Reconcile.note, hcache]
    · simp [hard, Reconcile.note, hok]
  · have hmem : k' ∈ (s.note k).radioContacts ↔ k' ∈ s.radioContacts := by
      simp [Reconcile.note, heq]
    unfold hard
    rw [decide_eq_decide.mpr (not_congr hmem)]
    rfl

omit [DecidableEq P] in
/-- What becomes of a desired contact that is taken to be on the radio. -/
theorem Along.note (h : S.Along s₀ s) (hk : k ∈ S.desired)
    (htaken : k ∈ s.cache ∨ S.answer (.add k) = .ok)
    (hloaded : k ∈ s.table ∨ k ∈ s₀.cache ∧ k ∉ s₀.radioContacts) : S.Along s₀ (s.note k) := by
  refine ⟨fun k' hk' => ?_, fun k' hdesired hk' => List.mem_append_left _ (h.there k' hdesired hk'),
    h.cached, h.stays, ?_, ?_, fun k' hdesired hk' => ?_, h.stale,
    fun k' hnot hok hk' => List.mem_append_left _ (h.off k' hnot hok hk')⟩
  · rcases List.mem_append.mp hk' with hk' | hk'
    · exact h.contacts k' hk'
    · rw [List.mem_singleton.mp hk']
      exact Or.inr hk
  · rw [← h.stuck]
    show (s.radioContacts ++ [k]).filter S.stuck = s.radioContacts.filter S.stuck
    rw [List.filter_append]
    simp [Setup.stuck, hk]
  · rw [← h.kept]
    exact hard_note htaken _
  · rcases List.mem_append.mp hk' with hk' | hk'
    · exact h.loaded k' hdesired hk'
    · rw [List.mem_singleton.mp hk']
      exact hloaded

omit [DecidableEq P] in
theorem Along.adds (h : S.Along s₀ s) (hk : k ∈ S.desired)
    (hcache : k ∉ s.cache) : S.Along s₀ (s.send S (.add k)) := by
  refine ⟨h.contacts, h.there, h.cached, h.stays, h.stuck, h.kept, fun k' hdesired hk' => ?_,
    fun k' hdesired hcached hnot hk' => ?_, fun k' hnot hok hk' => ?_⟩
  · exact (h.loaded k' hdesired hk').imp_left (fun htable => mem_send_add.mpr (Or.inl htable))
  · rcases mem_send_add.mp hk' with htable | ⟨_, rfl⟩
    · exact h.stale k' hdesired hcached hnot htable
    · exact hcache (h.stays k' hdesired hcached)
  · rcases mem_send_add.mp hk' with htable | ⟨_, rfl⟩
    · exact h.off k' hnot hok htable
    · exact absurd hk hnot

/-! #### The removals of a pass -/

omit [DecidableEq P] in
theorem stuck_iff : S.stuck k = true ↔ k ∉ S.desired ∧ S.removed k = false := by
  unfold stuck
  simp

omit [DecidableEq P] in
theorem removable_iff : S.removable k = true ↔ k ∉ S.desired ∧ S.removed k = true := by
  unfold removable
  simp

/-- The loop removes what it means to remove. -/
theorem Along.removeOne_eq (h : S.Along s₀ s) (htell : S.TellsApart s₀)
    (hk : k ∈ s₀.radioContacts ∨ k ∈ S.desired) :
    S.removeOne k s = if S.removed k then (s.send S (.remove k)).forget k
      else s.send S (.remove k) := by
  have htarget : (s.find S k).getD k = k := by
    rw [h.find htell hk]
    split_ifs <;> rfl
  unfold removeOne
  rw [htarget]

omit [DecidableEq P] in
theorem send_of_not_removed (h : S.removed k = false) :
    s.send S (.remove k) = { s with commands := s.commands ++ [.remove k] } := by
  refine send_refused (fun hok => ?_)
  unfold removed at h
  rw [hok] at h
  cases h

theorem Along.removeOne (h : S.Along s₀ s) (htell : S.TellsApart s₀)
    (hk : k ∈ s₀.radioContacts ∨ k ∈ S.desired) (hnot : k ∉ S.desired) :
    S.Along s₀ (S.removeOne k s) := by
  rw [h.removeOne_eq htell hk]
  split_ifs with hremoved
  · exact h.forget hnot hremoved
  · rw [send_of_not_removed (by simpa using hremoved)]
    exact h.of_commands _

omit [DecidableEq P] in
/-- What is left to do grows with the contacts that may be removed, and shrinks with those that
are there. -/
theorem todo_forget_le (s : Reconcile K) (hk : k ∉ S.desired) :
    S.todo ((s.send S (.remove k)).forget k) ≤ S.todo s := by
  refine Nat.add_le_add ?_ (Nat.le_of_eq ?_)
  · exact (List.filter_sublist.filter _).length_le
  · congr 1
    refine List.filter_congr (fun k' hk' => ?_)
    have hne : k' ≠ k := by
      rintro rfl
      exact hk hk'
    refine decide_eq_decide.mpr (not_congr ?_)
    show k' ∈ s.radioContacts.filter (· ≠ k) ↔ _
    simp [hne]

omit [DecidableEq P] in
theorem todo_forget_lt (s : Reconcile K) (hk : S.removable k = true)
    (hmem : k ∈ s.radioContacts) : S.todo ((s.send S (.remove k)).forget k) < S.todo s := by
  have hnot := (removable_iff.mp hk).1
  have hle := todo_forget_le s hnot
  have hlt : ((s.radioContacts.filter (· ≠ k)).filter S.removable).length <
      (s.radioContacts.filter S.removable).length := by
    have hswap : (s.radioContacts.filter (· ≠ k)).filter S.removable =
        (s.radioContacts.filter S.removable).filter (· ≠ k) := by
      rw [List.filter_filter, List.filter_filter]
      exact List.filter_congr (fun k' _ => Bool.and_comm ..)
    rw [hswap]
    refine List.length_filter_lt_length_iff_exists.mpr ⟨k, List.mem_filter.mpr ⟨hmem, hk⟩, ?_⟩
    simp
  have hmissing : (S.desired.filter (fun k' => decide (k' ∉ s.radioContacts.filter (· ≠ k)))).length =
      (S.desired.filter (fun k' => decide (k' ∉ s.radioContacts))).length := by
    congr 1
    refine List.filter_congr (fun k' hk' => ?_)
    have hne : k' ≠ k := by
      rintro rfl
      exact hnot hk'
    refine decide_eq_decide.mpr (not_congr ?_)
    simp [hne]
  show _ + _ < _ + _
  exact Nat.add_lt_add_of_lt_of_le hlt (Nat.le_of_eq hmissing)

theorem todo_removeOne_le (h : S.Along s₀ s) (htell : S.TellsApart s₀)
    (hk : k ∈ s₀.radioContacts ∨ k ∈ S.desired) (hnot : k ∉ S.desired) :
    S.todo (S.removeOne k s) ≤ S.todo s := by
  rw [h.removeOne_eq htell hk]
  split_ifs with hremoved
  · exact todo_forget_le s hnot
  · rw [send_of_not_removed (by simpa using hremoved)]
    exact Nat.le_refl _

/-- **The removals of a pass.** Each contact that cannot be removed costs a command. -/
theorem Along.removePhase (h : S.Along s₀ s) (htell : S.TellsApart s₀) (budget : ℕ) (hks : ∀ k ∈ ks, k ∈ s₀.radioContacts ∨ k ∈ S.desired) :
    S.Along s₀ (S.removePhase ks budget s).1 ∧
      (S.removePhase ks budget s).2 ≤ budget - (ks.filter S.stuck).length ∧
      S.todo (S.removePhase ks budget s).1 ≤ S.todo s := by
  induction ks generalizing budget s with
  | nil => exact ⟨h, Nat.le_refl _, Nat.le_refl _⟩
  | cons k ks ih =>
    have htail : ∀ k' ∈ ks, k' ∈ s₀.radioContacts ∨ k' ∈ S.desired :=
      fun k' hk' => hks k' (List.mem_cons_of_mem _ hk')
    cases budget with
    | zero => exact ⟨h, Nat.zero_le _, Nat.le_refl _⟩
    | succ budget =>
      rw [Setup.removePhase]
      split_ifs with hdesired
      · have hstuck : S.stuck k = false := by
          unfold Setup.stuck
          simp [hdesired]
        rw [List.filter_cons_of_neg (by simpa using hstuck)]
        exact ih h (budget + 1) htail
      · have hk := hks k List.mem_cons_self
        obtain ⟨halong, hbudget, htodo⟩ := ih (h.removeOne htell hk hdesired) budget htail
        refine ⟨halong, ?_, Nat.le_trans htodo (todo_removeOne_le h htell hk hdesired)⟩
        have hlength : ((k :: ks).filter S.stuck).length ≤ (ks.filter S.stuck).length + 1 := by
          rw [List.filter_cons]
          split_ifs <;> simp
        omega

/-- What is left of the budget removes something, if there is something to be removed. -/
theorem removePhase_progress (h : S.Along s₀ s) (htell : S.TellsApart s₀) (hks : ∀ k ∈ ks, k ∈ s₀.radioContacts ∨ k ∈ S.desired)
    (hin : ∀ k ∈ ks, k ∈ s.radioContacts) (hbudget : (ks.filter S.stuck).length < budget)
    (hsome : ∃ k ∈ ks, S.removable k = true) :
    S.todo (S.removePhase ks budget s).1 < S.todo s := by
  induction ks generalizing budget s with
  | nil => simp at hsome
  | cons k ks ih =>
    have htail : ∀ k' ∈ ks, k' ∈ s₀.radioContacts ∨ k' ∈ S.desired :=
      fun k' hk' => hks k' (List.mem_cons_of_mem _ hk')
    have hintail : ∀ k' ∈ ks, k' ∈ s.radioContacts :=
      fun k' hk' => hin k' (List.mem_cons_of_mem _ hk')
    have hk := hks k List.mem_cons_self
    cases budget with
    | zero => omega
    | succ budget =>
      rw [Setup.removePhase]
      split_ifs with hdesired
      · have hstuck : S.stuck k = false := by
          unfold Setup.stuck
          simp [hdesired]
        have hrest : ∃ k' ∈ ks, S.removable k' = true := by
          obtain ⟨k', hk', hremovable⟩ := hsome
          rcases List.mem_cons.mp hk' with rfl | hk'
          · exact absurd hdesired (removable_iff.mp hremovable).1
          · exact ⟨k', hk', hremovable⟩
        rw [List.filter_cons_of_neg (by simpa using hstuck)] at hbudget
        exact ih h htail hintail hbudget hrest
      · cases hremoved : S.removed k with
        | true =>
          have hforget : S.removeOne k s = (s.send S (.remove k)).forget k := by
            rw [h.removeOne_eq htell hk, if_pos hremoved]
          have hlater := ((h.removeOne htell hk hdesired).removePhase htell budget htail).2.2
          have hless := todo_forget_lt (S := S) s (removable_iff.mpr ⟨hdesired, hremoved⟩)
            (hin k List.mem_cons_self)
          rw [hforget] at hlater ⊢
          exact Nat.lt_of_le_of_lt hlater hless
        | false =>
          have hsent : S.removeOne k s = { s with commands := s.commands ++ [.remove k] } := by
            rw [h.removeOne_eq htell hk, hremoved, send_of_not_removed hremoved]
            rfl
          have hrest : ∃ k' ∈ ks, S.removable k' = true := by
            obtain ⟨k', hk', hremovable⟩ := hsome
            rcases List.mem_cons.mp hk' with rfl | hk'
            · exact absurd ((removable_iff.mp hremovable).2.symm.trans hremoved) (by simp)
            · exact ⟨k', hk', hremovable⟩
          rw [List.filter_cons_of_pos (stuck_iff.mpr ⟨hdesired, hremoved⟩)] at hbudget
          rw [hsent]
          have hless : (ks.filter S.stuck).length < budget := by
            rw [List.length_cons] at hbudget
            omega
          exact ih (h.of_commands _) htail hintail hless hrest

/-- Where nothing can be removed, only the contacts that cannot be cost a command. -/
theorem removePhase_idle (h : S.Along s₀ s) (htell : S.TellsApart s₀) (budget : ℕ) (hks : ∀ k ∈ ks, k ∈ s₀.radioContacts ∨ k ∈ S.desired)
    (hnone : ∀ k ∈ ks, S.removable k = false) :
    (S.removePhase ks budget s).1.radioContacts = s.radioContacts ∧
      (S.removePhase ks budget s).1.cache = s.cache ∧
      (S.removePhase ks budget s).2 = budget - (ks.filter S.stuck).length := by
  induction ks generalizing budget s with
  | nil => exact ⟨rfl, rfl, rfl⟩
  | cons k ks ih =>
    have htail : ∀ k' ∈ ks, k' ∈ s₀.radioContacts ∨ k' ∈ S.desired :=
      fun k' hk' => hks k' (List.mem_cons_of_mem _ hk')
    have hnonetail : ∀ k' ∈ ks, S.removable k' = false :=
      fun k' hk' => hnone k' (List.mem_cons_of_mem _ hk')
    cases budget with
    | zero => exact ⟨rfl, rfl, (Nat.zero_sub _).symm⟩
    | succ budget =>
      rw [Setup.removePhase]
      split_ifs with hdesired
      · have hstuck : S.stuck k = false := by
          unfold Setup.stuck
          simp [hdesired]
        rw [List.filter_cons_of_neg (by simpa using hstuck)]
        exact ih h (budget + 1) htail hnonetail
      · have hremoved : S.removed k = false := by
          by_contra hremoved
          have hnot := hnone k List.mem_cons_self
          rw [removable_iff.mpr ⟨hdesired, by simpa using hremoved⟩] at hnot
          cases hnot
        have hsent : S.removeOne k s = { s with commands := s.commands ++ [.remove k] } := by
          rw [h.removeOne_eq htell (hks k List.mem_cons_self), hremoved,
            send_of_not_removed hremoved]
          rfl
        rw [List.filter_cons_of_pos (stuck_iff.mpr ⟨hdesired, hremoved⟩), hsent]
        obtain ⟨hcontacts, hcache, hleft⟩ := ih (h.of_commands _) budget htail hnonetail
        refine ⟨hcontacts, hcache, hleft.trans ?_⟩
        rw [List.length_cons]
        omega

/-! #### The additions of a pass -/

omit [DecidableEq P] in
theorem todo_note_lt (hk : k ∈ S.desired) (hnot : k ∉ s.radioContacts) :
    S.todo (s.note k) < S.todo s := by
  have hremovable : (s.radioContacts ++ [k]).filter S.removable =
      s.radioContacts.filter S.removable := by
    rw [List.filter_append]
    simp [removable, hk]
  have hmissing : (S.desired.filter (fun k' => decide (k' ∉ s.radioContacts ++ [k]))).length <
      (S.desired.filter (fun k' => decide (k' ∉ s.radioContacts))).length := by
    have hsplit : S.desired.filter (fun k' => decide (k' ∉ s.radioContacts ++ [k])) =
        (S.desired.filter (fun k' => decide (k' ∉ s.radioContacts))).filter (· ≠ k) := by
      rw [List.filter_filter]
      refine List.filter_congr (fun k' _ => ?_)
      simp [and_comm]
    rw [hsplit]
    refine List.length_filter_lt_length_iff_exists.mpr
      ⟨k, List.mem_filter.mpr ⟨hk, by simpa using hnot⟩, ?_⟩
    simp
  show (List.filter _ _).length + _ < _
  rw [show (s.note k).radioContacts = s.radioContacts ++ [k] from rfl, hremovable]
  exact Nat.add_lt_add_left hmissing _

/-- How the additions of a pass deal with the next contact. -/
inductive AddCase (s : Reconcile K) (k : K) (ks : List K) (budget : ℕ)
    (r : Reconcile K × Bool) : Prop
  /-- it is on the radio -/
  | there (hmem : k ∈ s.radioContacts) (hr : r = S.addPhase ks (budget + 1) s)
  /-- the library has it -/
  | cached (hmem : k ∉ s.radioContacts) (hcache : k ∈ s.cache)
      (hr : r = S.addPhase ks (budget + 1) (s.note k))
  | loads (hmem : k ∉ s.radioContacts) (hcache : k ∉ s.cache) (hok : S.answer (.add k) = .ok)
      (hr : r = S.addPhase ks budget ((s.send S (.add k)).note k))
  | full (hhard : S.hard s k = true) (hfull : S.answer (.add k) = .tableFull)
      (hr : r = ({ s with commands := s.commands ++ [.add k] }, true))
  | refused (hhard : S.hard s k = true) (hfull : S.answer (.add k) ≠ .tableFull)
      (hr : r = S.addPhase ks budget { s with commands := s.commands ++ [.add k] })

theorem Along.addCase (h : S.Along s₀ s) (htell : S.TellsApart s₀)
    (hk : k ∈ S.desired) (ks : List K) (budget : ℕ) :
    AddCase (S := S) s k ks budget (S.addPhase (k :: ks) (budget + 1) s) := by
  rw [Setup.addPhase]
  split_ifs with hmem hfind
  · exact .there hmem rfl
  · refine .cached hmem ?_ rfl
    rw [h.find htell (Or.inr hk)] at hfind
    by_contra hcache
    rw [if_neg hcache] at hfind
    cases hfind
  · have hcache : k ∉ s.cache := by
      intro hcache
      rw [h.find htell (Or.inr hk), if_pos hcache] at hfind
      exact hfind rfl
    have hhard : S.answer (.add k) ≠ .ok → S.hard s k = true := by
      intro hnot
      unfold hard
      simp [hmem, hcache, hnot]
    split
    case h_1 hok => exact .loads hmem hcache hok rfl
    case h_2 hfull =>
      have hnot : S.answer (.add k) ≠ .ok := by
        rw [hfull]
        decide
      exact .full (hhard hnot) hfull (by rw [send_refused hnot])
    case h_3 hok hfull =>
      exact .refused (hhard hok) hfull (by rw [send_refused hok])

omit [DecidableEq P] in
theorem Along.loads (h : S.Along s₀ s) (hk : k ∈ S.desired)
    (hcache : k ∉ s.cache) (hok : S.answer (.add k) = .ok) :
    S.Along s₀ ((s.send S (.add k)).note k) :=
  (h.adds hk hcache).note hk (Or.inr hok) (Or.inl (mem_send_add.mpr (Or.inr ⟨hok, rfl⟩)))

omit [DecidableEq P] in
theorem Along.noteCached (h : S.Along s₀ s) (hk : k ∈ S.desired)
    (hmem : k ∉ s.radioContacts) (hcache : k ∈ s.cache) : S.Along s₀ (s.note k) :=
  h.note hk (Or.inl hcache) (Or.inr ⟨h.cached k hcache, fun hthere => hmem (h.there k hk hthere)⟩)

theorem Along.addPhase (h : S.Along s₀ s) (htell : S.TellsApart s₀) (budget : ℕ) (hks : ∀ k ∈ ks, k ∈ S.desired) :
    S.Along s₀ (S.addPhase ks budget s).1 ∧ S.todo (S.addPhase ks budget s).1 ≤ S.todo s := by
  induction ks generalizing budget s with
  | nil => exact ⟨h, Nat.le_refl _⟩
  | cons k ks ih =>
    have htail : ∀ k' ∈ ks, k' ∈ S.desired := fun k' hk' => hks k' (List.mem_cons_of_mem _ hk')
    have hk := hks k List.mem_cons_self
    cases budget with
    | zero => exact ⟨h, Nat.le_refl _⟩
    | succ budget =>
      cases h.addCase htell hk ks budget with
      | there hmem hr =>
        rw [hr]
        exact ih h (budget + 1) htail
      | cached hmem hcache hr =>
        rw [hr]
        obtain ⟨halong, htodo⟩ := ih (h.noteCached hk hmem hcache) (budget + 1) htail
        exact ⟨halong, Nat.le_trans htodo (Nat.le_of_lt (todo_note_lt hk hmem))⟩
      | loads hmem hcache hok hr =>
        rw [hr]
        obtain ⟨halong, htodo⟩ := ih (h.loads hk hcache hok) budget htail
        have hless : S.todo ((s.send S (.add k)).note k) < S.todo s := todo_note_lt hk hmem
        exact ⟨halong, Nat.le_trans htodo (Nat.le_of_lt hless)⟩
      | full hhard hfull hr =>
        rw [hr]
        exact ⟨h.of_commands _, Nat.le_refl _⟩
      | refused hhard hfull hr =>
        rw [hr]
        exact ih (h.of_commands _) budget htail

omit [DecidableEq K] [DecidableEq P] in
/-- The contacts that are tried in vain before the table-full answer, for one more contact. -/
theorem blocking_cons_of_full (ks : List K) (h : S.answer (.add k) = .tableFull) :
    S.blocking (k :: ks) = [] := by
  unfold blocking
  rw [List.takeWhile_cons_of_neg (by simpa using h)]

omit [DecidableEq K] [DecidableEq P] in
theorem blocking_cons_of_refused (ks : List K) (h : S.answer (.add k) ≠ .tableFull) :
    (S.blocking (k :: ks)).length = (S.blocking ks).length + 1 := by
  unfold blocking
  rw [List.takeWhile_cons_of_pos (by simpa using h), List.length_cons]

omit [DecidableEq P] in
theorem hard_of_mem (h : k ∈ s.radioContacts ∨ k ∈ s.cache ∨
    S.answer (.add k) = .ok) : ¬ S.hard s k = true := by
  unfold hard
  rcases h with h | h | h <;> simp [h]

/-- A pass gets to a table-full answer only if the contacts before it leave it the budget. -/
theorem addPhase_full (h : S.Along s₀ s) (htell : S.TellsApart s₀) (hks : ∀ k ∈ ks, k ∈ S.desired)
    (hfull : (S.addPhase ks budget s).2 = true) :
    (∃ k ∈ ks.filter (S.hard s), S.answer (.add k) = .tableFull) ∧
      (S.blocking (ks.filter (S.hard s))).length < budget := by
  induction ks generalizing budget s with
  | nil => cases hfull
  | cons k ks ih =>
    have htail : ∀ k' ∈ ks, k' ∈ S.desired := fun k' hk' => hks k' (List.mem_cons_of_mem _ hk')
    have hk := hks k List.mem_cons_self
    cases budget with
    | zero => cases hfull
    | succ budget =>
      cases h.addCase htell hk ks budget with
      | there hmem hr =>
        rw [hr] at hfull
        rw [List.filter_cons_of_neg (hard_of_mem (Or.inl hmem))]
        exact ih h htail hfull
      | cached hmem hcache hr =>
        rw [hr] at hfull
        have hlater := ih (h.noteCached hk hmem hcache) htail hfull
        rw [hard_note (Or.inl hcache)] at hlater
        rw [List.filter_cons_of_neg (hard_of_mem (Or.inr (Or.inl hcache)))]
        exact hlater
      | loads hmem hcache hok hr =>
        rw [hr] at hfull
        have hlater := ih (h.loads hk hcache hok) htail hfull
        rw [hard_note (s := s.send S (.add k)) (Or.inr hok)] at hlater
        rw [List.filter_cons_of_neg (hard_of_mem (Or.inr (Or.inr hok)))]
        exact ⟨hlater.1, Nat.lt_succ_of_lt hlater.2⟩
      | full hhard hanswer hr =>
        rw [List.filter_cons_of_pos hhard]
        exact ⟨⟨k, List.mem_cons_self, hanswer⟩,
          by rw [blocking_cons_of_full _ hanswer]; exact Nat.succ_pos _⟩
      | refused hhard hanswer hr =>
        rw [hr] at hfull
        obtain ⟨⟨k', hk', hanswer'⟩, hless⟩ := ih (h.of_commands _) htail hfull
        rw [List.filter_cons_of_pos hhard]
        refine ⟨⟨k', List.mem_cons_of_mem _ hk', hanswer'⟩, ?_⟩
        rw [blocking_cons_of_refused _ hanswer]
        exact Nat.succ_lt_succ hless

/-- **What is left of the budget loads something** or gets to the table-full answer, if there is
something to be loaded or such an answer to be had. -/
theorem addPhase_progress (h : S.Along s₀ s) (htell : S.TellsApart s₀) (hks : ∀ k ∈ ks, k ∈ S.desired)
    (hbudget : (S.blocking (ks.filter (S.hard s))).length < budget)
    (hsome : ∃ k ∈ ks, k ∉ s.radioContacts ∧ (k ∈ s.cache ∨ S.answer (.add k) = .ok ∨
      S.answer (.add k) = .tableFull)) :
    (S.addPhase ks budget s).2 = true ∨ S.todo (S.addPhase ks budget s).1 < S.todo s := by
  induction ks generalizing budget s with
  | nil => simp at hsome
  | cons k ks ih =>
    have htail : ∀ k' ∈ ks, k' ∈ S.desired := fun k' hk' => hks k' (List.mem_cons_of_mem _ hk')
    have hk := hks k List.mem_cons_self
    cases budget with
    | zero => omega
    | succ budget =>
      cases h.addCase htell hk ks budget with
      | there hmem hr =>
        rw [hr]
        rw [List.filter_cons_of_neg (hard_of_mem (Or.inl hmem))] at hbudget
        refine ih h htail hbudget ?_
        obtain ⟨k', hk', hnot, hgood⟩ := hsome
        rcases List.mem_cons.mp hk' with rfl | hk'
        · exact absurd hmem hnot
        · exact ⟨k', hk', hnot, hgood⟩
      | cached hmem hcache hr =>
        rw [hr]
        have hlater := ((h.noteCached hk hmem hcache).addPhase htell (budget + 1) htail).2
        exact Or.inr (Nat.lt_of_le_of_lt hlater (todo_note_lt hk hmem))
      | loads hmem hcache hok hr =>
        rw [hr]
        have hlater := ((h.loads hk hcache hok).addPhase htell budget htail).2
        have hless : S.todo ((s.send S (.add k)).note k) < S.todo s := todo_note_lt hk hmem
        exact Or.inr (Nat.lt_of_le_of_lt hlater hless)
      | full hhard hanswer hr =>
        rw [hr]
        exact Or.inl rfl
      | refused hhard hanswer hr =>
        rw [hr]
        rw [List.filter_cons_of_pos hhard, blocking_cons_of_refused _ hanswer] at hbudget
        refine ih (h.of_commands _) htail (Nat.lt_of_succ_lt_succ hbudget) ?_
        obtain ⟨k', hk', hnot, hgood⟩ := hsome
        rcases List.mem_cons.mp hk' with rfl | hk'
        · have hnothard : ¬ S.hard s k' = true := by
            rcases hgood with hcache | hok | hfull
            · exact hard_of_mem (Or.inr (Or.inl hcache))
            · exact hard_of_mem (Or.inr (Or.inr hok))
            · exact absurd hfull hanswer
          exact absurd hhard hnothard
        · exact ⟨k', hk', hnot, hgood⟩

end Setup

end RtfmEv.RadioSync
