import RtfmEv.Lib.Bytes
import RtfmEv.Lib.OrderedDict
import RtfmEv.WardriveRadio.Companion

/-!
# The zero-hop route of a directed ask

Auto-discover asks only nodes that it hears directly. For the one ask it sets the contact's
route to zero hops and then puts the contact back as it was. Before the override the original
frame is stored in the browser under the keys of the companion and of the contact. It goes when
the restore is acknowledged, and the next connection to the same companion replays what is left.

Contact reads and writes carry no number, so a page makes one exchange at a time. Several pages
share the browser store, each companion is connected to one of them at most.
-/

namespace RtfmEv.Discover

open RtfmEv.Lib RtfmEv.WardriveRadio

def cmdAddUpdateContact : UInt8 := 9
/-- Where `out_path_len` is in a contact frame. -/
def outPathLenAt : ℕ := 35

/-- A public key, in its normal form. -/
abbrev Key := Bytes

/-! ### Contact frames -/

/-- A contact of a companion, as the frame that a read of it answers with. -/
structure Contact where
  raw : Frame
  length : raw.length = contactFrameLen
  head : raw.code = some respContact

theorem Contact.ext {c d : Contact} (h : c.raw = d.raw) : c = d := by
  cases c
  cases d
  cases h
  rfl

/-- `out_path_len` of a contact frame. -/
def outPathLen (raw : Frame) : UInt8 := raw.getD outPathLenAt 0

def buildOverrideFrame (raw : Frame) : Frame := (raw.set 0 cmdAddUpdateContact).set outPathLenAt 0

def buildRestoreFrame (raw : Frame) : Frame := raw.set 0 cmdAddUpdateContact

/-- What the radio makes of a contact write: the fields of the frame, whose layout is that of
its answer to a read. -/
def written (frame : Frame) : Option Contact :=
  if h : frame.length = contactFrameLen then
    some ⟨frame.set 0 respContact, by rw [List.length_set, h], by
      cases frame with
      | nil => exact absurd h (by decide)
      | cons => rfl⟩
  else none

/-! ### The stored records -/

/-- An item of the browser's store: the JSON text of a record, or a text that is none. -/
inductive Stored
  | record (self target : Key) (raw : List Char)
  | broken
deriving DecidableEq

/-- The bytes of a hexadecimal text. -/
def decodeHex : List Char → Option Bytes
  | [] => some []
  | c :: d :: rest =>
    match hexValue c, hexValue d, decodeHex rest with
    | some high, some low, some bytes => some (UInt8.ofNat (16 * high + low) :: bytes)
    | _, _, _ => none
  | [_] => none

structure Rec where
  self : Key
  target : Key
  raw : Frame

def decodeRecord : Stored → Option Rec
  | .broken => none
  | .record self target raw =>
    if raw.length ≠ contactFrameLen * 2 then none
    else
      match decodeHex raw with
      | none => none
      | some raw => some ⟨self, target, raw⟩

/-- The item that a dance stores before it overrides. -/
def storedOf (self target : Key) (raw : Frame) : Stored := .record self target (toHex raw)

/-- The key of an item: the prefix is left out, and a pair of keys is as good as their text. -/
abbrev RestoreKey := Key × Key

abbrev Store := OrderedDict RestoreKey Stored

/-! ### Pages -/

/-- A call of `askAtZeroHop` or of `replayPendingRestores`. -/
inductive Job
  | ask (self target : Key) (askNonContact : Bool)
  | replay (self : Key)
deriving DecidableEq

def Job.self : Job → Key
  | .ask self _ _ => self
  | .replay self => self

/-- Where a call waits. A write is `applied` or not yet. An `ask` owes the restore of `raw`, or
nothing. -/
inductive Await
  | read (target : Key) (askNonContact : Bool)
  | ask (target : Key) (raw : Option Frame)
  | override (target : Key) (raw : Frame) (applied : Bool)
  | restore (target : Key) (raw : Frame) (applied : Bool)
  | replay (rest : List (RestoreKey × Stored)) (target : Key) (raw : Frame) (applied : Bool)

/-- A page: the calls that wait for the link, and the one that has it. -/
structure Page where
  linkTurn : List Job
  running : Option (Key × Await)

def Page.closed : Page := ⟨[], none⟩

/-- The companions that a page has a call for. -/
def Page.Uses (p : Page) (self : Key) : Prop :=
  (∃ job ∈ p.linkTurn, job.self = self) ∨ ∃ a, p.running = some (self, a)

structure State where
  pages : ℕ → Page
  localStorage : Store
  /-- The contacts that each companion has. -/
  contacts : Key → Key → Option Contact
  /-- The contacts as they came onto the companion. -/
  original : Key → Key → Option Contact
  /-- The contact that the last step's restore gave back. -/
  restored : Option (Key × Key)

/-- No page is open, no record is stored and no contact was touched. -/
def State.init (contacts : Key → Key → Option Contact) : State :=
  { pages := fun _ => Page.closed, localStorage := .empty, contacts := contacts
    original := contacts, restored := none }

def State.setPage (s : State) (n : ℕ) (p : Page) : State :=
  { s with pages := Function.update s.pages n p }

/-- The call of the page that has the link waits at `a`. -/
def State.await (s : State) (n : ℕ) (self : Key) (a : Await) : State :=
  s.setPage n { s.pages n with running := some (self, a) }

/-- The call of the page that has the link is over. -/
def State.done (s : State) (n : ℕ) : State :=
  s.setPage n { s.pages n with running := none }

def State.setContact (s : State) (self target : Key) (c : Contact) : State :=
  { s with contacts := Function.update s.contacts self
            (Function.update (s.contacts self) target (some c)) }

def State.setItem (s : State) (self target : Key) (raw : Frame) : State :=
  { s with localStorage := s.localStorage.set (self, target) (storedOf self target raw) }

def State.removeItem (s : State) (key : RestoreKey) : State :=
  { s with localStorage := s.localStorage.erase key }

/-- The radio applies the write of the frame. -/
def State.write (s : State) (self target : Key) (frame : Frame) : State :=
  match written frame with
  | none => s
  | some c => s.setContact self target c

/-! ### The calls -/

/-- `dance` with the contact read. `stored` says whether the record could be stored. -/
def State.dance (s : State) (n : ℕ) (self target : Key) (askNonContact stored : Bool) :
    Option Reading → State
  | some .notFound =>
    if askNonContact then s.await n self (.ask target none) else s.done n
  | some (.contact _ raw) =>
    if outPathLen raw = 0 then s.await n self (.ask target none)
    else if stored then
      (s.setItem self target raw).await n self (.override target raw false)
    else s.done n
  | _ => s.done n

/-- The loop of `replayPendingRestores`, up to its next write. -/
def State.replayNext (n : ℕ) (self : Key) : State → List (RestoreKey × Stored) → State
  | s, [] => s.done n
  | s, (key, value) :: rest =>
    match decodeRecord value with
    | none => State.replayNext n self (s.removeItem key) rest
    | some rec =>
      if rec.self ≠ self then State.replayNext n self s rest
      else s.await n self (.replay rest rec.target rec.raw false)

/-- A call gets the link. -/
def State.begin (s : State) (n : ℕ) : Job → State
  | .ask self target askNonContact => s.await n self (.read target askNonContact)
  | .replay self => s.replayNext n self s.localStorage.entries

/-- The end of a restore that was acknowledged. -/
def State.giveBack (s : State) (self target : Key) : State :=
  { s.removeItem (self, target) with restored := some (self, target) }

/-- The write that a call waits for is applied. -/
def State.applyWrite (s : State) (n : ℕ) (self : Key) : Await → Option State
  | .override target raw false =>
    some ((s.write self target (buildOverrideFrame raw)).await n self (.override target raw true))
  | .restore target raw false =>
    some ((s.write self target (buildRestoreFrame raw)).await n self (.restore target raw true))
  | .replay rest target raw false =>
    some ((s.write self target (buildRestoreFrame raw)).await n self
      (.replay rest target raw true))
  | _ => none

/-- The write that a call waits for comes back with a result, which is true only of a write that
was applied. -/
def State.writeResult (s : State) (n : ℕ) (self : Key) (acked : Bool) : Await → Option State
  | .override target raw applied =>
    if acked && !applied then none
    else if acked then some (s.await n self (.ask target (some raw)))
    else some (s.await n self (.restore target raw false))
  | .restore target _ applied =>
    if acked && !applied then none
    else if acked then some ((s.giveBack self target).done n)
    else some (s.done n)
  | .replay rest target _ applied =>
    if acked && !applied then none
    else if acked then some ((s.giveBack self target).replayNext n self rest)
    else some (s.replayNext n self rest)
  | _ => none

/-- The contact that is read, where an answer comes. -/
def State.readOf (s : State) (self target : Key) (answered : Bool) : Option Reading :=
  if answered then
    match s.contacts self target with
    | none => some .notFound
    | some c => acceptContact target c.raw false
  else none

/-! ### Runs -/

/-- What can happen. The pages have numbers. -/
inductive Label
  | call (n : ℕ) (job : Job)
  | begin (n : ℕ)
  | readResult (n : ℕ) (answered stored : Bool)
  | applyWrite (n : ℕ)
  | writeResult (n : ℕ) (acked : Bool)
  /-- The radio adds the node that an anonymous request goes to, without a route. -/
  | addContact (n : ℕ) (c : Contact)
  | askDone (n : ℕ)
  | close (n : ℕ)

/-- One step. A companion is connected to one page at a time, and a page that closes leaves its
calls where they are. -/
inductive Step (s : State) : Label → State → Prop
  | call (n : ℕ) (job : Job) (h : ∀ m, m ≠ n → ¬ (s.pages m).Uses job.self) :
      Step s (.call n job)
        ({ s with restored := none }.setPage n
          { s.pages n with linkTurn := (s.pages n).linkTurn ++ [job] })
  | begin (n : ℕ) (job : Job) (rest : List Job) (hidle : (s.pages n).running = none)
      (hturn : (s.pages n).linkTurn = job :: rest) :
      Step s (.begin n)
        (({ s with restored := none }.setPage n { s.pages n with linkTurn := rest }).begin n job)
  | readResult (n : ℕ) (self target : Key) (askNonContact answered stored : Bool)
      (h : (s.pages n).running = some (self, .read target askNonContact)) :
      Step s (.readResult n answered stored)
        ({ s with restored := none }.dance n self target askNonContact stored
          (s.readOf self target answered))
  | applyWrite (n : ℕ) (self : Key) (a : Await) (t : State)
      (h : (s.pages n).running = some (self, a))
      (ht : { s with restored := none }.applyWrite n self a = some t) : Step s (.applyWrite n) t
  | writeResult (n : ℕ) (self : Key) (a : Await) (acked : Bool) (t : State)
      (h : (s.pages n).running = some (self, a))
      (ht : { s with restored := none }.writeResult n self acked a = some t) :
      Step s (.writeResult n acked) t
  | addContact (n : ℕ) (self target : Key) (c : Contact)
      (h : (s.pages n).running = some (self, .ask target none))
      (hnone : s.contacts self target = none) (hroute : outPathLen c.raw = 0) :
      Step s (.addContact n c)
        { s.setContact self target c with
          original := Function.update s.original self
            (Function.update (s.original self) target (some c))
          restored := none }
  | askDone (n : ℕ) (self target : Key) (raw : Option Frame)
      (h : (s.pages n).running = some (self, .ask target raw)) :
      Step s (.askDone n)
        (match raw with
        | none => { s with restored := none }.done n
        | some raw => { s with restored := none }.await n self (.restore target raw false))
  | close (n : ℕ) : Step s (.close n) ({ s with restored := none }.setPage n Page.closed)

end RtfmEv.Discover
