import RtfmEv.Lib.Bytes
import RtfmEv.Lib.Lists

/-!
# Frames from the app (`app/companion_bridge/frames.py`)

A `FrameReader` collects frames from a byte stream: a marker, a length of two bytes and the
payload. `Framed` says what the frames of a stream are, without a buffer. The reader gives them
however the stream is cut into chunks.
-/

namespace RtfmEv.CompanionBridge

open RtfmEv.Lib

def maxFrameSize : ℕ := 176

/-- `'<'` -/
def appToRadio : UInt8 := 0x3C

/-! ### The reader -/

/-- What one pass of the loop does with the buffer. -/
inductive Cut
  | stop (buf : Bytes)
  | skip (buf : Bytes)
  | frame (payload buf : Bytes)
deriving DecidableEq, Repr

/-- One pass of the loop: to the marker, and then the frame behind it if all of it is there. -/
def cutOnce (buf : Bytes) : Cut :=
  match buf.dropWhile (· ≠ appToRadio) with
  | marker :: low :: high :: rest =>
    if fromBytesLE [low, high] = 0 then .skip rest
    else if rest.length < fromBytesLE [low, high] then .stop (marker :: low :: high :: rest)
    else .frame ((rest.take (fromBytesLE [low, high])).take maxFrameSize)
      (rest.drop (fromBytesLE [low, high]))
  | short => .stop short

theorem length_dropWhile_le {α : Type*} (p : α → Bool) (s : List α) :
    (s.dropWhile p).length ≤ s.length := (List.dropWhile_sublist p).length_le

variable {rest buf : Bytes} {payload : Bytes} {s : Bytes} {frames : List Bytes} {t : Bytes}

theorem length_of_cutOnce (h : cutOnce buf = .skip rest ∨ cutOnce buf = .frame payload rest) :
    rest.length < buf.length := by
  have hle := length_dropWhile_le (fun b => decide (b ≠ appToRadio)) buf
  unfold cutOnce at h
  split at h
  · rename_i marker low high tail heq
    rw [heq, List.length_cons, List.length_cons, List.length_cons] at hle
    split_ifs at h <;> rcases h with h | h <;> cases h
    · omega
    · rw [List.length_drop]
      omega
  · rcases h with h | h <;> cases h

/-- The loop of `feed`: the frames in a buffer, and the buffer that is left. -/
def cutFrames (buf : Bytes) : List Bytes × Bytes :=
  match h : cutOnce buf with
  | .stop rest => ([], rest)
  | .skip rest => cutFrames rest
  | .frame payload rest => (payload :: (cutFrames rest).1, (cutFrames rest).2)
termination_by buf.length
decreasing_by
  · exact @length_of_cutOnce _ _ [] (Or.inl h)
  · exact length_of_cutOnce (Or.inr h)

/-- `feed` on a buffer: the frames, and the buffer after it. -/
def feed (buf data : Bytes) : List Bytes × Bytes := cutFrames (buf ++ data)

theorem cutFrames_eq (buf : Bytes) : cutFrames buf = match cutOnce buf with
    | .stop rest => ([], rest)
    | .skip rest => cutFrames rest
    | .frame payload rest => (payload :: (cutFrames rest).1, (cutFrames rest).2) := by
  rw [cutFrames]
  split <;> simp [*]

theorem cutFrames_stop (h : cutOnce buf = .stop rest) :
    cutFrames buf = ([], rest) := by
  rw [cutFrames_eq, h]

theorem cutFrames_skip (h : cutOnce buf = .skip rest) :
    cutFrames buf = cutFrames rest := by
  rw [cutFrames_eq, h]

theorem cutFrames_frame (h : cutOnce buf = .frame payload rest) :
    cutFrames buf = (payload :: (cutFrames rest).1, (cutFrames rest).2) := by
  rw [cutFrames_eq, h]

/-! ### The frames of a stream -/

/-- A stream ends inside a frame: it is empty, or begins with a marker that less than three bytes
or less than the announced payload follow. -/
inductive Unfinished : Bytes → Prop
  | nil : Unfinished []
  | marker : Unfinished [appToRadio]
  | low (l : UInt8) : Unfinished [appToRadio, l]
  | payload (l h : UInt8) (part : Bytes) : part.length < fromBytesLE [l, h] →
      Unfinished (appToRadio :: l :: h :: part)

/-- The frames of a stream, and the unfinished frame at its end: what is no marker is skipped,
empty frames are dropped, and a payload is cut to the largest size. -/
inductive Framed : Bytes → List Bytes → Bytes → Prop
  | done {s : Bytes} : Unfinished s → Framed s [] s
  | garbage {b : UInt8} {s t : Bytes} {frames : List Bytes} : b ≠ appToRadio →
      Framed s frames t → Framed (b :: s) frames t
  | empty {l h : UInt8} {s t : Bytes} {frames : List Bytes} : fromBytesLE [l, h] = 0 →
      Framed s frames t → Framed (appToRadio :: l :: h :: s) frames t
  | frame {l h : UInt8} {payload s t : Bytes} {frames : List Bytes} : payload ≠ [] →
      payload.length = fromBytesLE [l, h] → Framed s frames t →
      Framed (appToRadio :: l :: h :: (payload ++ s)) (payload.take maxFrameSize :: frames) t

/-! ### One pass of the loop -/

theorem cutOnce_garbage {b : UInt8} (hb : b ≠ appToRadio) (s : Bytes) :
    cutOnce (b :: s) = cutOnce s := by
  unfold cutOnce
  rw [List.dropWhile_cons, if_pos (decide_eq_true hb)]

theorem dropWhile_marker (s : Bytes) :
    (appToRadio :: s).dropWhile (· ≠ appToRadio) = appToRadio :: s := by
  rw [List.dropWhile_cons, if_neg (by decide)]

theorem cutOnce_unfinished (h : Unfinished s) : cutOnce s = .stop s := by
  cases h with
  | nil => rfl
  | marker => rfl
  | low l => rfl
  | payload l h part hlen =>
    unfold cutOnce
    rw [dropWhile_marker]
    show (if fromBytesLE [l, h] = 0 then _ else _) = _
    rw [if_neg (by omega), if_pos hlen]

theorem cutOnce_empty {l h : UInt8} (hzero : fromBytesLE [l, h] = 0) (s : Bytes) :
    cutOnce (appToRadio :: l :: h :: s) = .skip s := by
  unfold cutOnce
  rw [dropWhile_marker]
  exact if_pos hzero

theorem cutOnce_frame {l h : UInt8} (hne : payload ≠ [])
    (hlen : payload.length = fromBytesLE [l, h]) (s : Bytes) :
    cutOnce (appToRadio :: l :: h :: (payload ++ s)) = .frame (payload.take maxFrameSize) s := by
  have hpos := List.length_pos_of_ne_nil hne
  unfold cutOnce
  rw [dropWhile_marker]
  show (if fromBytesLE [l, h] = 0 then _ else _) = _
  rw [if_neg (by omega), if_neg (by rw [List.length_append]; omega), ← hlen, List.take_left,
    List.drop_left]

/-- A stream is unfinished, or its first byte is garbage, or it begins with a frame. -/
theorem stream_cases (s : Bytes) :
    Unfinished s ∨ (∃ b t, b ≠ appToRadio ∧ s = b :: t) ∨
      (∃ l h t, fromBytesLE [l, h] = 0 ∧ s = appToRadio :: l :: h :: t) ∨
      ∃ l h payload t, payload ≠ [] ∧ payload.length = fromBytesLE [l, h] ∧
        s = appToRadio :: l :: h :: (payload ++ t) := by
  rcases s with _ | ⟨b, s⟩
  · exact .inl .nil
  · by_cases hb : b = appToRadio
    · subst hb
      rcases s with _ | ⟨l, _ | ⟨h, s⟩⟩
      · exact .inl .marker
      · exact .inl (.low l)
      · by_cases hzero : fromBytesLE [l, h] = 0
        · exact .inr (.inr (.inl ⟨l, h, s, hzero, rfl⟩))
        · by_cases hlen : s.length < fromBytesLE [l, h]
          · exact .inl (.payload l h s hlen)
          · refine .inr (.inr (.inr ⟨l, h, s.take (fromBytesLE [l, h]),
              s.drop (fromBytesLE [l, h]), ?_, ?_, ?_⟩))
            · apply List.ne_nil_of_length_pos
              rw [List.length_take]
              omega
            · rw [List.length_take]
              omega
            · rw [List.take_append_drop]
    · exact .inr (.inl ⟨b, s, hb, rfl⟩)

/-! ### The reader gives the frames of the stream -/

theorem cutFrames_of_framed (h : Framed s frames t) :
    cutFrames s = (frames, t) := by
  induction h with
  | done hrest => exact cutFrames_stop (cutOnce_unfinished hrest)
  | @garbage b s t frames hb _ ih =>
    rw [← ih]
    have hcut := cutOnce_garbage hb s
    cases hs : cutOnce s with
    | stop rest => rw [cutFrames_stop hs, cutFrames_stop (hcut.trans hs)]
    | skip rest => rw [cutFrames_skip hs, cutFrames_skip (hcut.trans hs)]
    | frame payload rest => rw [cutFrames_frame hs, cutFrames_frame (hcut.trans hs)]
  | empty hzero _ ih => rw [cutFrames_skip (cutOnce_empty hzero _), ih]
  | frame hne hlen _ ih => rw [cutFrames_frame (cutOnce_frame hne hlen _), ih]

theorem exists_framed (n : ℕ) : ∀ s : Bytes, s.length ≤ n → ∃ frames t, Framed s frames t := by
  induction n with
  | zero =>
    intro s hs
    rw [List.length_eq_zero_iff.mp (Nat.le_zero.mp hs)]
    exact ⟨[], [], .done .nil⟩
  | succ n ih =>
    intro s hs
    rcases stream_cases s with hrest | ⟨b, t, hb, rfl⟩ | ⟨l, h, t, hzero, rfl⟩ |
      ⟨l, h, payload, t, hne, hlen, rfl⟩
    · exact ⟨[], s, .done hrest⟩
    · obtain ⟨frames, u, hf⟩ := ih t (by rw [List.length_cons] at hs; omega)
      exact ⟨frames, u, .garbage hb hf⟩
    · obtain ⟨frames, u, hf⟩ := ih t (by simp only [List.length_cons] at hs; omega)
      exact ⟨frames, u, .empty hzero hf⟩
    · obtain ⟨frames, u, hf⟩ := ih t
        (by simp only [List.length_cons, List.length_append] at hs; omega)
      exact ⟨_, u, .frame hne hlen hf⟩

theorem framed_cutFrames (s : Bytes) : Framed s (cutFrames s).1 (cutFrames s).2 := by
  obtain ⟨frames, t, h⟩ := exists_framed s.length s (Nat.le_refl _)
  rw [cutFrames_of_framed h]
  exact h

/-- What is left of a stream is where its continuation is read on from. -/
theorem Framed.append (h : Framed s frames t)
    {more u : Bytes} {others : List Bytes} (hmore : Framed (t ++ more) others u) :
    Framed (s ++ more) (frames ++ others) u := by
  induction h with
  | done _ => exact hmore
  | garbage hb _ ih => exact .garbage hb (ih hmore)
  | empty hzero _ ih => exact .empty hzero (ih hmore)
  | @frame l h payload s t frames hne hlen _ ih =>
    have hframe := Framed.frame hne hlen (ih hmore)
    rw [← List.append_assoc] at hframe
    exact hframe

theorem resumable_cutFrames : Resumable cutFrames := by
  intro s more
  have hall := (framed_cutFrames s).append (framed_cutFrames ((cutFrames s).2 ++ more))
  exact cutFrames_of_framed hall

theorem Framed.unfinished (h : Framed s frames t) :
    Unfinished t := by
  induction h with
  | done hrest => exact hrest
  | garbage _ _ ih => exact ih
  | empty _ _ ih => exact ih
  | frame _ _ _ ih => exact ih

theorem Framed.ne_nil (h : Framed s frames t) :
    ∀ f ∈ frames, f ≠ [] := by
  induction h with
  | done _ =>
    intro f hf
    cases hf
  | garbage _ _ ih => exact ih
  | empty _ _ ih => exact ih
  | @frame l h payload s t frames hne _ _ ih =>
    intro f hf
    rcases List.mem_cons.mp hf with rfl | hf
    · have hpos := List.length_pos_of_ne_nil hne
      apply List.ne_nil_of_length_pos
      rw [List.length_take, maxFrameSize]
      omega
    · exact ih f hf

/-- The longest unfinished frame lacks one byte of the longest payload. -/
theorem Unfinished.length_le (h : Unfinished s) : s.length ≤ 65537 := by
  cases h with
  | nil => decide
  | marker => decide
  | low l => show 2 ≤ 65537; omega
  | payload l h part hlen =>
    have hlt := fromBytesLE_lt [l, h]
    have hpow : 256 ^ [l, h].length = 65536 := by
      rw [List.length_cons, List.length_singleton]
      norm_num
    simp only [List.length_cons]
    omega

theorem Unfinished.head (h : Unfinished s) : s = [] ∨ ∃ t, s = appToRadio :: t := by
  cases h with
  | nil => exact .inl rfl
  | marker => exact .inr ⟨_, rfl⟩
  | low l => exact .inr ⟨_, rfl⟩
  | payload l h part _ => exact .inr ⟨_, rfl⟩

/-- **The reader is chunking invariant.** Fed in any chunks, it gives the frames of the whole
stream, which are those of the framing, and none of them is empty. What it keeps is the
unfinished frame at the end, which is empty or begins with a marker and is bounded. -/
theorem feed_chunks (chunks : List Bytes) :
    readChunks cutFrames [] chunks = feed [] chunks.flatten ∧
      (∀ frames rest, Framed chunks.flatten frames rest ↔
        readChunks cutFrames [] chunks = (frames, rest)) ∧
      (∀ f ∈ (readChunks cutFrames [] chunks).1, f ≠ []) ∧
      (readChunks cutFrames [] chunks).2.length ≤ 65537 ∧
      ((readChunks cutFrames [] chunks).2 = [] ∨
        ∃ t, (readChunks cutFrames [] chunks).2 = appToRadio :: t) := by
  have hnil : cutFrames [] = ([], []) := cutFrames_stop rfl
  have hall := readChunks_flatten resumable_cutFrames hnil chunks
  have hframed := framed_cutFrames chunks.flatten
  rw [hall]
  refine ⟨rfl, ?_, hframed.ne_nil, hframed.unfinished.length_le, hframed.unfinished.head⟩
  intro frames rest
  constructor
  · exact cutFrames_of_framed
  · intro h
    rw [h] at hframed
    exact hframed

end RtfmEv.CompanionBridge
