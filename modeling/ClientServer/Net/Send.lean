import ClientServer.LTS.Run
import Mathlib.Data.List.Basic
import Mathlib.Data.List.Nodup
import Mathlib.Data.List.Range

/-!
# The write side of a session

`TcpSession::Send` posts a handler with a copy of the buffer, which calls `Write`, and `Write` starts
an `async_write` of the whole buffer, whether or not an earlier one is still under way.  The socket
takes some bytes at once.  Then the handler is destroyed, and its copy with it; whenever the socket
takes more of a write, they are read from where the copy was, whatever stands there by then.

Every byte on the wire is numbered with the place in the stream of all sent buffers that it is sent
for, so that equal bytes of different frames are told apart.

* `write_not_inOrder` : a second write can start inside a frame, and bytes can be others than were
  sent.
* `wire_inOrder_iff` : **exactly when the wire carries the sent buffers in order**: no write
  transfers anything before the older ones are done, and what is read from freed memory still stands
  there.
-/

namespace ClientServer

/-- A byte with the place in the stream of all sent buffers that it is sent for. -/
abbrev WireByte := UInt8 × ℕ

/-- The write side of a `TcpSession`. -/
structure WriteSide where
  /-- The buffers given to `Send` so far. -/
  sent : List (List UInt8)
  /-- The buffers of the posted handlers, the next to run first. -/
  posted : List (List WireByte)
  /-- What each started `async_write` has left, in the order of the calls of `Write`: the bytes are
  those that its buffer had before it was freed. -/
  writes : List (List WireByte)
  /-- The bytes transferred. -/
  wire : List WireByte
  deriving DecidableEq

/-- What can happen on the write side. -/
inductive WriteAction
  /-- `Send(buf)` is called. -/
  | send (buf : List UInt8)
  /-- The next posted handler runs: `Write`.  Before it returns, `n` bytes are transferred. -/
  | write (n : ℕ)
  /-- The `i`-th write transfers these bytes, which stand where its buffer was. -/
  | transfer (i : ℕ) (memory : List UInt8)

namespace WriteSide

/-- A session before its first `Send`. -/
def fresh : WriteSide := ⟨[], [], [], []⟩

/-- The stream of all sent buffers. -/
def stream (s : WriteSide) : List WireByte := s.sent.flatten.zipIdx

/-- One step of the write side. -/
def next (s : WriteSide) : WriteAction → Option WriteSide
  | .send buf =>
    some { s with
      sent := s.sent ++ [buf]
      posted := s.posted ++ [buf.zipIdx s.sent.flatten.length] }
  | .write n =>
    match s.posted with
    | [] => none
    | buf :: posted =>
      if n ≤ buf.length then
        some { s with
          posted := posted
          writes := s.writes ++ [buf.drop n]
          wire := s.wire ++ buf.take n }
      else none
  | .transfer i memory =>
    match s.writes[i]? with
    | none => none
    | some left =>
      if memory ≠ [] ∧ memory.length ≤ left.length then
        some { s with
          writes := s.writes.set i (left.drop memory.length)
          wire := s.wire ++ memory.zip (left.map Prod.snd) }
      else none

/-- The steps of the write side. -/
def system : LTS WriteSide WriteAction := .ofNext next

/-- Nothing is left to write. -/
def Drained (s : WriteSide) : Prop := s.posted = [] ∧ ∀ left ∈ s.writes, left = []

/-- The wire carries the sent buffers, whole and in the order of the `Send` calls. -/
def InOrder (s : WriteSide) : Prop :=
  s.wire <+: s.stream ∧ (s.Drained → s.wire = s.stream)

/-- The condition on a step: the older writes are done when bytes are transferred, and what is read
of a freed buffer still stands there. -/
def Sound (s : WriteSide) : WriteAction → Prop
  | .send _ => True
  | .write n => n = 0 ∨ ∀ left ∈ s.writes, left = []
  | .transfer i memory => (∀ left ∈ s.writes.take i, left = []) ∧
    memory <+: (s.writes[i]?.getD []).map Prod.fst

instance (s : WriteSide) : DecidablePred s.Sound
  | .send _ => .isTrue trivial
  | .write n => inferInstanceAs (Decidable (n = 0 ∨ ∀ left ∈ s.writes, left = []))
  | .transfer i memory => inferInstanceAs (Decidable ((∀ left ∈ s.writes.take i, left = []) ∧
      memory <+: (s.writes[i]?.getD []).map Prod.fst))

/-- The invariant: wire, started writes and posted buffers make up the stream. -/
def Queued (s : WriteSide) : Prop :=
  s.wire ++ s.writes.flatten ++ s.posted.flatten = s.stream

variable {s s' : WriteSide}

theorem Queued.inOrder (h : s.Queued) : s.InOrder := by
  refine ⟨⟨s.writes.flatten ++ s.posted.flatten, ?_⟩, fun ⟨hposted, hwrites⟩ => ?_⟩
  · rw [← List.append_assoc, h]
  · have hflat : s.writes.flatten = [] := List.flatten_eq_nil_iff.2 hwrites
    rw [← h, hposted, hflat, List.flatten_nil, List.append_nil, List.append_nil]

theorem places_nodup (s : WriteSide) : (s.stream.map Prod.snd).Nodup := by
  rw [stream, List.zipIdx_map_snd]
  exact List.nodup_range'

/-! ### What the steps do -/

theorem write_cases {n : ℕ} (h : s.next (.write n) = some s') :
    ∃ buf posted, s.posted = buf :: posted ∧ n ≤ buf.length ∧
      s' = { s with posted := posted, writes := s.writes ++ [buf.drop n],
                    wire := s.wire ++ buf.take n } := by
  simp only [next] at h
  cases hposted : s.posted with
  | nil => simp [hposted] at h
  | cons buf posted =>
    simp only [hposted, Option.ite_none_right_eq_some, Option.some.injEq] at h
    exact ⟨buf, posted, rfl, h.1, h.2.symm⟩

/-- The `i`-th write has `left` to go, and as many places of it go out as there are bytes. -/
theorem transfer_cases {i : ℕ} {memory : List UInt8} (h : s.next (.transfer i memory) = some s') :
    ∃ older left newer, s.writes = older ++ left :: newer ∧ s.writes.take i = older ∧
      s.writes[i]? = some left ∧ memory ≠ [] ∧ memory.length ≤ left.length ∧
      s' = { s with writes := older ++ left.drop memory.length :: newer,
                    wire := s.wire ++ memory.zip (left.map Prod.snd) } := by
  simp only [next] at h
  cases hi : s.writes[i]? with
  | none => simp [hi] at h
  | some left =>
    obtain ⟨hlt, hget⟩ := List.getElem?_eq_some_iff.1 hi
    simp only [hi, Option.ite_none_right_eq_some, Option.some.injEq] at h
    obtain ⟨⟨hne, hle⟩, rfl⟩ := h
    refine ⟨s.writes.take i, left, s.writes.drop (i + 1), ?_, rfl, rfl, hne, hle, ?_⟩
    · rw [← hget, ← List.drop_eq_getElem_cons hlt, List.take_append_drop]
    · rw [List.set_eq_take_append_cons_drop, if_pos hlt]

theorem map_snd_zip_places {places : List ℕ} {memory : List UInt8}
    (hle : memory.length ≤ places.length) :
    (memory.zip places).map Prod.snd = places.take memory.length := by
  rw [List.zip_eq_zip_take_min, min_eq_left hle, List.take_length]
  exact List.map_snd_zip (List.length_take_le _ _)

/-- The bytes that go out are those of the buffer iff these still stand there. -/
theorem zip_places_eq_take_iff {left : List WireByte} {memory : List UInt8}
    (hle : memory.length ≤ left.length) :
    memory.zip (left.map Prod.snd) = left.take memory.length ↔
      memory <+: left.map Prod.fst := by
  have hlen : memory.length ≤ (left.map Prod.snd).length := by simpa using hle
  rw [List.prefix_iff_eq_take, ← List.map_take]
  constructor
  · intro h
    rw [← h, List.map_fst_zip hlen]
  · intro h
    rw [List.zip_eq_zip_take_min, min_eq_left hlen, List.take_length, ← List.map_take]
    exact (List.zip_of_prod h.symm rfl).symm

theorem queued_send (h : s.Queued) {buf : List UInt8} (hstep : s.next (.send buf) = some s') :
    s'.Queued := by
  obtain rfl := Option.some.inj hstep
  simp only [Queued, stream, List.flatten_append, List.flatten_singleton, List.zipIdx_append,
    Nat.zero_add]
  rw [← List.append_assoc, h]
  rfl

theorem queued_write (h : s.Queued) {n : ℕ} (hstep : s.next (.write n) = some s')
    (hsound : s.Sound (.write n)) : s'.Queued := by
  obtain ⟨buf, posted, hposted, -, rfl⟩ := write_cases hstep
  have hswap : s.wire ++ buf.take n ++ s.writes.flatten =
      s.wire ++ s.writes.flatten ++ buf.take n := by
    rcases hsound with rfl | hdone
    · simp
    · simp [List.flatten_eq_nil_iff.2 hdone]
  calc s.wire ++ buf.take n ++ (s.writes ++ [buf.drop n]).flatten ++ posted.flatten
      = s.wire ++ buf.take n ++ s.writes.flatten ++ buf.drop n ++ posted.flatten := by
        simp only [List.flatten_append, List.flatten_singleton, List.append_assoc]
    _ = s.wire ++ s.writes.flatten ++ (buf.take n ++ buf.drop n) ++ posted.flatten := by
        rw [hswap, List.append_assoc (s.wire ++ s.writes.flatten)]
    _ = s.wire ++ s.writes.flatten ++ s.posted.flatten := by
        rw [List.take_append_drop, hposted, List.flatten_cons, List.append_assoc _ buf]
    _ = s.stream := h

theorem queued_transfer (h : s.Queued) {i : ℕ} {memory : List UInt8}
    (hstep : s.next (.transfer i memory) = some s') (hsound : s.Sound (.transfer i memory)) :
    s'.Queued := by
  obtain ⟨older, left, newer, hwrites, htake, hi, -, hle, rfl⟩ := transfer_cases hstep
  obtain ⟨hold, hstands⟩ := hsound
  rw [hi, Option.getD_some] at hstands
  have hnil : older.flatten = [] := List.flatten_eq_nil_iff.2 (htake ▸ hold)
  rw [Queued, hwrites, List.flatten_append, hnil, List.nil_append, List.flatten_cons] at h
  rw [Queued, (zip_places_eq_take_iff hle).2 hstands]
  calc s.wire ++ left.take memory.length ++ (older ++ left.drop memory.length :: newer).flatten ++
        s.posted.flatten
      = s.wire ++ (left.take memory.length ++ left.drop memory.length ++ newer.flatten) ++
          s.posted.flatten := by
        rw [List.flatten_append, hnil, List.nil_append, List.flatten_cons]
        simp only [List.append_assoc]
    _ = s.stream := by rw [List.take_append_drop, h]

/-! ### What breaks the order -/

/-- Bytes sent for the places of `left` can only go on where nothing is left before it. -/
theorem eq_nil_of_prefix {older left rest z : List WireByte}
    (hstream : s.stream = s.wire ++ (older ++ (left ++ rest))) (hne : z ≠ [])
    (hplaces : z.map Prod.snd <+: left.map Prod.snd) (hpre : s.wire ++ z <+: s.stream) :
    older = [] := by
  by_contra hold
  obtain ⟨y, ys, rfl⟩ := List.exists_cons_of_ne_nil hold
  obtain ⟨x, xs, rfl⟩ := List.exists_cons_of_ne_nil hne
  rw [hstream, List.prefix_append_right_inj, List.cons_append, List.cons_prefix_cons] at hpre
  obtain ⟨rfl, -⟩ := hpre
  have hnodup := s.places_nodup
  rw [hstream, List.map_append, List.map_append, List.nodup_append] at hnodup
  have hmem : x.2 ∈ (left ++ rest).map Prod.snd := by
    rw [List.map_append]
    exact List.mem_append_left _ (hplaces.subset (by simp))
  exact (List.nodup_append.1 hnodup.2.1).2.2 x.2 (by simp) x.2 hmem rfl

/-- A buffer that begins to go out while an older one is unfinished leaves the order. -/
theorem sound_write_of_inOrder (h : s.Queued) {n : ℕ} (hstep : s.next (.write n) = some s')
    (hs' : s'.InOrder) : s.Sound (.write n) := by
  obtain ⟨buf, posted, hposted, hle, rfl⟩ := write_cases hstep
  rcases Nat.eq_zero_or_pos n with rfl | hpos
  · exact .inl rfl
  refine .inr (List.flatten_eq_nil_iff.1 ?_)
  have hstream : s.stream = s.wire ++ (s.writes.flatten ++ (buf ++ posted.flatten)) := by
    rw [← h, hposted, List.flatten_cons]
    simp only [List.append_assoc]
  refine eq_nil_of_prefix hstream ?_ ((List.take_prefix n buf).map _) hs'.1
  exact List.ne_nil_of_length_pos (by rwa [List.length_take_of_le hle])

/-- So does a transfer by a write that is not the oldest, or of other bytes. -/
theorem sound_transfer_of_inOrder (h : s.Queued) {i : ℕ} {memory : List UInt8}
    (hstep : s.next (.transfer i memory) = some s') (hs' : s'.InOrder) :
    s.Sound (.transfer i memory) := by
  obtain ⟨older, left, newer, hwrites, htake, hi, hne, hle, rfl⟩ := transfer_cases hstep
  have hlen : memory.length ≤ (left.map Prod.snd).length := by simpa using hle
  have hstream : s.stream =
      s.wire ++ (older.flatten ++ (left ++ (newer.flatten ++ s.posted.flatten))) := by
    rw [← h, hwrites, List.flatten_append, List.flatten_cons]
    simp only [List.append_assoc]
  have hpre : s.wire ++ memory.zip (left.map Prod.snd) <+: s.stream := hs'.1
  have hnil : older.flatten = [] := by
    refine eq_nil_of_prefix hstream ?_ ?_ hpre
    · have hpos : 0 < memory.length := List.length_pos_of_ne_nil hne
      refine List.ne_nil_of_length_pos ?_
      rwa [List.length_zip, min_eq_left hlen]
    · rw [map_snd_zip_places hlen]
      exact List.take_prefix _ _
  refine ⟨fun w hw => List.flatten_eq_nil_iff.1 hnil w (htake ▸ hw), ?_⟩
  rw [hi, Option.getD_some, ← zip_places_eq_take_iff hle]
  rw [hstream, hnil, List.nil_append, List.prefix_append_right_inj] at hpre
  have hz := List.prefix_iff_eq_take.1 hpre
  rwa [List.length_zip, min_eq_left hlen, List.take_append_of_le_length hle] at hz

/-- **When the wire carries the buffers in order.**  In a run of the write side every state is in
order iff in every step the older writes were done when bytes were transferred, and the bytes read
of a freed buffer still stood there. -/
theorem wire_inOrder_iff {es : List (WriteSide × WriteAction)} (h : system.Run fresh es s) :
    LTS.Always InOrder es s ↔ ∀ e ∈ es, e.1.Sound e.2 := by
  refine h.always_iff (I := Queued) rfl (fun _ => Queued.inOrder) ?_ ?_
  · intro s action s' hs hstep hsound
    cases action with
    | send buf => exact queued_send hs hstep
    | write n => exact queued_write hs hstep hsound
    | transfer i memory => exact queued_transfer hs hstep hsound
  · intro s action s' hs hstep hs'
    cases action with
    | send buf => trivial
    | write n => exact sound_write_of_inOrder hs hstep hs'
    | transfer i memory => exact sound_transfer_of_inOrder hs hstep hs'

/-- The second byte is still there when the socket takes it. -/
theorem wire_inOrder_iff_two : ∃ es s, system.Run fresh es s ∧ s.Drained ∧
    LTS.Always InOrder es s := by
  have hexec : LTS.execute next fresh [.send [1, 2], .send [3], .write 1, .write 0,
      .transfer 0 [2], .transfer 1 [3]] =
      some ⟨[[1, 2], [3]], [], [[], []], [(1, 0), (2, 1), (3, 2)]⟩ := rfl
  have hrun := LTS.run_of_execute hexec
  exact ⟨_, _, hrun, ⟨rfl, by decide⟩, (wire_inOrder_iff hrun).2 (by decide)⟩

/-- Two frames of two bytes; the second write transfers its bytes while the first has one left, and
all three of them stand in freed memory. -/
theorem write_not_inOrder : ¬∀ (es : List (WriteSide × WriteAction)) (s : WriteSide),
    system.Run fresh es s → s.Drained → s.wire.map Prod.fst = s.sent.flatten := by
  intro h
  have hexec : LTS.execute next fresh [.send [1, 2], .send [3, 4], .write 1, .write 0,
      .transfer 1 [200, 60], .transfer 0 [60]] =
      some ⟨[[1, 2], [3, 4]], [], [[], []], [(1, 0), (200, 2), (60, 3), (60, 1)]⟩ := rfl
  exact absurd (h _ _ (LTS.run_of_execute hexec) ⟨rfl, by decide⟩) (by decide)

end WriteSide

end ClientServer
