import ClientServer.Data.Strided
import ClientServer.LTS.Run
import ClientServer.Net.Dispatch

/-!
# From the io thread to the game thread

The io thread adds the packets it receives to a `RecvBuffer`, the game thread takes them out and
calls their handlers.  `Add` and `Get` hold the mutex, so what they do is one step each, and the
steps of the two threads come in any order.

* `recvSystem` : the steps of both threads.
* `RecvBuffer.get_eq` : the copy that `Get` returns.
* `HandOff.handedOff_run_iff` : **exactly when no packet is lost** on the way to its handler.
-/

namespace ClientServer

namespace RecvBuffer

/-- `Add(id, data)`: an id is a `short` there. -/
def add (buffer : List RecvPacket) (id : UInt16) (data : List UInt8) : List RecvPacket :=
  buffer ++ [(id.toInt16, data)]

/-- What `Get()` returns: a vector of the right size, set element by element. -/
def get (buffer : List RecvPacket) : List RecvPacket :=
  (List.range buffer.length).foldl (fun vec i => vec.set i (buffer.getD i (0, [])))
    (List.replicate buffer.length (0, []))

theorem get_eq (buffer : List RecvPacket) : get buffer = buffer := by
  rw [get, foldl_set_range _ _ le_rfl, Nat.sub_self, List.replicate_zero, List.append_nil]
  refine List.ext_getElem? fun i => ?_
  rw [List.getElem?_map]
  by_cases hi : i < buffer.length
  · rw [List.getElem?_range hi, Option.map_some, List.getD_eq_getElem?_getD,
      List.getElem?_eq_getElem hi, Option.getD_some]
  · rw [List.getElem?_eq_none (by simpa using hi), List.getElem?_eq_none (by omega), Option.map_none]

end RecvBuffer

/-! ### The two threads -/

/-- The buffer, with what was added to it, what `Get` returned so far, and the handlers called. -/
structure HandOff (H : Type*) where
  buffer : List RecvPacket
  added : List (UInt16 × List UInt8)
  returned : List (List RecvPacket)
  calls : List (H × List UInt8)

/-- The io thread has received a packet; the game thread runs `ReadPackets`. -/
inductive HandOffStep
  | add (id : UInt16) (data : List UInt8)
  | readPackets

/-- What a step does.  The loop of `ReadPackets` works on its own copy, so that what the io thread
adds meanwhile is the same as what it adds afterwards. -/
def HandOff.next {H : Type*} (p : PacketHandler H) (s : HandOff H) : HandOffStep → HandOff H
  | .add id data =>
    { s with buffer := RecvBuffer.add s.buffer id data, added := s.added ++ [(id, data)] }
  | .readPackets =>
    { s with
      buffer := []
      returned := s.returned ++ [RecvBuffer.get s.buffer]
      calls := s.calls ++ (User.readPackets p (RecvBuffer.get s.buffer)).calls }

/-- The steps of both threads. -/
def recvSystem {H : Type*} (p : PacketHandler H) : LTS (HandOff H) HandOffStep where
  step s l s' := s' = s.next p l

namespace HandOff

variable {H : Type*} {binds : List (UInt16 × H)} {s s' : HandOff H} {l : HandOffStep}

theorem next_add (p : PacketHandler H) (s : HandOff H) (id : UInt16) (data : List UInt8) :
    s.next p (.add id data) =
      ⟨s.buffer ++ [(id.toInt16, data)], s.added ++ [(id, data)], s.returned, s.calls⟩ := rfl

theorem next_readPackets (p : PacketHandler H) (s : HandOff H) :
    s.next p .readPackets = ⟨[], s.added, s.returned ++ [s.buffer],
      s.calls ++ (User.readPackets p s.buffer).calls⟩ := by
  rw [next, RecvBuffer.get_eq]

/-- Nothing was added yet. -/
def start : HandOff H := ⟨[], [], [], []⟩

/-- The handler bound to an id. -/
def handlerOf (binds : List (UInt16 × H)) (id : UInt16) : Option H :=
  (binds.find? fun b => b.1 = id).map Prod.snd

/-- Every packet added was returned by one `Get`, or waits, in the order of arrival; the handler
bound to its id was called for it, or it waits; and `Invoke` finds that handler by the `short`. -/
structure HandedOff (binds : List (UInt16 × H)) (s : HandOff H) : Prop where
  kept : s.returned.flatten ++ s.buffer = s.added.map fun p => (p.1.toInt16, p.2)
  dispatched : s.calls.map (fun c => (some c.1, c.2)) ++
    s.buffer.map (fun e => (handlerOf binds e.1.toUInt16, e.2)) =
      s.added.map fun p => (handlerOf binds p.1, p.2)
  invoke : ∀ id : UInt16,
    (PacketHandler.ofBinds binds).invoke id.toInt16.toUInt16 = handlerOf binds id

/-- `ReadPackets` finds no packet without a handler. -/
def AllBound (binds : List (UInt16 × H)) (s : HandOff H) : HandOffStep → Prop
  | .add _ _ => True
  | .readPackets => ∀ e ∈ s.buffer, e.1.toUInt16 ∈ binds.map Prod.fst

instance (binds : List (UInt16 × H)) (s : HandOff H) : DecidablePred (AllBound binds s)
  | .add _ _ => .isTrue trivial
  | .readPackets =>
    inferInstanceAs (Decidable (∀ e ∈ s.buffer, e.1.toUInt16 ∈ binds.map Prod.fst))

theorem handedOff_start : HandedOff binds start :=
  ⟨rfl, rfl, fun id => PacketHandler.invoke_ofBinds binds id⟩

theorem map_boundCalls {list : List RecvPacket}
    (h : ∀ e ∈ list, e.1.toUInt16 ∈ binds.map Prod.fst) :
    (boundCalls (.ofBinds binds) list).map (fun c => (some c.1, c.2)) =
      list.map fun e => (handlerOf binds e.1.toUInt16, e.2) := by
  induction list with
  | nil => rfl
  | cons e list ih =>
    rw [List.forall_mem_cons] at h
    obtain ⟨handler, hhandler⟩ := Option.isSome_iff_exists.1
      ((PacketHandler.isSome_invoke_ofBinds binds _).2 h.1)
    have hof : handlerOf binds e.1.toUInt16 = some handler :=
      (PacketHandler.invoke_ofBinds binds _).symm.trans hhandler
    rw [boundCalls, List.filterMap_cons, hhandler, List.map_cons, hof]
    exact congrArg _ (ih h.2)

/-- The buffer loses nothing, whatever is bound. -/
theorem kept_next {p : PacketHandler H} (l : HandOffStep)
    (h : s.returned.flatten ++ s.buffer = s.added.map fun p => (p.1.toInt16, p.2)) :
    (s.next p l).returned.flatten ++ (s.next p l).buffer =
      (s.next p l).added.map fun p => (p.1.toInt16, p.2) := by
  cases l with
  | add id data =>
    rw [next_add, List.map_append, ← h, List.append_assoc]
    rfl
  | readPackets =>
    rw [next_readPackets, List.flatten_append, List.flatten_singleton, List.append_nil]
    exact h

theorem HandedOff.step (h : HandedOff binds s)
    (hstep : (recvSystem (.ofBinds binds)).step s l s') (hbound : AllBound binds s l) :
    HandedOff binds s' := by
  obtain rfl := hstep
  refine ⟨kept_next l h.kept, ?_, h.invoke⟩
  cases l with
  | add id data =>
    rw [next_add, List.map_append, List.map_append, ← h.dispatched, List.append_assoc]
    rfl
  | readPackets =>
    rw [next_readPackets, User.readPackets_of_bound hbound, List.map_append,
      map_boundCalls hbound, List.map_nil, List.append_nil]
    exact h.dispatched

/-- After `ReadPackets` nothing waits, so what was taken out has a handler. -/
theorem HandedOff.allBound (h : HandedOff binds s)
    (hstep : (recvSystem (.ofBinds binds)).step s l s') (h' : HandedOff binds s') :
    AllBound binds s l := by
  cases l with
  | add => trivial
  | readPackets =>
    obtain rfl := hstep
    intro e he
    have hadded : e ∈ s.added.map fun p => (p.1.toInt16, p.2) :=
      h.kept ▸ List.mem_append_right _ he
    obtain ⟨⟨id, data⟩, hmem, rfl⟩ := List.mem_map.1 hadded
    have hcalled : (handlerOf binds id, data) ∈ s.added.map fun p => (handlerOf binds p.1, p.2) :=
      List.mem_map.2 ⟨_, hmem, rfl⟩
    have hall := h'.dispatched
    rw [next_readPackets, List.map_nil, List.append_nil] at hall
    rw [← hall] at hcalled
    obtain ⟨⟨handler, data'⟩, -, heq⟩ := List.mem_map.1 hcalled
    have hof : handlerOf binds id = some handler := (Prod.mk.inj heq).1.symm
    refine (PacketHandler.isSome_invoke_ofBinds binds _).1 ?_
    rw [h.invoke, hof]
    rfl

/-- **When no packet is lost.**  In every state of a run of the two threads every packet added was
taken out once and handled, or waits: iff `ReadPackets` never takes out one without a handler. -/
theorem handedOff_run_iff {es : List (HandOff H × HandOffStep)}
    (h : (recvSystem (.ofBinds binds)).Run start es s) :
    LTS.Always (HandedOff binds) es s ↔ ∀ e ∈ es, AllBound binds e.1 e.2 :=
  h.always_iff (I := HandedOff binds) handedOff_start (fun _ hs => hs)
    (fun _ _ _ hs hstep hbound => hs.step hstep hbound)
    fun _ _ _ hs hstep hs' => hs.allBound hstep hs'

theorem exists_run (p : PacketHandler H) (ls : List HandOffStep) (test : HandOff H → Bool)
    (h : (LTS.execute (fun s l => some (next p s l)) start ls).any test = true) :
    ∃ s, (recvSystem p).Run start (LTS.trace (fun s l => some (next p s l)) start ls) s ∧
      test s = true := by
  obtain ⟨s, hrun, hs⟩ := LTS.exists_run _ start ls test h
  exact ⟨s, hrun.mono fun _ _ _ hstep => (Option.some.inj hstep).symm, hs⟩

/-- Two handlers, and four packets, of which the last one waits. -/
theorem handedOff_run_iff_four : ∃ es s,
    (recvSystem (.ofBinds [(12, 0), (13, 1)])).Run (start : HandOff ℕ) es s ∧ es.length = 7 ∧
      s.calls = [(0, [7]), (1, [8, 9]), (0, [])] ∧ s.buffer = [(13, [1])] ∧
        LTS.Always (HandedOff [(12, 0), (13, 1)]) es s := by
  obtain ⟨s, hrun, hs⟩ := exists_run (.ofBinds [(12, 0), (13, 1)])
    [.add 12 [7], .add 13 [8, 9], .readPackets, .readPackets, .add 12 [], .readPackets,
      .add 13 [1]]
    (fun s => s.calls = [(0, [7]), (1, [8, 9]), (0, [])] ∧ s.buffer = [(13, [1])])
    (by decide +kernel)
  obtain ⟨hcalls, hbuffer⟩ := of_decide_eq_true hs
  exact ⟨_, s, hrun, by decide +kernel, hcalls, hbuffer,
    (handedOff_run_iff hrun).2 (by decide +kernel)⟩

/-- A packet with an unknown id comes first, and the one after it never gets to its handler. -/
theorem handedOff_unbound : ¬∀ (binds : List (UInt16 × ℕ)) (es : List (HandOff ℕ × HandOffStep))
    (s : HandOff ℕ), (recvSystem (.ofBinds binds)).Run start es s → HandedOff binds s := by
  intro h
  obtain ⟨s, hrun, hs⟩ := exists_run (.ofBinds [(12, 0)]) [.add 99 [], .add 12 [7], .readPackets]
    (fun s => ¬s.calls.map (fun c => (some c.1, c.2)) ++
      s.buffer.map (fun e => (handlerOf [(12, 0)] e.1.toUInt16, e.2)) =
        s.added.map fun p => (handlerOf [(12, 0)] p.1, p.2)) (by decide +kernel)
  exact of_decide_eq_true hs (h _ _ s hrun).dispatched

end HandOff

end ClientServer
