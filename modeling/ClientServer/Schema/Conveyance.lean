import ClientServer.Net.Link
import ClientServer.Schema.Packets

/-!
# Messages over a link

One side of a connection has a list of messages to send, which may grow; it sends the next of them
over the link, and on the other side the next handler gets its message.

* `Conveyed` : the invariant: the first of the messages were sent, and the first of them were got.
* `Conveyed.message` : the next handler that is called has the next message.
* `Conveyed.progress` : unless all messages were got, there is a step by which one comes nearer.
-/

namespace ClientServer

variable {F : Type*} [Zero F] [DecidableEq F] (fb : FlatBuffers F)
  (root : Codec (List UInt8) (Table fb.Raw))

theorem callFor_packet {ids : List PacketId} {m : Message F} (h : m.id ∈ ids) :
    Link.callFor (bindPackets ids) (m.packet fb root) = m.call fb root :=
  congrArg (·, m.body fb root) (handlerOf_bindPackets h)

/-- Of the messages `msgs` the first were sent over the link, where each of them has a handler, and
`got` are the messages of the first handlers that were called. -/
structure Conveyed (ids : List PacketId) (s : Link PacketId) (msgs got : List (Message F)) :
    Prop where
  link : Link.InStep (bindPackets ids) s
  sends : s.sends <+: msgs.map (Message.packet fb root)
  bound : ∀ m ∈ msgs, m.id ∈ ids
  le_calls : got.length ≤ s.calls.length
  got : got <+: msgs

/-- How many steps it takes at most until all messages were got. -/
def stepsLeft (s : Link PacketId) (msgs got : List (Message F)) : ℕ :=
  5 * (msgs.length - s.sends.length) + s.left + (msgs.length - got.length)

namespace Conveyed

variable {fb root} {ids : List PacketId} {s s' : Link PacketId} {msgs got l : List (Message F)}
  {m : Message F} {c : PacketId × List UInt8} {read : List RecvPacket → Reading PacketId}

theorem start : Conveyed fb root ids .start [] [] where
  link := Link.inStep_start
  sends := List.nil_prefix
  bound := by simp
  le_calls := le_rfl
  got := List.nil_prefix

theorem called (h : Conveyed fb root ids s msgs got) :
    s.called <+: msgs.map (Message.call fb root) := by
  have hcalls : (msgs.map (Message.packet fb root)).map (Link.callFor (bindPackets ids)) =
      msgs.map (Message.call fb root) := by
    rw [List.map_map]
    exact List.map_congr_left fun m hm => callFor_packet fb root (h.bound m hm)
  exact h.link.delivered.inOrder.trans (hcalls ▸ h.sends.map _)

theorem more (h : Conveyed fb root ids s msgs got) (hl : ∀ m ∈ l, m.id ∈ ids) :
    Conveyed fb root ids s (msgs ++ l) got where
  link := h.link
  sends := by
    rw [List.map_append]
    exact h.sends.trans (List.prefix_append _ _)
  bound := List.forall_mem_append.2 ⟨h.bound, hl⟩
  le_calls := h.le_calls
  got := h.got.trans (List.prefix_append _ _)

theorem send (hread : Link.Reads (bindPackets ids) read) (h : Conveyed fb root ids s msgs got)
    (hm : msgs[s.sends.length]? = some m) (hfit : (m.body fb root).length ≤ 65531)
    (hstep : s.next read (.send m.id.toUInt16 (m.body fb root)) = some s') :
    Conveyed fb root ids s' msgs got := by
  have hbound : m.id.toUInt16 ∈ (bindPackets ids).map Prod.fst :=
    mem_bindPackets.2 (h.bound m (List.mem_of_getElem? hm))
  refine ⟨h.link.step hread hstep ⟨hfit, hbound⟩, ?_, h.bound, ?_, h.got⟩
  · obtain rfl := Option.some.inj hstep
    have hpacket : (msgs.map (Message.packet fb root))[s.sends.length]? =
        some (m.packet fb root) := by
      rw [List.getElem?_map, hm, Option.map_some]
    exact Framing.prefix_concat h.sends hpacket
  · obtain rfl := Option.some.inj hstep
    exact h.le_calls

theorem step (hread : Link.Reads (bindPackets ids) read) (h : Conveyed fb root ids s msgs got)
    {a : LinkAction} (hstep : s.next read a = some s') (hsend : a.isSend = false)
    (hgood : s.Orderly (bindPackets ids) a) : Conveyed fb root ids s' msgs got where
  link := h.link.step hread hstep hgood
  sends := Link.sends_next hstep hsend ▸ h.sends
  bound := h.bound
  le_calls := h.le_calls.trans (Link.calls_next hstep).length_le
  got := h.got

/-- **The next handler that is called has the next message.** -/
theorem message (h : Conveyed fb root ids s msgs got) (hc : s.calls[got.length]? = some c) :
    ∃ m, msgs[got.length]? = some m ∧ c = (m.id, m.body fb root) ∧
      Conveyed fb root ids s msgs (got ++ [m]) := by
  obtain ⟨hlt, -⟩ := List.getElem?_eq_some_iff.1 hc
  have hcall : s.called[got.length]? = some (some c.1, c.2) := by
    rw [Link.called, List.getElem?_map, hc, Option.map_some]
  obtain ⟨hin, hget⟩ := List.getElem?_eq_some_iff.1 hcall
  have hmsg := List.prefix_iff_getElem?.1 h.called _ hin
  rw [hget, List.getElem?_map] at hmsg
  obtain ⟨m, hm, heq⟩ := Option.map_eq_some_iff.1 hmsg
  obtain ⟨hid, hbody⟩ := Prod.mk.inj heq
  refine ⟨m, hm, Prod.ext (Option.some.inj hid).symm hbody.symm, h.link, h.sends, h.bound, ?_,
    Framing.prefix_concat h.got hm⟩
  rwa [List.length_append, List.length_singleton]

/-- When everything was sent, the link is idle, and no call waits for its handler, all was got. -/
theorem got_eq (h : Conveyed fb root ids s msgs got) (hsent : s.sends.length = msgs.length)
    (hidle : s.Idle) (hgot : got.length = s.calls.length) : got = msgs := by
  refine h.got.eq_of_length ?_
  have hcalls := congrArg List.length (h.link.delivered.all hidle)
  rw [Link.called, List.length_map, List.length_map] at hcalls
  rw [hgot, hcalls, hsent]

omit [DecidableEq F] [Zero F] in
theorem stepsLeft_send {id : UInt16} {buf : List UInt8} (hm : msgs[s.sends.length]? = some m)
    (hstep : s.next read (.send id buf) = some s') :
    stepsLeft s' msgs got < stepsLeft s msgs got := by
  obtain rfl := Option.some.inj hstep
  obtain ⟨hlt, -⟩ := List.getElem?_eq_some_iff.1 hm
  simp only [stepsLeft, Link.left, List.length_append, List.length_singleton]
  omega

omit [DecidableEq F] [Zero F] in
theorem stepsLeft_step {a : LinkAction} (hstep : s.next read a = some s')
    (hsend : a.isSend = false) (hless : s'.left < s.left) :
    stepsLeft s' msgs got < stepsLeft s msgs got := by
  simp only [stepsLeft, Link.sends_next hstep hsend]
  omega

omit [DecidableEq F] [Zero F] in
theorem stepsLeft_got (h : got ++ [m] <+: msgs) :
    stepsLeft s msgs (got ++ [m]) < stepsLeft s msgs got := by
  have hlen := h.length_le
  simp only [List.length_append, List.length_singleton] at hlen
  simp only [stepsLeft, List.length_append, List.length_singleton]
  omega

/-- **Progress.**  A call waits for its handler; and if none does, there is a message to send, or the
link has something to do. -/
theorem progress (hread : Link.Reads (bindPackets ids) read) (h : Conveyed fb root ids s msgs got)
    (hne : got ≠ msgs) : (∃ c, s.calls[got.length]? = some c) ∨
      got.length = s.calls.length ∧
        ((∃ m, msgs[s.sends.length]? = some m) ∨ s.Advances (bindPackets ids) read) := by
  by_cases hcalls : got.length = s.calls.length
  · refine .inr ⟨hcalls, ?_⟩
    by_cases hsent : s.sends.length = msgs.length
    · exact .inr (h.link.advances hread fun hidle => hne (h.got_eq hsent hidle hcalls))
    · have hle : s.sends.length ≤ msgs.length := by simpa using h.sends.length_le
      exact .inl ⟨_, List.getElem?_eq_getElem (lt_of_le_of_ne hle hsent)⟩
  · exact .inl ⟨_, List.getElem?_eq_getElem (lt_of_le_of_ne h.le_calls hcalls)⟩

end Conveyed

end ClientServer
