import ClientServer.Net.Packet

/-!
# The three encoders

`ClientSession::Send`, `NetTcp::Send` and `BroadcastChat` each write a header and a body.  The
size field has 16 bits and none of them refuses a longer body: the first two cut the body off as
well, the third writes all of it behind a size that is cut.

* `Carries.length_lt` : no frame at all carries a body of `2 ^ 16` bytes.
* `frames_iff` : **exactly when the encoders agree and are unambiguous**: on bodies below
  `2 ^ 16` bytes.
-/

namespace ClientServer

/-- `PacketId::ChatNfy`. -/
def chatNfy : UInt16 := 2

/-- `BroadcastChat`, from the finished `ChatNfy` on. -/
def broadcastChat (body : List UInt8) : List UInt8 :=
  let header : PacketHeader := ⟨chatNfy, UInt16.ofNat body.length⟩
  header.bytes ++ body

/-- The frame carries the complete body, and its size field is the number of bytes that
follow. -/
def Carries (frame : List UInt8) (id : UInt16) (body : List UInt8) : Prop :=
  ∃ size : UInt16, frame = PacketHeader.bytes ⟨id, size⟩ ++ body ∧ size.toNat = body.length

/-- The frames of an id and a body carry it, and that of a chat is what both sides would
send. -/
structure Encoded (id : UInt16) (body : List UInt8) : Prop where
  session : Carries (ClientSession.frame id body) id body
  client : Carries (NetTcp.frame id body) id body
  chat : Carries (broadcastChat body) chatNfy body
  chat_session : broadcastChat body = ClientSession.frame chatNfy body
  chat_client : broadcastChat body = NetTcp.frame chatNfy body

/-- Two inputs are encoded, and if they are different then so are their frames. -/
structure Distinguished (x y : UInt16 × List UInt8) : Prop where
  left : Encoded x.1 x.2
  right : Encoded y.1 y.2
  session : ClientSession.frame x.1 x.2 = ClientSession.frame y.1 y.2 → x = y
  client : NetTcp.frame x.1 x.2 = NetTcp.frame y.1 y.2 → x = y

section

variable {frame body body' : List UInt8} {id id' : UInt16}

theorem Carries.length_lt (h : Carries frame id body) : body.length < 2 ^ 16 := by
  obtain ⟨size, -, hsize⟩ := h
  exact hsize ▸ size.toNat_lt

theorem Carries.inj (h : Carries frame id body) (h' : Carries frame id' body') :
    id = id' ∧ body = body' := by
  obtain ⟨size, hframe, -⟩ := h
  obtain ⟨size', hframe', -⟩ := h'
  obtain ⟨hheader, hbody⟩ := List.append_inj (hframe.symm.trans hframe') rfl
  have heq : (⟨id, size⟩ : PacketHeader) = ⟨id', size'⟩ := PacketHeader.bytes_inj hheader
  exact ⟨congrArg PacketHeader.id heq, hbody⟩

theorem carries_packetData (h : body.length < 2 ^ 16) : Carries (packetData id body) id body :=
  ⟨_, packetData_of_le h, UInt16.toNat_ofNat_of_lt' h⟩

theorem broadcastChat_eq (h : body.length < 2 ^ 16) :
    broadcastChat body = packetData chatNfy body :=
  (packetData_of_le h).symm

theorem encoded_iff : Encoded id body ↔ body.length < 2 ^ 16 := by
  refine ⟨fun h => h.session.length_lt, fun h => ?_⟩
  have hchat := broadcastChat_eq h
  exact ⟨carries_packetData h, carries_packetData h, hchat ▸ carries_packetData h, hchat, hchat⟩

end

/-- **When the encoders agree and are unambiguous.**  Any two inputs are carried by the frames
of all encoders, and told apart, iff both bodies are below `2 ^ 16` bytes. -/
theorem frames_iff (x y : UInt16 × List UInt8) :
    Distinguished x y ↔ x.2.length < 2 ^ 16 ∧ y.2.length < 2 ^ 16 := by
  constructor
  · exact fun h => ⟨encoded_iff.1 h.left, encoded_iff.1 h.right⟩
  · rintro ⟨hx, hy⟩
    have hinj : packetData x.1 x.2 = packetData y.1 y.2 → x = y := by
      intro heq
      obtain ⟨hid, hbody⟩ := (carries_packetData hx).inj (heq ▸ carries_packetData hy)
      exact Prod.ext hid hbody
    exact ⟨encoded_iff.2 hx, encoded_iff.2 hy, hinj, hinj⟩

/-- A body of `2 ^ 16` bytes is sent as an empty one. -/
theorem frames_not_distinguished : ¬∀ x y : UInt16 × List UInt8, Distinguished x y := by
  intro h
  have hx := h (chatNfy, List.replicate 65536 0) (chatNfy, [])
  have hzero : UInt16.ofNat 65536 = 0 := by decide
  have hframe : packetData chatNfy (List.replicate 65536 0) = packetData chatNfy [] := by
    rw [packetData, List.length_replicate, hzero]
    rfl
  have hlen := congrArg List.length (Prod.mk.inj (hx.session hframe)).2
  rw [List.length_replicate, List.length_nil] at hlen
  omega

end ClientServer
