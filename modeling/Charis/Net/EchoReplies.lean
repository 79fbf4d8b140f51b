import Charis.Net.RoundTrip

/-!
# Replies to echo requests

A reply is the request with some fields replaced.  Both checksums are computed
with a zero in their place, so they come out right whatever the header, its
options and the payload are, and every field that is not replaced is the one of
the request.
-/

namespace Charis.Net

section Splice

variable {bytes part : List UInt8} {offset index : Nat}

theorem length_splice (fits : offset + part.length ≤ bytes.length) :
    (splice bytes offset part).length = bytes.length := by
  simp only [splice, List.length_append, List.length_take, List.length_drop]
  omega

theorem getD_append_left {front back : List UInt8} (inside : index < front.length) :
    (front ++ back).getD index 0 = front.getD index 0 := by
  rw [List.getD_eq_getElem?_getD, List.getD_eq_getElem?_getD, List.getElem?_append_left inside]

theorem byteAt_append {front : List UInt8} (back : List UInt8) (inside : index < front.length) :
    byteAt (front ++ back) index = byteAt front index := by
  rw [byteAt, byteAt, getD_append_left inside]

theorem byteAt_take {count : Nat} (inside : index < count) :
    byteAt (bytes.take count) index = byteAt bytes index := by
  rw [byteAt, byteAt, List.getD_eq_getElem?_getD, List.getD_eq_getElem?_getD,
    List.getElem?_take_of_lt inside]

theorem drop_splice {count : Nat} (fits : offset + part.length ≤ bytes.length)
    (behind : offset + part.length ≤ count) :
    (splice bytes offset part).drop count = bytes.drop count := by
  have front : (bytes.take offset ++ part).length = offset + part.length := by
    rw [List.length_append, List.length_take]
    omega
  rw [splice, List.drop_append, front, List.drop_eq_nil_of_le (by omega), List.nil_append,
    List.drop_drop]
  congr 1
  omega

/-- A byte outside the replaced field. -/
theorem byteAt_splice (fits : offset + part.length ≤ bytes.length)
    (outside : index < offset ∨ offset + part.length ≤ index) :
    byteAt (splice bytes offset part) index = byteAt bytes index := by
  rcases outside with before | behind
  · have inside : index < (bytes.take offset).length := by
      rw [List.length_take]
      omega
    rw [splice, List.append_assoc, byteAt_append _ inside, byteAt_take before]
  · have same := congrArg (byteAt · (index - (offset + part.length)))
      (drop_splice fits (Nat.le_refl (offset + part.length)))
    simp only [byteAt_drop] at same
    rwa [Nat.add_sub_cancel' behind] at same

theorem readBe16_append {front : List UInt8} (back : List UInt8)
    (inside : index + 2 ≤ front.length) :
    readBe16 (front ++ back) index = readBe16 front index := by
  rw [readBe16, readBe16, byteAt_append _ (by omega), byteAt_append _ (by omega)]

theorem readBe32_append {front : List UInt8} (back : List UInt8)
    (inside : index + 4 ≤ front.length) :
    readBe32 (front ++ back) index = readBe32 front index := by
  rw [readBe32, readBe32, readBe16_append _ (by omega), readBe16_append _ (by omega)]

theorem readBe16_splice (fits : offset + part.length ≤ bytes.length)
    (outside : index + 2 ≤ offset ∨ offset + part.length ≤ index) :
    readBe16 (splice bytes offset part) index = readBe16 bytes index := by
  rw [readBe16, readBe16, byteAt_splice fits (by omega), byteAt_splice fits (by omega)]

theorem readBe32_splice (fits : offset + part.length ≤ bytes.length)
    (outside : index + 4 ≤ offset ∨ offset + part.length ≤ index) :
    readBe32 (splice bytes offset part) index = readBe32 bytes index := by
  rw [readBe32, readBe32, readBe16_splice fits (by omega), readBe16_splice fits (by omega)]

/-- The replaced field itself. -/
theorem readBe32_splice_self (value : BitVec 32) (inside : offset ≤ bytes.length) :
    readBe32 (splice bytes offset (be32 value)) offset = value := by
  have front : (bytes.take offset).length = offset := List.length_take_of_le inside
  have found := readBe32_be32 (bytes.take offset) value (bytes.drop (offset + 4))
  rwa [front, ← List.append_assoc] at found

theorem byteAt_splice_self (byte : UInt8) (inside : offset ≤ bytes.length) :
    byteAt (splice bytes offset [byte]) offset = byte.toBitVec := by
  have front : (bytes.take offset).length = offset := List.length_take_of_le inside
  have found := byteAt_drop (splice bytes offset [byte]) offset 0
  rw [splice, List.append_assoc, List.drop_left' front, Nat.add_zero] at found
  rw [splice, List.append_assoc, ← found]
  rfl

/-- A checksum that is computed with a zero in its place and put there verifies. -/
theorem checksum_splice (even : offset % 2 = 0) (fits : offset + 2 ≤ bytes.length)
    (short : bytes.length ≤ 65535) :
    checksum (splice (splice bytes offset [0, 0]) offset
      (be16 (checksum (splice bytes offset [0, 0])))) = 0 := by
  have front : (bytes.take offset).length = offset := List.length_take_of_le (by omega)
  have cleared : splice bytes offset [0, 0] =
      bytes.take offset ++ (be16 0 ++ bytes.drop (offset + 2)) := by
    rw [splice, List.append_assoc]
    rfl
  have patched : ∀ value, splice (splice bytes offset [0, 0]) offset (be16 value) =
      bytes.take offset ++ (be16 value ++ bytes.drop (offset + 2)) := by
    intro value
    have behind : (splice bytes offset [0, 0]).drop (offset + 2) = bytes.drop (offset + 2) :=
      drop_splice fits (Nat.le_refl _)
    rw [splice, length_be16, behind, cleared, List.take_left' front, List.append_assoc]
  rw [patched, cleared]
  apply checksum_completed
  · rw [front]
    exact even
  · rw [front, List.length_drop]
    omega

end Splice

/-- The total length that an IPv4 header gives. -/
def totalLength (ip : List UInt8) : Nat := (readBe16 ip 2).toNat

/-- The ICMP message in an IPv4 packet. -/
def icmpMessage (ip : List UInt8) : List UInt8 :=
  (ip.drop (headerLength ip)).take (totalLength ip - headerLength ip)

/-- What `handle_icmp` checks of a packet: a whole header and message for the own
address, both checksums, type 8 and code 0. -/
structure AcceptsEcho (stack : Stack) (ip : List UInt8) (ipLength : Nat) : Prop where
  whole : 20 ≤ ipLength ∧ 20 ≤ headerLength ip ∧ headerLength ip ≤ ipLength
  protocol : byteAt ip 9 = 1
  length : headerLength ip + 8 ≤ totalLength ip ∧ totalLength ip ≤ ipLength
  here : stack.ipIsConfigured = true ∧ readBe32 ip 16 = stack.localIp
  header : checksum (ip.take (headerLength ip)) = 0
  request : byteAt (icmpMessage ip) 0 = 8 ∧ byteAt (icmpMessage ip) 1 = 0
  message : checksum (icmpMessage ip) = 0

/-- The header of a reply: the addresses change places, and the time to live goes
down without reaching zero. -/
def replyHeader (ip : List UInt8) : List UInt8 :=
  let ttl : BitVec 8 := if byteAt ip 8 > 1 then byteAt ip 8 - 1 else 1
  splice (splice (splice (splice (ip.take (headerLength ip)) 12 (be32 (readBe32 ip 16)))
    16 (be32 (readBe32 ip 12))) 8 [⟨ttl⟩]) 10 [0, 0]

/-- The message of a reply: type 0. -/
def replyMessage (icmp : List UInt8) : List UInt8 := splice (splice icmp 0 [0]) 2 [0, 0]

/-- The packet of a reply. -/
def replyPacket (ip : List UInt8) : List UInt8 :=
  splice (replyHeader ip) 10 (be16 (checksum (replyHeader ip))) ++
    splice (replyMessage (icmpMessage ip)) 2
      (be16 (checksum (replyMessage (icmpMessage ip))))

/-- The frame of a reply to a frame. -/
def replyFrame (frame ip : List UInt8) : List UInt8 :=
  ethernetHeader (readMac frame 6) (readMac frame 0) 0x0800 ++ replyPacket ip

section Handler

variable {stack : Stack} {frame ip : List UInt8} {ipLength : Nat}

/-- An accepted request is answered with one frame. -/
theorem handleIcmp_of_accepted (accepted : AcceptsEcho stack ip ipLength) :
    handleIcmp stack frame ip ipLength = (stack.transmit (replyFrame frame ip)).2 := by
  obtain ⟨whole, protocol, length, here, header, request, message⟩ := accepted
  simp only [totalLength] at length
  simp only [icmpMessage, totalLength] at request message
  unfold handleIcmp
  dsimp only
  rw [if_neg (by simp only [protocol, ne_eq, not_true_eq_false, or_false]; omega),
    if_neg (by omega),
    if_neg (by simp [here.1, here.2]), if_neg (by simp [header]),
    if_neg (by simp [request.1, request.2, message])]
  simp only [replyFrame, replyPacket, replyHeader, replyMessage, icmpMessage, totalLength,
    ethernetHeader, List.append_assoc]

/-- Everything else is dropped. -/
theorem handleIcmp_of_rejected (rejected : ¬ AcceptsEcho stack ip ipLength) :
    handleIcmp stack frame ip ipLength = stack := by
  unfold handleIcmp
  dsimp only
  split
  · rfl
  next whole =>
  split
  · rfl
  next length =>
  split
  · rfl
  next here =>
  split
  · rfl
  next header =>
  split
  · rfl
  next request =>
  exfalso
  apply rejected
  simp only [not_or, ne_eq, Decidable.not_not, Nat.not_lt] at whole length here header request
  exact ⟨⟨whole.1, whole.2.1, whole.2.2.1⟩, whole.2.2.2, length,
    ⟨by simpa using here.1, here.2⟩, header, ⟨request.1, request.2.1⟩, request.2.2⟩

end Handler

/-- A reply to an echo request: both checksums verify, the addresses have changed
places, and the message is the one of the request but for its type. -/
structure EchoReply (request reply : List UInt8) : Prop where
  headerLength : headerLength reply = headerLength request
  headerChecksum : checksum (reply.take (Net.headerLength reply)) = 0
  messageChecksum : checksum (icmpMessage reply) = 0
  source : readBe32 reply 12 = readBe32 request 16
  destination : readBe32 reply 16 = readBe32 request 12
  type : byteAt (icmpMessage reply) 0 = 0
  code : byteAt (icmpMessage reply) 1 = 0
  identifier : readBe16 (icmpMessage reply) 4 = readBe16 (icmpMessage request) 4
  sequence : readBe16 (icmpMessage reply) 6 = readBe16 (icmpMessage request) 6
  payload : (icmpMessage reply).drop 8 = (icmpMessage request).drop 8
  totalLength : totalLength reply = totalLength request
  length : reply.length = Net.totalLength request

section Reply

variable {ip : List UInt8}

/-- The header of the reply, with its checksum. -/
structure HeaderSwapped (ip header : List UInt8) : Prop where
  length : header.length = headerLength ip
  version : byteAt header 0 = byteAt ip 0
  total : readBe16 header 2 = readBe16 ip 2
  source : readBe32 header 12 = readBe32 ip 16
  destination : readBe32 header 16 = readBe32 ip 12
  sum : checksum header = 0

theorem headerSwapped_replyHeader (minimal : 20 ≤ headerLength ip)
    (whole : headerLength ip ≤ ip.length) :
    HeaderSwapped ip (splice (replyHeader ip) 10 (be16 (checksum (replyHeader ip)))) := by
  have small : headerLength ip ≤ 60 := by
    have low := Nat.mod_lt (byteAt ip 0).toNat (show 0 < 16 by decide)
    simp only [headerLength]
    omega
  have start : (ip.take (headerLength ip)).length = headerLength ip :=
    List.length_take_of_le whole
  -- the replaced fields, one after the other
  obtain ⟨sourced, sourcedEq⟩ : ∃ sourced, sourced =
      splice (ip.take (headerLength ip)) 12 (be32 (readBe32 ip 16)) := ⟨_, rfl⟩
  obtain ⟨swapped, swappedEq⟩ : ∃ swapped, swapped =
      splice sourced 16 (be32 (readBe32 ip 12)) := ⟨_, rfl⟩
  obtain ⟨aged, agedEq⟩ : ∃ aged, aged = splice swapped 8
      [⟨if byteAt ip 8 > 1 then byteAt ip 8 - 1 else 1⟩] := ⟨_, rfl⟩
  have cleared : replyHeader ip = splice aged 10 [0, 0] := by
    rw [agedEq, swappedEq, sourcedEq]
    rfl
  have sourcedLength : sourced.length = headerLength ip := by
    rw [sourcedEq, length_splice (by rw [length_be32]; omega), start]
  have swappedLength : swapped.length = headerLength ip := by
    rw [swappedEq, length_splice (by rw [length_be32]; omega), sourcedLength]
  have agedLength : aged.length = headerLength ip := by
    rw [agedEq, length_splice (by simp only [List.length_singleton]; omega), swappedLength]
  have addressRoom : ∀ value, 12 + (be32 value).length ≤ (ip.take (headerLength ip)).length := by
    intro value
    rw [length_be32]
    omega
  have sourceRoom : ∀ value, 16 + (be32 value).length ≤ sourced.length := by
    intro value
    rw [length_be32]
    omega
  have ageRoom : ∀ byte : UInt8, 8 + [byte].length ≤ swapped.length := by
    intro byte
    rw [List.length_singleton]
    omega
  have sumRoom : 10 + [(0 : UInt8), 0].length ≤ aged.length := by
    simp only [List.length_cons, List.length_nil]
    omega
  have clearedLength : (splice aged 10 [0, 0]).length = headerLength ip := by
    rw [length_splice sumRoom, agedLength]
  have fits : ∀ value, 10 + (be16 value).length ≤ (splice aged 10 [0, 0]).length := by
    intro value
    rw [length_be16]
    omega
  rw [cleared]
  constructor
  · rw [length_splice (fits _), clearedLength]
  · rw [byteAt_splice (fits _) (.inl (by decide)), byteAt_splice sumRoom (.inl (by decide)), agedEq,
      byteAt_splice (ageRoom _) (.inl (by decide)), swappedEq,
      byteAt_splice (sourceRoom _) (.inl (by decide)), sourcedEq,
      byteAt_splice (addressRoom _) (.inl (by decide)), byteAt_take (by omega)]
  · rw [readBe16_splice (fits _) (.inl (by decide)),
      readBe16_splice sumRoom (.inl (by decide)), agedEq,
      readBe16_splice (ageRoom _) (.inl (by decide)), swappedEq,
      readBe16_splice (sourceRoom _) (.inl (by decide)), sourcedEq,
      readBe16_splice (addressRoom _) (.inl (by decide)), readBe16, byteAt_take (by omega),
      byteAt_take (by omega), readBe16]
  · rw [readBe32_splice (fits _) (.inr (by rw [length_be16])),
      readBe32_splice sumRoom (.inr (by decide)), agedEq,
      readBe32_splice (ageRoom _) (.inr (by rw [List.length_singleton]; decide)), swappedEq,
      readBe32_splice (sourceRoom _) (.inl (by decide)), sourcedEq,
      readBe32_splice_self _ (by omega)]
  · rw [readBe32_splice (fits _) (.inr (by rw [length_be16]; decide)),
      readBe32_splice sumRoom (.inr (by decide)), agedEq,
      readBe32_splice (ageRoom _) (.inr (by rw [List.length_singleton]; decide)), swappedEq,
      readBe32_splice_self _ (by omega)]
  · exact checksum_splice (by decide) (by omega) (by omega)

/-- The message of the reply, with its checksum. -/
structure MessageAnswered (icmp message : List UInt8) : Prop where
  length : message.length = icmp.length
  type : byteAt message 0 = 0
  code : byteAt message 1 = byteAt icmp 1
  identifier : readBe16 message 4 = readBe16 icmp 4
  sequence : readBe16 message 6 = readBe16 icmp 6
  payload : message.drop 8 = icmp.drop 8
  sum : checksum message = 0

theorem messageAnswered_replyMessage {icmp : List UInt8} (minimal : 8 ≤ icmp.length)
    (short : icmp.length ≤ 65535) :
    MessageAnswered icmp
      (splice (replyMessage icmp) 2 (be16 (checksum (replyMessage icmp)))) := by
  obtain ⟨typed, typedEq⟩ : ∃ typed, typed = splice icmp 0 [0] := ⟨_, rfl⟩
  have cleared : replyMessage icmp = splice typed 2 [0, 0] := by
    rw [typedEq]
    rfl
  have whole : 0 + [(0 : UInt8)].length ≤ icmp.length := by
    simp only [List.length_singleton]
    omega
  have typedLength : typed.length = icmp.length := by
    rw [typedEq, length_splice whole]
  have room : 2 + [(0 : UInt8), 0].length ≤ typed.length := by
    simp only [List.length_cons, List.length_nil]
    omega
  have clearedLength : (splice typed 2 [0, 0]).length = icmp.length := by
    rw [length_splice room, typedLength]
  have fits : ∀ value, 2 + (be16 value).length ≤ (splice typed 2 [0, 0]).length := by
    intro value
    rw [length_be16]
    omega
  rw [cleared]
  constructor
  · rw [length_splice (fits _), clearedLength]
  · rw [byteAt_splice (fits _) (.inl (by decide)), byteAt_splice room (.inl (by decide)),
      typedEq, byteAt_splice_self 0 (Nat.zero_le _)]
    rfl
  · rw [byteAt_splice (fits _) (.inl (by decide)), byteAt_splice room (.inl (by decide)),
      typedEq, byteAt_splice whole (.inr (by decide))]
  · rw [readBe16_splice (fits _) (.inr (by rw [length_be16])),
      readBe16_splice room (.inr (by decide)), typedEq, readBe16_splice whole (.inr (by decide))]
  · rw [readBe16_splice (fits _) (.inr (by rw [length_be16]; omega)),
      readBe16_splice room (.inr (by decide)), typedEq, readBe16_splice whole (.inr (by decide))]
  · rw [drop_splice (fits _) (by rw [length_be16]; omega), drop_splice room (by decide), typedEq,
      drop_splice whole (by decide)]
  · exact checksum_splice (by decide) (by omega) (by omega)

theorem length_icmpMessage (whole : totalLength ip ≤ ip.length) :
    (icmpMessage ip).length = totalLength ip - headerLength ip := by
  rw [icmpMessage, List.length_take, List.length_drop]
  omega

/-- Whatever header, options and payload a packet has, its reply verifies and
carries back what it carried. -/
theorem echoReply_replyPacket (minimal : 20 ≤ headerLength ip)
    (message : headerLength ip + 8 ≤ totalLength ip) (whole : totalLength ip ≤ ip.length)
    (code : byteAt (icmpMessage ip) 1 = 0) : EchoReply ip (replyPacket ip) := by
  have icmpLength := length_icmpMessage whole
  have bound : totalLength ip ≤ 65535 := Nat.le_of_lt_succ (readBe16 ip 2).isLt
  have header := headerSwapped_replyHeader minimal (by omega)
  have answered := @messageAnswered_replyMessage (icmpMessage ip) (by omega) (by omega)
  have shape : replyPacket ip = _ ++ _ := rfl
  generalize splice (replyHeader ip) 10 _ = front at header shape
  generalize splice (replyMessage (icmpMessage ip)) 2 _ = back at answered shape
  have frontLength := header.length
  have backLength := answered.length
  have sameHeader : headerLength (replyPacket ip) = headerLength ip := by
    rw [headerLength, shape, byteAt_append _ (by omega), header.version, headerLength]
  have sameTotal : totalLength (replyPacket ip) = totalLength ip := by
    rw [totalLength, shape, readBe16_append _ (by omega), header.total, totalLength]
  have inside : icmpMessage (replyPacket ip) = back := by
    rw [icmpMessage, sameHeader, sameTotal, shape, List.drop_left' frontLength,
      List.take_of_length_le (by omega)]
  have above : (replyPacket ip).take (headerLength (replyPacket ip)) = front := by
    rw [sameHeader, shape, List.take_left' frontLength]
  constructor
  · exact sameHeader
  · rw [above]
    exact header.sum
  · rw [inside]
    exact answered.sum
  · rw [shape, readBe32_append _ (by omega)]
    exact header.source
  · rw [shape, readBe32_append _ (by omega)]
    exact header.destination
  · rw [inside]
    exact answered.type
  · rw [inside, answered.code]
    exact code
  · rw [inside]
    exact answered.identifier
  · rw [inside]
    exact answered.sequence
  · rw [inside]
    exact answered.payload
  · exact sameTotal
  · rw [shape, List.length_append]
    omega

end Reply

section Received

variable {stack : Stack} {frame : List UInt8} {ipLength : Nat}

theorem AcceptsEcho.echoReply (accepted : AcceptsEcho stack (frame.drop 14) ipLength)
    (received : 14 + ipLength ≤ frame.length) :
    EchoReply (frame.drop 14) (replyPacket (frame.drop 14)) := by
  have whole : totalLength (frame.drop 14) ≤ (frame.drop 14).length := by
    have length := accepted.length.2
    rw [List.length_drop]
    omega
  exact echoReply_replyPacket accepted.whole.2.1 accepted.length.1 whole accepted.request.2

theorem drop_replyFrame (frame ip : List UInt8) : (replyFrame frame ip).drop 14 = replyPacket ip :=
  List.drop_left' (length_ethernetHeader ..)

end Received

/-- A frame whose packet is accepted as an echo request is answered with one frame to its
sender, whose packet verifies and carries back what the request carried. -/
theorem echo_reply_correct {stack : Stack} {frame : List UInt8} {ipLength : Nat}
    (received : 14 + ipLength ≤ frame.length)
    (accepted : AcceptsEcho stack (frame.drop 14) ipLength) :
    ∃ reply, handleIcmp stack frame (frame.drop 14) ipLength = (stack.transmit reply).2 ∧
      reply.take 14 = ethernetHeader (readMac frame 6) (readMac frame 0) 0x0800 ∧
      EchoReply (frame.drop 14) (reply.drop 14) := by
  refine ⟨replyFrame frame (frame.drop 14), handleIcmp_of_accepted accepted,
    List.take_left' (length_ethernetHeader ..), ?_⟩
  rw [drop_replyFrame]
  exact accepted.echoReply received

/-- An echo request to 10.0.2.15 with an option in its header and three bytes of
payload. -/
def pingFrame : List UInt8 :=
  ethernetHeader 0x525400123456 0x525500000202 0x0800 ++
    [70, 0, 0, 35, 0, 7, 0, 0, 64, 1, 95, 194, 10, 0, 2, 2, 10, 0, 2, 15, 1, 1, 1, 0,
      8, 0, 225, 200, 18, 52, 0, 1, 1, 2, 3]

theorem accepts_pingFrame : AcceptsEcho neighbourWorld.stack (pingFrame.drop 14) 35 where
  whole := by decide
  protocol := by decide
  length := by decide
  here := by decide +kernel
  header := by decide
  request := by decide
  message := by decide

theorem echo_reply_correct_ping :
    ∃ reply, handleIcmp neighbourWorld.stack pingFrame (pingFrame.drop 14) 35 =
        (neighbourWorld.stack.transmit reply).2 ∧
      reply.take 14 = ethernetHeader 0x525500000202 0x525400123456 0x0800 ∧
      EchoReply (pingFrame.drop 14) (reply.drop 14) :=
  echo_reply_correct (by decide) accepts_pingFrame

end Charis.Net
