import PubSub.Proofs.Wire.Packet
import PubSub.Wire.Stream

/-!
# Packets on a stream

Packets that are written one after the other are read one after the other
(`Stream.readPackets_encodeAll`): the header of a packet says where the next one begins, so a read
takes the bytes of one packet and no others (`Stream.readPacket_append`). Where the stream breaks
off before the end of a packet, the read fails (`Stream.readPacket_cut`), and a packet that is too
long is refused with its body unread (`Stream.readPacket_of_refused`).

All of it rests on what a header is decoded to (`Packet.decodeHeader_putInt`).
-/

namespace PubSub

open Wire

namespace Packet

/-- Packets as bytes, one after the other. -/
def encodeAll : List Packet → Except Error (List UInt8)
  | [] => return []
  | p :: ps => return (← p.encode) ++ (← encodeAll ps)

theorem encodeAll_cons {p : Packet} {ps : List Packet} {form bytes : List UInt8}
    (h : p.encode = .ok form) (hs : encodeAll ps = .ok bytes) :
    encodeAll (p :: ps) = .ok (form ++ bytes) := by
  rw [encodeAll, h, hs]
  rfl

theorem spelled_of_encode {p : Packet} {form : List UInt8} (h : p.encode = .ok form) :
    p.Spelled form := by
  by_cases hle : p.encodedLength ≤ greatestLength
  · obtain rfl := Except.ok.inj ((encode_eq_ok hle).symm.trans h)
    exact spelled_encode hle
  · rw [encode, admittedLength, if_neg hle] at h
    cases h

/-! ## Headers -/

/-- What a header is decoded to: its numbers are checked in this order. -/
theorem decodeHeader_putInt (limit : Nat) (length count : Int32) :
    decodeHeader limit (putInt length ++ putInt count) =
      if length.toInt < headerLength then .error (.shortPacket length.toInt)
      else if limit < length.toInt.toNat then .error (.longPacket length.toInt.toNat limit)
      else if count.toInt < 0 then .error (.negativeCount count.toInt)
      else .ok { length := length.toInt.toNat, count := count.toInt.toNat } := by
  have hlength := takeInt_append length (putInt count)
  have hcount := takeInt_append count []
  rw [List.append_nil] at hcount
  simp only [decodeHeader, headerReader, bind, EStateM.bind, hlength, hcount]
  split_ifs <;> rfl

/-- A packet's bytes are a header that announces them and as many more as it announces. -/
theorem Spelled.exists_header {p : Packet} {form : List UInt8} (h : p.Spelled form) :
    ∃ header body, form = header ++ body ∧ header.length = headerLength ∧
      headerLength + body.length = p.encodedLength ∧ ∀ limit, decodeHeader limit header =
        if limit < p.encodedLength then .error (.longPacket p.encodedLength limit)
        else .ok { length := p.encodedLength, count := p.messages.length } := by
  have hform := h.length_eq
  obtain ⟨hle, body, -, rfl⟩ := h
  have hroom : headerLength ≤ p.encodedLength := Nat.le_add_right ..
  have hheader : (putLength p.encodedLength ++ putLength p.messages.length).length =
      headerLength := by
    simp [putLength, headerLength]
  have hcount : p.messages.length ≤ greatestLength :=
    Nat.le_trans (length_le_bodyLength _) (Nat.le_trans (Nat.le_add_left ..) hle)
  refine ⟨_, body, rfl, hheader, ?_, fun limit => ?_⟩
  · rw [← hform, List.length_append, hheader]
  · rw [putLength, putLength, decodeHeader_putInt, toInt_ofNat_of_stated (stated_of_le hle),
      toInt_ofNat_of_stated (stated_of_le hcount), Int.toNat_natCast, Int.toNat_natCast,
      if_neg (by omega), if_neg (Int.not_lt.2 (Int.natCast_nonneg _))]

end Packet

namespace Stream

/-! ## One read -/

/-- A read of more than has arrived at the end takes what is there, and fails. -/
theorem take_of_lt {n : Nat} {bytes : List UInt8} (h : bytes.length < n) :
    take n { bytes, closed := true } = .failed earlyEnd { closed := true } := by
  simp [take, Nat.not_le.2 h]

variable {limit : Nat} {header : List UInt8}

/-- A header that is refused is read alone. -/
theorem readPacket_of_refused {cause : Malformed} (hheader : header.length = Packet.headerLength)
    (h : Packet.decodeHeader limit header = .error cause) (body : List UInt8) (closed : Bool) :
    readPacket limit { bytes := header ++ body, closed } =
      .failed (.malformedPacket cause) { bytes := body, closed } := by
  rw [readPacket, take_append hheader, Outcome.andThen, h]

/-- Behind a header as many bytes are read as it announces. -/
theorem readPacket_of_accepted {h : Packet.Header} (hheader : header.length = Packet.headerLength)
    (haccepted : Packet.decodeHeader limit header = .ok h) (body : List UInt8) (closed : Bool) :
    readPacket limit { bytes := header ++ body, closed } =
      (take (h.length - Packet.headerLength) { bytes := body, closed }).andThen fun body s =>
        .decided s ((Packet.decode (header ++ body)).mapError .malformedPacket) := by
  rw [readPacket, take_append hheader, Outcome.andThen, haccepted]

variable {p : Packet} {form : List UInt8}

/-- A packet is read off the front of a stream, and what comes behind it is left. -/
theorem readPacket_append (h : p.Spelled form) (hlimit : p.encodedLength ≤ limit)
    (rest : List UInt8) (closed : Bool) :
    readPacket limit { bytes := form ++ rest, closed } = .done p { bytes := rest, closed } := by
  have hdecode : Packet.decode form = .ok p := Packet.decode_eq_ok_iff.2 h
  obtain ⟨header, body, rfl, hheader, hbody, haccepted⟩ := h.exists_header
  have haccepted := (haccepted limit).trans (if_neg (Nat.not_lt.2 hlimit))
  rw [List.append_assoc, readPacket_of_accepted hheader haccepted,
    take_append (Nat.eq_sub_of_add_eq' hbody), Outcome.andThen, hdecode]
  rfl

/-- Where a stream ends before the end of a packet, there is no packet. -/
theorem readPacket_cut (h : p.Spelled form) {cut : List UInt8} (hcut : cut <+: form)
    (hshort : cut.length < form.length) :
    ∃ e s, readPacket limit { bytes := cut, closed := true } = .failed e s ∧
      (p.encodedLength ≤ limit → e = earlyEnd) := by
  by_cases hroom : cut.length < Packet.headerLength
  · refine ⟨earlyEnd, { closed := true }, ?_, fun _ => rfl⟩
    rw [readPacket, take_of_lt hroom, Outcome.andThen]
  · obtain ⟨header, body, rfl, hheader, hbody, haccepted⟩ := h.exists_header
    -- The header has arrived whole, so the cut lies in the body.
    obtain ⟨front, rfl⟩ : header <+: cut :=
      List.prefix_of_prefix_length_le (List.prefix_append ..) hcut
        (by rw [hheader]; exact Nat.not_lt.1 hroom)
    rw [List.length_append, List.length_append] at hshort
    by_cases hlong : limit < p.encodedLength
    · have hrefused := (haccepted limit).trans (if_pos hlong)
      exact ⟨_, _, readPacket_of_refused hheader hrefused front true,
        fun hle => absurd hlong (Nat.not_lt.2 hle)⟩
    · have haccepted := (haccepted limit).trans (if_neg hlong)
      have hfront : front.length < p.encodedLength - Packet.headerLength := by omega
      refine ⟨earlyEnd, { closed := true }, ?_, fun _ => rfl⟩
      rw [readPacket_of_accepted hheader haccepted, take_of_lt hfront, Outcome.andThen]

theorem readPacket_nil (limit : Nat) :
    readPacket limit { bytes := [], closed := true } = .failed earlyEnd { closed := true } := by
  rw [readPacket, take_of_lt (by decide), Outcome.andThen]

/-- A packet that is announced as too long is refused before anything of its body is read. -/
theorem readPacket_of_long {length : Int32} (count : Int32) (body : List UInt8) (closed : Bool)
    (h : (limit : Int) < length.toInt) :
    ∃ cause, readPacket limit { bytes := putInt length ++ putInt count ++ body, closed } =
        .failed (.malformedPacket cause) { bytes := body, closed } ∧
      (Packet.headerLength ≤ length.toInt → cause = .longPacket length.toInt.toNat limit) := by
  have hheader : (putInt length ++ putInt count).length = Packet.headerLength := by
    rw [List.length_append, length_putInt, length_putInt]
    rfl
  have hdecode := Packet.decodeHeader_putInt limit length count
  by_cases hroom : length.toInt < Packet.headerLength
  · rw [if_pos hroom] at hdecode
    exact ⟨_, readPacket_of_refused hheader hdecode body closed,
      fun hle => absurd hroom (Int.not_lt.2 hle)⟩
  · rw [if_neg hroom, if_pos (by omega)] at hdecode
    exact ⟨_, readPacket_of_refused hheader hdecode body closed, fun _ => rfl⟩

/-! ## Packet after packet -/

/-- As many packets as are asked for, read one after the other. -/
def readPackets (limit : Nat) : Nat → Stream → Outcome (List Packet)
  | 0, s => .done [] s
  | n + 1, s => (s.readPacket limit).andThen fun p s =>
    (readPackets limit n s).andThen fun ps s => .done (p :: ps) s

theorem exists_encodeAll (limit : Nat) (ps : List Packet)
    (h : ∀ p ∈ ps, p.encodedLength ≤ limit ∧ p.encodedLength ≤ Packet.greatestLength) :
    ∃ bytes, Packet.encodeAll ps = .ok bytes ∧ ∀ rest closed,
      readPackets limit ps.length { bytes := bytes ++ rest, closed } =
        .done ps { bytes := rest, closed } := by
  induction ps with
  | nil => exact ⟨[], rfl, fun _ _ => rfl⟩
  | cons p ps ih =>
    obtain ⟨⟨hlimit, hle⟩, hps⟩ := List.forall_mem_cons.1 h
    obtain ⟨bytes, hbytes, hread⟩ := ih hps
    refine ⟨_, Packet.encodeAll_cons (Packet.encode_eq_ok hle) hbytes, fun rest closed => ?_⟩
    rw [List.length_cons, readPackets, List.append_assoc,
      readPacket_append (Packet.spelled_encode hle) hlimit, Outcome.andThen, hread,
      Outcome.andThen]

/-- Packets that the reader's limit and the wire format admit are written, and are read back one
after the other, with nothing read of what follows. A read at the end of the stream fails, and so
does one where the stream ends inside a packet; and a header that announces more than the limit is
refused with everything behind it unread. -/
theorem readPackets_encodeAll (limit : Nat) (ps : List Packet)
    (h : ∀ p ∈ ps, p.encodedLength ≤ limit ∧ p.encodedLength ≤ Packet.greatestLength) :
    (∃ bytes, Packet.encodeAll ps = .ok bytes ∧ ∀ rest closed,
      readPackets limit ps.length { bytes := bytes ++ rest, closed } =
        .done ps { bytes := rest, closed }) ∧
    readPacket limit { bytes := [], closed := true } = .failed earlyEnd { closed := true } ∧
    (∀ (p : Packet) form cut, p.encode = .ok form → cut <+: form → cut.length < form.length →
      ∃ e s, readPacket limit { bytes := cut, closed := true } = .failed e s ∧
        (p.encodedLength ≤ limit → e = earlyEnd)) ∧
    ∀ (length count : Int32) body closed, (limit : Int) < length.toInt →
      ∃ cause, readPacket limit { bytes := putInt length ++ putInt count ++ body, closed } =
          .failed (.malformedPacket cause) { bytes := body, closed } ∧
        (Packet.headerLength ≤ length.toInt → cause = .longPacket length.toInt.toNat limit) :=
  ⟨exists_encodeAll limit ps h, readPacket_nil limit,
    fun _ _ _ hform hcut hshort => readPacket_cut (Packet.spelled_of_encode hform) hcut hshort,
    fun _ count body closed hlong => readPacket_of_long count body closed hlong⟩

/-- A text that is not ASCII. -/
def textPacket : Packet := ⟨[.text .notify "MODE" "é→𝄞" 11.0]⟩

/-- A packet with a time and a number, and one with a text. -/
def packetPair : List Packet :=
  [⟨[Message.null "pNav" 99.5, .double .notify "X" 1.5 10.0]⟩, textPacket]

/-- With a limit that the longer one just meets, both packets are read back in front of half a
header. A stream that ends after 20 bytes of a packet holds none, and a packet of 200 bytes is
refused before any more of it arrives. -/
theorem readPackets_encodeAll_packetPair :
    (∀ p ∈ packetPair, p.encodedLength ≤ 121 ∧ p.encodedLength ≤ Packet.greatestLength) ∧
    (∃ bytes, Packet.encodeAll packetPair = .ok bytes ∧
      readPackets 121 2 { bytes := bytes ++ [1, 2, 3, 4] } =
        .done packetPair { bytes := [1, 2, 3, 4] }) ∧
    readPacket 121 { bytes := [], closed := true } = .failed earlyEnd { closed := true } ∧
    (∃ form, textPacket.encode = .ok form ∧ form.length = 75 ∧
      ∃ e s, readPacket 121 { bytes := form.take 20, closed := true } = .failed e s ∧
        e = earlyEnd) ∧
    ∃ cause, readPacket 121 { bytes := putInt 200 ++ putInt 1 } =
      .failed (.malformedPacket cause) {} ∧ cause = .longPacket 200 121 := by
  have h : ∀ p ∈ packetPair, p.encodedLength ≤ 121 ∧ p.encodedLength ≤ Packet.greatestLength := by
    decide
  have hle : textPacket.encodedLength ≤ Packet.greatestLength := by decide
  have hform := Packet.encode_eq_ok hle
  have hlength := (Packet.spelled_of_encode hform).length_eq
  obtain ⟨⟨bytes, hbytes, hread⟩, hend, hcut, hlong⟩ := readPackets_encodeAll 121 packetPair h
  obtain ⟨e, s, hfailed, he⟩ := hcut textPacket _ _ hform (List.take_prefix 20 _)
    (by rw [List.length_take, hlength]; decide)
  obtain ⟨cause, hrefused, hcause⟩ := hlong 200 1 [] false (by decide)
  exact ⟨h, ⟨bytes, hbytes, hread _ _⟩, hend,
    ⟨_, hform, hlength, e, s, hfailed, he (by decide)⟩, cause, hrefused, hcause (by decide)⟩

end Stream

end PubSub
