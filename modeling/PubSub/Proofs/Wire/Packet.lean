import PubSub.Proofs.Wire.Message
import PubSub.Wire.Packet

/-!
# What is read as a packet

Packets are written and read without loss (`Packet.packet_roundtrip`), and nothing else is read as a
packet (`Packet.decode_strict`): a byte string is a packet only if it is what the packet is written
as, up to the payload bits of NaNs. Both follow from `Packet.decode_eq_ok_iff`.
-/

namespace PubSub.Packet

open Wire

variable {bytes rest : List UInt8}

/-! ## Forms of a packet -/

/-- The bytes of messages one after the other, up to the payload bits of their NaNs. -/
def SpelledAll : List Message → List UInt8 → Prop
  | [], bytes => bytes = []
  | m :: ms, bytes => ∃ front back, m.Spelled front ∧ SpelledAll ms back ∧ bytes = front ++ back

/-- The bytes of a packet up to the payload bits of its NaNs. -/
def Spelled (p : Packet) (bytes : List UInt8) : Prop :=
  p.encodedLength ≤ greatestLength ∧ ∃ body, SpelledAll p.messages body ∧
    bytes = putLength p.encodedLength ++ putLength p.messages.length ++ body

/-- The bytes of messages one after the other. -/
def bodyLength (ms : List Message) : Nat :=
  ms.foldr (fun m length => m.encodedLength + length) 0

theorem SpelledAll.length_eq {ms : List Message} (h : SpelledAll ms bytes) :
    bytes.length = bodyLength ms := by
  induction ms generalizing bytes with
  | nil =>
    obtain rfl : bytes = [] := h
    rfl
  | cons m ms ih =>
    obtain ⟨front, back, hfront, hback, rfl⟩ := h
    rw [List.length_append, hfront.length_eq, ih hback]
    rfl

theorem spelledAll_encode (ms : List Message) : SpelledAll ms (ms.flatMap Message.encode) := by
  induction ms with
  | nil => rfl
  | cons m ms ih => exact ⟨_, _, m.spelled_encode, ih, rfl⟩

/-- Messages without a NaN have one form. -/
theorem SpelledAll.eq_encode {ms : List Message} (h : SpelledAll ms bytes)
    (hms : ∀ m ∈ ms, m.HasNumbers) : bytes = ms.flatMap Message.encode := by
  induction ms generalizing bytes with
  | nil => exact h
  | cons m ms ih =>
    obtain ⟨front, back, hfront, hback, rfl⟩ := h
    rw [hfront.eq_encode (hms m (.head _)), ih hback fun n hn => hms n (.tail _ hn)]
    rfl

/-- A packet that a header can announce is written. -/
theorem encode_eq_ok {p : Packet} (h : p.encodedLength ≤ greatestLength) :
    p.encode = .ok (putLength p.encodedLength ++ putLength p.messages.length ++
      p.messages.flatMap Message.encode) := by
  rw [encode, admittedLength, if_pos h]
  rfl

theorem spelled_encode {p : Packet} (h : p.encodedLength ≤ greatestLength) :
    p.Spelled (putLength p.encodedLength ++ putLength p.messages.length ++
      p.messages.flatMap Message.encode) :=
  ⟨h, _, spelledAll_encode _, rfl⟩

/-- A packet without a NaN has one form. -/
theorem Spelled.eq_encode {p : Packet} (h : p.Spelled bytes)
    (hp : ∀ m ∈ p.messages, m.HasNumbers) : p.encode = .ok bytes := by
  obtain ⟨hle, body, hbody, rfl⟩ := h
  rw [encode_eq_ok hle, hbody.eq_encode hp]

/-! ## Lengths -/

theorem length_le_bodyLength (ms : List Message) : ms.length ≤ bodyLength ms := by
  induction ms with
  | nil => exact Nat.le_refl 0
  | cons m ms ih =>
    show ms.length + 1 ≤ m.encodedLength + bodyLength ms
    rw [Message.encodedLength, Message.fixedLength]
    omega

theorem encodedLength_le_bodyLength {ms : List Message} {m : Message} (h : m ∈ ms) :
    m.encodedLength ≤ bodyLength ms := by
  induction h with
  | head ms => exact Nat.le_add_right ..
  | tail n _ ih => exact Nat.le_add_left_of_le ih

theorem stated_of_le {n : Nat} (h : n ≤ greatestLength) : Stated n :=
  Nat.lt_succ_of_le h

/-! ## Reading -/

theorem headerReader_eq_ok_iff {limit : Nat} {header : Header} :
    headerReader limit bytes = .ok header rest ↔
      Stated header.length ∧ Stated header.count ∧ headerLength ≤ header.length ∧
        header.length ≤ limit ∧
        bytes = putLength header.length ++ putLength header.count ++ rest := by
  simp only [headerReader, bind_eq_ok_iff, guarded_eq_ok_iff, takeInt_eq_ok_iff, pure_eq_ok_iff]
  constructor
  · rintro ⟨length, _, rfl, count, _, rfl, hshort, hlong, hneg, rfl, rfl⟩
    have hl : 0 ≤ length.toInt := by
      simp only [headerLength] at hshort
      omega
    obtain ⟨hlength, hlstated⟩ := ofNat_toInt hl
    obtain ⟨hcount, hcstated⟩ := ofNat_toInt (Int.not_lt.1 hneg)
    refine ⟨hlstated, hcstated, ?_, Nat.not_lt.1 hlong, ?_⟩
    · show headerLength ≤ length.toInt.toNat
      omega
    · rw [putLength, putLength, hlength, hcount, List.append_assoc]
  · rintro ⟨hlstated, hcstated, hshort, hlong, rfl⟩
    refine ⟨Int32.ofNat header.length, _, List.append_assoc .., Int32.ofNat header.count, rest, rfl,
      ?_⟩
    rw [toInt_ofNat_of_stated hlstated, toInt_ofNat_of_stated hcstated]
    exact ⟨by omega, by omega, by omega, rfl, rfl⟩

theorem messagesReader_eq_ok_iff {count : Nat} {ms : List Message} :
    messagesReader count bytes = .ok ms rest ↔
      ms.length = count ∧ (∀ m ∈ ms, Stated m.encodedLength) ∧
        ∃ body, SpelledAll ms body ∧ bytes = body ++ rest := by
  induction count generalizing bytes rest ms with
  | zero =>
    simp only [messagesReader, pure_eq_ok_iff]
    constructor
    · rintro ⟨rfl, rfl⟩
      exact ⟨rfl, by simp, [], rfl, rfl⟩
    · rintro ⟨hlen, -, body, hbody, rfl⟩
      obtain rfl := List.eq_nil_of_length_eq_zero hlen
      obtain rfl : body = [] := hbody
      exact ⟨rfl, rfl⟩
  | succ count ih =>
    simp only [messagesReader, bind_eq_ok_iff, Message.reader_eq_ok_iff, ih, pure_eq_ok_iff]
    constructor
    · rintro ⟨m, _, ⟨hm, front, hfront, rfl⟩, ms, _, ⟨rfl, hms, body, hbody, rfl⟩, rfl, rfl⟩
      refine ⟨rfl, ?_, front ++ body, ⟨front, body, hfront, hbody, rfl⟩, ?_⟩
      · simpa using ⟨hm, hms⟩
      · rw [List.append_assoc]
    · rintro ⟨hlen, hstated, body, hbody, rfl⟩
      obtain ⟨m, ms, rfl⟩ := List.exists_cons_of_length_eq_add_one hlen
      obtain ⟨front, back, hfront, hback, rfl⟩ := hbody
      obtain ⟨hm, hms⟩ := List.forall_mem_cons.1 hstated
      exact ⟨m, back ++ rest, ⟨hm, front, hfront, List.append_assoc ..⟩, ms, rest,
        ⟨Nat.succ.inj hlen, hms, back, hback, rfl⟩, rfl, rfl⟩

/-- No header states more than the greatest length, so that limit is never the cause. -/
theorem blames_headerReader : Blames (headerReader greatestLength) :=
  blames_bind blames_takeInt fun length => blames_bind blames_takeInt fun _ =>
    blames_guarded (fun _ => trivial) <| blames_guarded (fun hlong => absurd hlong (by
      have hlt := length.toInt_lt
      have : greatestLength = 2147483647 := rfl
      omega)) <| blames_guarded (fun _ => trivial) <| blames_pure _

theorem blames_messagesReader (count : Nat) : Blames (messagesReader count) := by
  induction count with
  | zero => exact blames_pure []
  | succ count ih =>
    exact blames_bind Message.blames_reader fun _ => blames_bind ih fun _ => blames_pure _

theorem Spelled.length_eq {p : Packet} (h : p.Spelled bytes) : bytes.length = p.encodedLength := by
  obtain ⟨-, body, hbody, rfl⟩ := h
  simp only [putLength, List.length_append, length_putInt, hbody.length_eq]
  rfl

theorem drop_header (a b : Nat) (body : List UInt8) :
    (putLength a ++ putLength b ++ body).drop headerLength = body := by
  rw [List.drop_append_of_le_length (by simp [putLength, headerLength])]
  rw [List.drop_eq_nil_of_le (by simp [putLength, headerLength]), List.nil_append]

/-- The checks and readings of which decoding consists. -/
theorem decode_eq_ok_iff_reads {p : Packet} :
    decode bytes = .ok p ↔ headerLength ≤ bytes.length ∧ ∃ header left,
      headerReader greatestLength bytes = .ok header left ∧ header.length = bytes.length ∧
        messagesReader header.count (bytes.drop headerLength) = .ok p.messages [] := by
  unfold decode decodeHeader
  by_cases hroom : bytes.length < headerLength
  · rw [if_pos hroom]
    exact ⟨nofun, fun h => absurd hroom (Nat.not_lt.2 h.1)⟩
  rw [if_neg hroom]
  cases hheader : headerReader greatestLength bytes with
  | error cause left => exact ⟨nofun, nofun⟩
  | ok header left =>
    by_cases hextent : header.length = bytes.length
    · simp only [bind, Except.bind, ne_eq, hextent, not_true_eq_false, if_false]
      cases hms : messagesReader header.count (bytes.drop headerLength) with
      | error cause left => simp [throw, throwThe, MonadExceptOf.throw, hms]
      | ok ms rest =>
        cases rest with
        | nil =>
          obtain ⟨messages⟩ := p
          simp [pure, Except.pure, Nat.not_lt.1 hroom, hms, hextent]
        | cons b rest => simp [throw, throwThe, MonadExceptOf.throw, hms]
    · simp [bind, Except.bind, throw, throwThe, MonadExceptOf.throw, hextent]

/-- A byte string is decoded to a packet exactly if it is a form of the packet. -/
theorem decode_eq_ok_iff {p : Packet} : decode bytes = .ok p ↔ p.Spelled bytes := by
  rw [decode_eq_ok_iff_reads]
  constructor
  · rintro ⟨-, header, left, hheader, hextent, hms⟩
    obtain ⟨hstated, -, -, hle, rfl⟩ := headerReader_eq_ok_iff.1 hheader
    obtain ⟨hcount, -, body, hbody, hleft⟩ := messagesReader_eq_ok_iff.1 hms
    rw [drop_header, List.append_nil] at hleft
    obtain rfl := hleft
    have hlength : header.length = p.encodedLength := by
      rw [hextent]
      simp only [putLength, List.length_append, length_putInt, hbody.length_eq]
      rfl
    refine ⟨hlength ▸ hle, left, hbody, ?_⟩
    rw [hlength, hcount]
  · intro hp
    have hlength := hp.length_eq
    obtain ⟨hle, body, hbody, rfl⟩ := hp
    have htotal : p.encodedLength = headerLength + bodyLength p.messages := rfl
    have hcount : p.messages.length ≤ greatestLength := by
      have := length_le_bodyLength p.messages
      omega
    have hms : ∀ m ∈ p.messages, Stated m.encodedLength := fun m hm => by
      have := encodedLength_le_bodyLength hm
      exact stated_of_le (by omega)
    refine ⟨by omega, ⟨p.encodedLength, p.messages.length⟩, body, ?_, hlength.symm, ?_⟩
    · exact headerReader_eq_ok_iff.2
        ⟨stated_of_le hle, stated_of_le hcount, htotal ▸ Nat.le_add_right .., hle, rfl⟩
    · rw [drop_header]
      exact messagesReader_eq_ok_iff.2 ⟨rfl, hms, body, hbody, (List.append_nil _).symm⟩

/-- Decoding fails only for causes that lie in the bytes. -/
theorem inBytes_of_decode {cause : Malformed} (h : decode bytes = .error cause) :
    cause.InBytes := by
  unfold decode decodeHeader at h
  by_cases hroom : bytes.length < headerLength
  · rw [if_pos hroom] at h
    cases h
    trivial
  rw [if_neg hroom] at h
  cases hheader : headerReader greatestLength bytes with
  | error cause' left =>
    rw [hheader] at h
    cases h
    exact blames_headerReader.inBytes hheader
  | ok header left =>
    by_cases hextent : header.length = bytes.length
    · simp only [hheader, bind, Except.bind, ne_eq, hextent, not_true_eq_false, if_false] at h
      cases hms : messagesReader header.count (bytes.drop headerLength) with
      | error cause' left =>
        simp only [hms] at h
        cases h
        exact (blames_messagesReader _).inBytes hms
      | ok ms rest =>
        cases rest with
        | nil => simp [hms, pure, Except.pure] at h
        | cons b rest =>
          simp only [hms] at h
          cases h
          trivial
    · simp only [hheader, bind, Except.bind, ne_eq, hextent, not_false_eq_true, if_true] at h
      cases h
      trivial

/-! ## Writing and reading -/

/-- Messages that fit into a packet are written and read back, Null messages among them, and so is a
message with anything behind it, which stays unread. -/
theorem packet_roundtrip :
    (∀ ms : List Message, encodedLength ⟨ms⟩ ≤ greatestLength →
      ∃ bytes, encode ⟨ms⟩ = .ok bytes ∧ bytes.length = encodedLength ⟨ms⟩ ∧
        decode bytes = .ok ⟨ms⟩) ∧
    ∀ (m : Message) (rest : List UInt8), m.encodedLength ≤ greatestLength →
      Message.decode (m.encode ++ rest) = .ok (m, rest) := by
  constructor
  · intro ms h
    have hform := spelled_encode h
    exact ⟨_, encode_eq_ok h, hform.length_eq, decode_eq_ok_iff.2 hform⟩
  · intro m rest h
    have hread : Message.reader (m.encode ++ rest) = .ok m rest :=
      Message.reader_eq_ok_iff.2 ⟨stated_of_le h, _, m.spelled_encode, rfl⟩
    rw [Message.decode, hread]

/-- A Null message before a text that is not ASCII, at a time that is no number. -/
theorem packet_roundtrip_null_text :
    let null := Message.null "pNav" 99.5
    let ms := [null, Message.text .notify "MODE" "é→𝄞" (0.0 / 0.0)]
    (encodedLength ⟨ms⟩ ≤ greatestLength ∧
      ∃ bytes, encode ⟨ms⟩ = .ok bytes ∧ bytes.length = encodedLength ⟨ms⟩ ∧
        decode bytes = .ok ⟨ms⟩) ∧
    null.encodedLength ≤ greatestLength ∧
      Message.decode (null.encode ++ [0, 1]) = .ok (null, [0, 1]) :=
  ⟨⟨by decide, packet_roundtrip.1 _ (by decide)⟩, by decide, packet_roundtrip.2 _ _ (by decide)⟩

/-- A byte string is read as a packet exactly if it is a form of the packet: what the packet is
written as, up to the payload bits of NaNs. So without a NaN no two byte strings are read as the
same packet. Any other byte string is refused. Decoding knows no other failures than malformed
packets; what is said of them here is that the cause lies in the bytes, and not in a receiver's
limit, in the opening exchange or in what someone else has told. -/
theorem decode_strict (bytes : List UInt8) :
    (∀ p, decode bytes = .ok p ↔ p.Spelled bytes) ∧
    (∀ p, decode bytes = .ok p → ∃ own, encode p = .ok own ∧ p.Spelled own ∧
      ((∀ m ∈ p.messages, m.HasNumbers) → own = bytes)) ∧
    (∀ p other, decode bytes = .ok p → decode other = .ok p →
      (∀ m ∈ p.messages, m.HasNumbers) → bytes = other) ∧
    ∀ e, (decode bytes).mapError Error.malformedPacket = .error e →
      ∃ cause, cause.InBytes ∧ e = .malformedPacket cause := by
  have hself {bytes : List UInt8} {p : Packet} (h : decode bytes = .ok p)
      (hp : ∀ m ∈ p.messages, m.HasNumbers) : encode p = .ok bytes :=
    (decode_eq_ok_iff.1 h).eq_encode hp
  refine ⟨fun p => decode_eq_ok_iff, fun p h => ?_, fun p other h ho hp => ?_, fun e h => ?_⟩
  · obtain ⟨hle, -⟩ := decode_eq_ok_iff.1 h
    refine ⟨_, encode_eq_ok hle, spelled_encode hle, fun hp => ?_⟩
    exact Except.ok.inj ((encode_eq_ok hle).symm.trans (hself h hp))
  · exact Except.ok.inj ((hself h hp).symm.trans (hself ho hp))
  · cases hd : decode bytes with
    | ok p => simp [hd, Except.mapError] at h
    | error cause =>
      rw [hd] at h
      cases h
      exact ⟨cause, inBytes_of_decode hd, rfl⟩

end PubSub.Packet
