import PubSub.Proofs.Wire.Field
import PubSub.Wire.Message

/-!
# What is read as a message

A message is read off the front of a byte string exactly if the string starts with the bytes of the
message, where each of its three numbers may stand in any of its bit patterns
(`Message.reader_eq_ok_iff`). So only a NaN leaves a choice, of its payload bits
(`Message.Spelled.eq_encode`): every length is checked against another one, and the check of the
whole length at the end leaves no slack.
-/

namespace PubSub.Message

open Wire

variable {bytes rest : List UInt8}

/-! ## Messages that carry text -/

theorem decodeLossy_toUTF8 (s : String) : Utf8.decodeLossy s.toUTF8.data = s := by
  have hread : String.fromUTF8? ⟨s.toUTF8.data⟩ = some s := by
    unfold String.fromUTF8?
    exact dif_pos s.isValidUTF8
  rw [Utf8.decodeLossy, hread]

theorem textValue_text (type : MessageType) (key value : String) (time : Float) :
    (text type key value time).textValue = value :=
  decodeLossy_toUTF8 value

/-! ## Forms of a message -/

/-- The fields of a message behind its length, with these bit patterns for its numbers. -/
def fieldBits (m : Message) (time value value2 : UInt64) : List UInt8 :=
  putInt m.id ++ [m.type.byte, m.dataType.byte] ++ putText m.source ++ putText m.sourceAux ++
    putText m.community ++ putText m.key ++ putBits time ++ putBits value ++ putBits value2 ++
    putBytes m.payload

/-- A message as bytes, with these bit patterns for its numbers. -/
def encodeBits (m : Message) (time value value2 : UInt64) : List UInt8 :=
  putLength m.encodedLength ++ m.fieldBits time value value2

theorem encode_eq_encodeBits (m : Message) :
    m.encode = m.encodeBits m.time.toBits m.value.toBits m.value2.toBits := by
  simp only [encode, encodeBits, fieldBits, putDouble_eq, List.append_assoc]

theorem length_encodeBits (m : Message) (time value value2 : UInt64) :
    (m.encodeBits time value value2).length = m.encodedLength := by
  simp [encodeBits, fieldBits, encodedLength, fixedLength, putLength]
  omega

/-- The bytes of a message up to the payload bits of its NaNs. -/
def Spelled (m : Message) (bytes : List UInt8) : Prop :=
  ∃ time value value2, Double.Same time m.time.toBits ∧ Double.Same value m.value.toBits ∧
    Double.Same value2 m.value2.toBits ∧ bytes = m.encodeBits time value value2

/-- No number of the message is NaN. -/
def HasNumbers (m : Message) : Prop :=
  m.time.isNaN = false ∧ m.value.isNaN = false ∧ m.value2.isNaN = false

theorem spelled_encode (m : Message) : m.Spelled m.encode :=
  ⟨_, _, _, .refl _, .refl _, .refl _, m.encode_eq_encodeBits⟩

theorem Spelled.length_eq {m : Message} (h : m.Spelled bytes) : bytes.length = m.encodedLength := by
  obtain ⟨time, value, value2, -, -, -, rfl⟩ := h
  exact m.length_encodeBits time value value2

/-- A message without a NaN has one form. -/
theorem Spelled.eq_encode {m : Message} (h : m.Spelled bytes) (hm : m.HasNumbers) :
    bytes = m.encode := by
  obtain ⟨time, value, value2, ht, hv, hv2, rfl⟩ := h
  rw [encode_eq_encodeBits, ht.eq hm.1, hv.eq hm.2.1, hv2.eq hm.2.2]

/-! ## Reading -/

theorem typeReader_eq_ok_iff {t : MessageType} :
    typeReader bytes = .ok t rest ↔ bytes = t.byte :: rest := by
  simp only [typeReader, bind_eq_ok_iff, takeByte_eq_ok_iff]
  constructor
  · rintro ⟨b, mid, rfl, h⟩
    cases hb : MessageType.ofByte? b with
    | none => simp [hb, throw_ne_ok] at h
    | some u =>
      simp only [hb, pure_eq_ok_iff] at h
      obtain ⟨rfl, rfl⟩ := h
      rw [MessageType.byte_of_ofByte? hb]
  · rintro rfl
    exact ⟨_, _, rfl, by simp only [MessageType.ofByte?_byte, pure_eq_ok_iff, and_self]⟩

theorem dataTypeReader_eq_ok_iff {t : DataType} :
    dataTypeReader bytes = .ok t rest ↔ bytes = t.byte :: rest := by
  simp only [dataTypeReader, bind_eq_ok_iff, takeByte_eq_ok_iff]
  constructor
  · rintro ⟨b, mid, rfl, h⟩
    cases hb : DataType.ofByte? b with
    | none => simp [hb, throw_ne_ok] at h
    | some u =>
      simp only [hb, pure_eq_ok_iff] at h
      obtain ⟨rfl, rfl⟩ := h
      rw [DataType.byte_of_ofByte? hb]
  · rintro rfl
    exact ⟨_, _, rfl, by simp only [DataType.ofByte?_byte, pure_eq_ok_iff, and_self]⟩

/-- The lengths of the fields that have one can be stated. -/
def FieldsStated (m : Message) : Prop :=
  Stated m.source.utf8ByteSize ∧ Stated m.sourceAux.utf8ByteSize ∧
    Stated m.community.utf8ByteSize ∧ Stated m.key.utf8ByteSize ∧ Stated m.payload.size

theorem fieldsStated {m : Message} (h : Stated m.encodedLength) : m.FieldsStated := by
  have h : fixedLength + m.source.utf8ByteSize + m.sourceAux.utf8ByteSize +
    m.community.utf8ByteSize + m.key.utf8ByteSize + m.payload.size < Nat.pow 2 31 := h
  refine ⟨?_, ?_, ?_, ?_, ?_⟩ <;> show _ < Nat.pow 2 31 <;> omega

theorem fieldsReader_eq_ok_iff {m : Message} :
    fieldsReader bytes = .ok m rest ↔ m.FieldsStated ∧ ∃ time value value2,
      Double.Same time m.time.toBits ∧ Double.Same value m.value.toBits ∧
      Double.Same value2 m.value2.toBits ∧ bytes = m.fieldBits time value value2 ++ rest := by
  simp only [fieldsReader, bind_eq_ok_iff, takeInt_eq_ok_iff, typeReader_eq_ok_iff,
    dataTypeReader_eq_ok_iff, takeText_eq_ok_iff, takeDouble_eq_ok_iff, takeBytes_eq_ok_iff,
    pure_eq_ok_iff]
  constructor
  · rintro ⟨id, _, rfl, type, _, rfl, dataType, _, rfl, source, _, ⟨hs, rfl⟩, sourceAux, _,
      ⟨ha, rfl⟩, community, _, ⟨hc, rfl⟩, key, _, ⟨hk, rfl⟩, time, _, ⟨t, ht, rfl⟩, value, _,
      ⟨v, hv, rfl⟩, value2, _, ⟨v2, hv2, rfl⟩, payload, _, ⟨hp, rfl⟩, rfl, rfl⟩
    exact ⟨⟨hs, ha, hc, hk, hp⟩, t, v, v2, ht, hv, hv2, by simp [fieldBits]⟩
  · rintro ⟨⟨hs, ha, hc, hk, hp⟩, t, v, v2, ht, hv, hv2, rfl⟩
    simp only [fieldBits, List.append_assoc, List.cons_append, List.nil_append]
    exact ⟨m.id, _, rfl, m.type, _, rfl, m.dataType, _, rfl, m.source, _, ⟨hs, rfl⟩, m.sourceAux, _,
      ⟨ha, rfl⟩, m.community, _, ⟨hc, rfl⟩, m.key, _, ⟨hk, rfl⟩, m.time, _, ⟨t, ht, rfl⟩, m.value,
      _, ⟨v, hv, rfl⟩, m.value2, _, ⟨v2, hv2, rfl⟩, m.payload, _, ⟨hp, rfl⟩, rfl, rfl⟩

/-- The reader takes a message whose length can be stated off any of its forms, and nothing else. -/
theorem reader_eq_ok_iff {m : Message} :
    reader bytes = .ok m rest ↔
      Stated m.encodedLength ∧ ∃ form, m.Spelled form ∧ bytes = form ++ rest := by
  simp only [reader, bind_eq_ok_iff, guarded_eq_ok_iff, get_eq_ok_iff, takeInt_eq_ok_iff,
    fieldsReader_eq_ok_iff, pure_eq_ok_iff]
  constructor
  · rintro ⟨_, _, ⟨rfl, rfl⟩, n, _, rfl, hlen, m, _, ⟨-, t, v, v2, ht, hv, hv2, rfl⟩, _, _,
      ⟨rfl, rfl⟩, hextent, rfl, rfl⟩
    have htotal := m.length_encodeBits t v v2
    simp only [encodeBits, putLength, List.length_append, length_putInt] at htotal hextent
    have hn : 0 ≤ n.toInt := by
      simp only [fixedLength] at hlen
      omega
    obtain ⟨hself, hstated⟩ := ofNat_toInt hn
    have hdeclared : n.toInt.toNat = m.encodedLength := by
      rw [← htotal]
      omega
    rw [hdeclared] at hself hstated
    refine ⟨hstated, _, ⟨t, v, v2, ht, hv, hv2, rfl⟩, ?_⟩
    rw [encodeBits, putLength, hself, List.append_assoc]
  · rintro ⟨hstated, _, ⟨t, v, v2, ht, hv, hv2, rfl⟩, rfl⟩
    have htotal := m.length_encodeBits t v v2
    have hn := toInt_ofNat_of_stated hstated
    refine ⟨_, _, ⟨rfl, rfl⟩, Int32.ofNat m.encodedLength, m.fieldBits t v v2 ++ rest, ?_, ?_, m,
      rest, ⟨fieldsStated hstated, t, v, v2, ht, hv, hv2, rfl⟩, rest, rest, ⟨rfl, rfl⟩, ?_, rfl,
      rfl⟩
    · rw [encodeBits, putLength, List.append_assoc]
    · rw [hn, List.length_append, htotal, encodedLength]
      omega
    · rw [hn, List.length_append, htotal]
      omega

theorem blames_reader : Blames reader := by
  have htype : Blames typeReader := blames_bind blames_takeByte fun b => by
    cases MessageType.ofByte? b with
    | some t => exact blames_pure t
    | none => exact blames_throw trivial
  have hdata : Blames dataTypeReader := blames_bind blames_takeByte fun b => by
    cases DataType.ofByte? b with
    | some t => exact blames_pure t
    | none => exact blames_throw trivial
  have hfields : Blames fieldsReader :=
    blames_bind blames_takeInt fun _ => blames_bind htype fun _ => blames_bind hdata fun _ =>
      blames_bind blames_takeText fun _ => blames_bind blames_takeText fun _ =>
      blames_bind blames_takeText fun _ => blames_bind blames_takeText fun _ =>
      blames_bind blames_takeDouble fun _ => blames_bind blames_takeDouble fun _ =>
      blames_bind blames_takeDouble fun _ => blames_bind blames_takeBytes fun _ => blames_pure _
  exact blames_bind blames_get fun _ => blames_bind blames_takeInt fun _ =>
    blames_guarded (fun _ => trivial) <| blames_bind hfields fun _ =>
      blames_bind blames_get fun _ => blames_guarded (fun _ => trivial) <| blames_pure _

end PubSub.Message
