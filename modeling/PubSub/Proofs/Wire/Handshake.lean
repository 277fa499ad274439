import PubSub.Proofs.Text.Entries
import PubSub.Proofs.Wire.Packet
import PubSub.Wire.Stream

/-!
# The opening exchange over the wire

A request and a response stand in the fields of one message each, and a message of the opening
exchange stands on the stream without a packet around it. The other side reads the same request or
response, and nothing of what comes behind it (`Handshake.opening_roundtrip`).

The two halves are independent. On the stream a message says at its front how many bytes it has, so
a read takes these and no others (`Stream.readMessage_append`). In the message a name is the
payload, and a hostname is an entry of a text: it is found again if no comma ends it and no blank
is trimmed off it (`Handshake.hostnameIn_entry`).
-/

namespace PubSub

open Wire

/-! ## One message on a stream -/

namespace Stream

variable {limit : Nat}

theorem toInt32_putInt (n : Int32) : (UInt32.ofNat (ofLittleEndian (putInt n))).toInt32 = n := by
  have hlt : n.toUInt32.toNat < Nat.pow 256 4 := n.toUInt32.toNat_lt
  rw [putInt, ofLittleEndian_littleEndian, Nat.mod_eq_of_lt hlt, UInt32.ofNat_toNat]
  rfl

/-- A length that the limit admits is read back. -/
theorem messageLength_putLength {n : Nat} (hleast : lengthWidth ≤ n) (hlimit : n ≤ limit)
    (hstated : Stated n) : messageLength limit (putLength n) = .ok n := by
  rw [messageLength, putLength, toInt32_putInt, toInt_ofNat_of_stated hstated, if_neg (by omega),
    Int.toNat_natCast]

/-- A message is read off the front of a stream, and what comes behind it is left. -/
theorem readMessage_append {m : Message} {form : List UInt8} (h : m.Spelled form)
    (hlimit : m.encodedLength ≤ limit) (hstated : Stated m.encodedLength) (rest : List UInt8)
    (closed : Bool) :
    readMessage limit { bytes := form ++ rest, closed } = .done m { bytes := rest, closed } := by
  have hdecode : Message.decode form = .ok (m, []) := by
    have hread : Message.reader form = .ok m [] :=
      Message.reader_eq_ok_iff.2 ⟨hstated, form, h, (List.append_nil _).symm⟩
    rw [Message.decode, hread]
  have hlength := h.length_eq
  obtain ⟨time, value, value2, -, -, -, rfl⟩ := h
  rw [Message.encodeBits] at hdecode hlength ⊢
  have hwidth : (putLength m.encodedLength).length = lengthWidth := length_putInt _
  rw [List.length_append, hwidth] at hlength
  rw [readMessage, List.append_assoc, take_append hwidth, Outcome.andThen,
    messageLength_putLength (by omega) hlimit hstated]
  dsimp only
  rw [take_append (by omega), Outcome.andThen, hdecode]
  rfl

end Stream

namespace Handshake

/-! ## Requests -/

/-- A request with a name is found again in its message. -/
theorem ofMessage_request {r : Request} (h : r.name ≠ "") :
    Request.ofMessage r.toMessage = .ok r := by
  have hname : r.toMessage.textValue = r.name := Message.textValue_text ..
  have hkey : decide (r.toMessage.key = asynchronous) = r.asynchronous := by
    show decide ((if r.asynchronous then asynchronous else "") = asynchronous) = _
    cases r.asynchronous <;> decide
  have htype : ¬ r.toMessage.type ≠ .data := not_not_intro rfl
  rw [Request.ofMessage, if_neg htype, hname, if_neg (by simpa using h), hkey]
  rfl

/-! ## Responses -/

/-- A response whose hostname can stand in an entry. -/
def Response.Writable : Response → Prop
  | .welcome w => ',' ∉ w.hostname.toList ∧ Text.Trimmed w.hostname.toList
  | .poison _ => True

instance : (r : Response) → Decidable r.Writable
  | .welcome w => inferInstanceAs (Decidable (',' ∉ w.hostname.toList ∧ _))
  | .poison _ => inferInstanceAs (Decidable True)

/-- A hostname is found again in its entry. -/
theorem hostnameIn_entry {host : String} (hcomma : ',' ∉ host.toList)
    (htrimmed : Text.Trimmed host.toList) : hostnameIn ("hostname=" ++ host) = host := by
  let entries := [("hostname".toList, host.toList)]
  have htext : ("hostname=" ++ host).toList = [','].intercalate (entries.map (Text.entry '=')) := by
    rw [String.toList_append, List.map_singleton, List.intercalate_singleton]
    rfl
  have hpieces : Text.pieces ',' ("hostname=" ++ host).toList = entries.map (Text.entry '=') := by
    rw [htext]
    exact Text.pieces_entries (by simp [entries]) (by decide)
      (List.forall_mem_singleton.2 ⟨by simp, hcomma⟩)
  have hentries : (entries.map (Text.entry '=')).filterMap (Text.cut? '=') = entries :=
    Text.filterMap_cut?_entries (List.forall_mem_singleton.2 (by simp))
  have hword : sameWord (Text.trim "hostname".toList) "hostname".toList = true := by decide
  have hfound : entries.find? (fun e => sameWord (Text.trim e.1) "hostname".toList) =
      some ("hostname".toList, host.toList) := List.find?_cons_of_pos hword
  simp only [hostnameIn, hpieces, hentries, hfound]
  rw [htrimmed.trim_eq_self, String.ofList_toList]

theorem textValue_welcome (w : Welcome) :
    (Response.welcome w).toMessage.textValue = if w.asynchronous then asynchronous else "" := by
  have hpayload : (Response.welcome w).toMessage.payload =
      (if w.asynchronous then asynchronous else "").toUTF8.data := by
    show (if w.asynchronous then asynchronous.toUTF8.data else #[]) = _
    cases w.asynchronous <;> rfl
  rw [Message.textValue, hpayload, Message.decodeLossy_toUTF8]

/-- A response is found again in its message. -/
theorem ofMessage_response {response : Response} (h : response.Writable) :
    Response.ofMessage response.toMessage = .ok response := by
  cases response with
  | poison reason =>
    have htext : (Response.poison reason).toMessage.textValue = reason := Message.textValue_text ..
    show Except.ok (Response.poison (Response.poison reason).toMessage.textValue) = _
    rw [htext]
  | welcome w =>
    obtain ⟨hcomma, htrimmed⟩ := h
    have hhost : hostnameIn (Response.welcome w).toMessage.sourceAux = w.hostname :=
      hostnameIn_entry hcomma htrimmed
    have hword : sameWord (Response.welcome w).toMessage.textValue.toList asynchronous.toList =
        w.asynchronous := by
      rw [textValue_welcome]
      cases w.asynchronous <;> decide
    show Except.ok (Response.welcome {
      skew := w.skew
      asynchronous := sameWord (Response.welcome w).toMessage.textValue.toList asynchronous.toList
      hostname := hostnameIn (Response.welcome w).toMessage.sourceAux
      community := w.community }) = _
    rw [hhost, hword]

/-! ## The exchange -/

/-- A client's request with a name is read as this request, and a server's response whose hostname
can stand in an entry as this response, if the reader's limit and an `i32` admit the length of its
message. What comes behind it stays on the stream. -/
theorem opening_roundtrip (limit : Nat) (rest : List UInt8) (closed : Bool) :
    (∀ r : Request, r.name ≠ "" → r.toMessage.encodedLength ≤ limit →
      r.toMessage.encodedLength ≤ Packet.greatestLength →
      ∃ m, Stream.readMessage limit { bytes := r.toMessage.encode ++ rest, closed } =
          .done m { bytes := rest, closed } ∧
        Request.ofMessage m = .ok r) ∧
    ∀ response : Response, response.Writable → response.toMessage.encodedLength ≤ limit →
      response.toMessage.encodedLength ≤ Packet.greatestLength →
      ∃ m, Stream.readMessage limit { bytes := response.toMessage.encode ++ rest, closed } =
          .done m { bytes := rest, closed } ∧
        Response.ofMessage m = .ok response := by
  have hread (m : Message) (hlimit : m.encodedLength ≤ limit)
      (hle : m.encodedLength ≤ Packet.greatestLength) :
      Stream.readMessage limit { bytes := m.encode ++ rest, closed } =
        .done m { bytes := rest, closed } :=
    Stream.readMessage_append m.spelled_encode hlimit (Packet.stated_of_le hle) rest closed
  exact ⟨fun r hname hlimit hle => ⟨_, hread _ hlimit hle, ofMessage_request hname⟩,
    fun response h hlimit hle => ⟨_, hread _ hlimit hle, ofMessage_response h⟩⟩

/-- A client whose name is not ASCII and whose time is no number. -/
def timelessRequest : Request := { name := "pÄ→, =", asynchronous := true, time := 0.0 / 0.0 }

/-- A welcome whose hostname has a blank and an equals sign in it. -/
def spacedWelcome : Welcome :=
  { skew := -0.25, asynchronous := true, hostname := "a b=10.0.0.1", community := "#1, é" }

/-- With limits that they just meet, the request and the responses are read back in front of half a
token. -/
theorem opening_roundtrip_timelessRequest :
    (timelessRequest.name ≠ "" ∧ timelessRequest.toMessage.encodedLength = 75) ∧
    (∃ m, Stream.readMessage 75
        { bytes := timelessRequest.toMessage.encode ++ token.take 16 } =
          .done m { bytes := token.take 16 } ∧
      Request.ofMessage m = .ok timelessRequest) ∧
    (Response.Writable (.welcome spacedWelcome) ∧
      (Response.welcome spacedWelcome).toMessage.encodedLength = 93) ∧
    ∃ m, Stream.readMessage 93
        { bytes := (Response.welcome spacedWelcome).toMessage.encode ++ token.take 16 } =
          .done m { bytes := token.take 16 } ∧
      Response.ofMessage m = .ok (.welcome spacedWelcome) := by
  have hname : timelessRequest.name ≠ "" := by decide
  have hlength : timelessRequest.toMessage.encodedLength = 75 := by decide +kernel
  have hwritable : Response.Writable (.welcome spacedWelcome) := by decide +kernel
  have hlength' : (Response.welcome spacedWelcome).toMessage.encodedLength = 93 := by
    decide +kernel
  exact ⟨⟨hname, hlength⟩,
    (opening_roundtrip 75 (token.take 16) false).1 timelessRequest hname hlength.le
      (by rw [hlength]; decide),
    ⟨hwritable, hlength'⟩,
    (opening_roundtrip 93 (token.take 16) false).2 _ hwritable hlength'.le
      (by rw [hlength']; decide)⟩

end Handshake

end PubSub
