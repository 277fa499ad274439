import PubSub.Proofs.Client.Mailbox
import PubSub.Proofs.Client.Run

/-!
# The ids of the messages that a client sends

A client numbers the messages that it puts into its outbox, except for its requests, which all have
the same reserved id. The numbers wrap around after 2 ^ 32 messages, so any two messages closer to
each other have different ids (`Client.ids_enqueued`). They pass over the reserved id no more than
over any other: the message numbered 2 ^ 32 - 2 has it without being a request
(`Client.numbering_reaches_requestId`).
-/

namespace PubSub.Client

/-- The end of the outbox to which a client pushes. -/
def Config.pushesTo (config : Config) : Mailbox.End := if config.newestFirst then .front else .back

/-- What a client has still to send, oldest first. -/
def unsent (c : Client) : List Message := c.config.pushesTo.oldestFirst c.outbox.messages

/-- Sends messages, one after the other. -/
def sendAll (c : Client) (now : Float) (ms : List Message) : Client :=
  ms.foldl (fun c m => c.send now m) c

/-- The messages that a client puts into its outbox as it sends some, one after the other. -/
def completed (c : Client) (now : Float) : List Message → List Message
  | [] => []
  | m :: ms => (c.complete now m).1 :: (c.send now m).completed now ms

/-- What is sent of a posted message. -/
def posted (c : Client) (m : Message) : List Message := if c.connected then [m] else []

/-- What is sent when a registration is taken back. -/
def posted.unregister (c : Client) (key : String) : List Message :=
  if c.registrations.contains key then c.posted (.double .unregister key 0.0 (-1.0)) else []

/-- The messages that a client sends in an operation. -/
def Op.sends (c : Client) : Op → List Message
  | post m => c.posted m
  | register key interval => c.posted (registerMessage key interval (-1.0))
  | unregister key => posted.unregister c key
  | registerFilter f => c.posted (filterMessage .wildcardRegister f (-1.0))
  | unregisterFilter sourcePattern keyPattern =>
    let f : Filter := { sourcePattern, keyPattern, period := 0.0 }
    if c.filters.any fun g => g.samePatterns f then
      c.posted (filterMessage .wildcardUnregister f (-1.0))
    else []
  | startMonitoring =>
    c.posted (registerMessage Broker.qualityKey 0.0 (-1.0)) ++
      c.posted (registerMessage Broker.readWriteSummaryKey 0.0 (-1.0))
  | stopMonitoring =>
    posted.unregister c Broker.qualityKey ++ posted.unregister c Broker.readWriteSummaryKey
  | send m => [m]
  | setFrequency _ | expectOverflow _ | fetch | peek _ _ | route _ | runQueues | close | accept _ _
  | takeOutgoing | recordSent _ | receive _ _ | disconnect => []

/-- The messages that a client puts into its outbox during operations, each at its time. -/
def enqueued (c : Client) : List (Float × Op) → List Message
  | [] => []
  | (now, op) :: ops => c.completed now (op.sends c) ++ (op.perform now c).enqueued ops

/-- The messages that are no requests. -/
def numbered (ms : List Message) : List Message := ms.filter (·.type ≠ .serverRequest)

/-- Ids one after the other. -/
def consecutive (first : Int32) (n : Nat) : List Int32 :=
  (List.range n).map fun i => first + Int32.ofNat i

/-! ## Sending -/

section
variable (c : Client) (now : Float) (m : Message)

theorem complete_type : (c.complete now m).1.type = m.type := by
  rw [complete]
  split <;> rfl

theorem complete_of_request (h : m.type = .serverRequest) :
    (c.complete now m).1.id = requestId ∧ (c.complete now m).2 = c := by
  simp [complete, h]

theorem complete_of_ne_request (h : m.type ≠ .serverRequest) :
    (c.complete now m).1.id = c.nextId ∧
      (c.complete now m).2 = { c with nextId := c.nextId + 1 } := by
  simp [complete, h]

theorem nextId_send : (c.send now m).nextId = (c.complete now m).2.nextId := rfl

theorem config_send : (c.send now m).config = c.config := by
  simp only [send, complete]
  split <;> rfl

theorem connected_send : (c.send now m).connected = c.connected := by
  simp only [send, complete]
  split <;> rfl

theorem registrations_send : (c.send now m).registrations = c.registrations := by
  simp only [send, complete]
  split <;> rfl

theorem outbox_send :
    (c.send now m).outbox = (c.outbox.push c.config.pushesTo (c.complete now m).1).2 := by
  simp only [send, complete]
  split <;> (simp only [enqueue, Config.pushesTo]; split <;> rfl)

theorem unsent_send :
    (c.send now m).unsent = c.unsent.drop c.outbox.excess ++ [(c.complete now m).1] := by
  rw [unsent, config_send, outbox_send, Mailbox.oldestFirst_push, unsent]

@[simp] theorem mem_unsent {x : Message} : x ∈ c.unsent ↔ x ∈ c.outbox.messages :=
  Mailbox.End.mem_oldestFirst _

/-- Nothing else is put into the outbox. -/
theorem mem_outbox_send {x : Message} (hx : x ∈ (c.send now m).outbox.messages) :
    x ∈ c.outbox.messages ∨ x = (c.complete now m).1 := by
  rw [← mem_unsent, unsent_send, List.mem_append, List.mem_singleton] at hx
  exact hx.imp_left fun h => (mem_unsent c).1 (List.mem_of_mem_drop h)

end

section
variable (c : Client) (now : Float)

theorem sendAll_append (ms ms' : List Message) :
    c.sendAll now (ms ++ ms') = (c.sendAll now ms).sendAll now ms' := List.foldl_append

/-- What a client remembers does not matter to what it sends, nor the other way round. -/
theorem sendAll_kept (ms : List Message) : (c.sendAll now ms).connected = c.connected ∧
    (c.sendAll now ms).registrations = c.registrations := by
  induction ms generalizing c with
  | nil => exact ⟨rfl, rfl⟩
  | cons m ms ih =>
    obtain ⟨hconnected, hregistrations⟩ := ih (c.send now m)
    exact ⟨hconnected.trans (connected_send c now m),
      hregistrations.trans (registrations_send c now m)⟩

theorem mem_outbox_sendAll {ms : List Message} {x : Message}
    (hx : x ∈ (c.sendAll now ms).outbox.messages) :
    x ∈ c.outbox.messages ∨ x ∈ c.completed now ms := by
  induction ms generalizing c with
  | nil => exact .inl hx
  | cons m ms ih =>
    rcases ih (c.send now m) hx with hx | hx
    · rcases mem_outbox_send c now m hx with hx | rfl
      · exact .inl hx
      · exact .inr List.mem_cons_self
    · exact .inr (List.mem_cons_of_mem _ hx)

theorem id_of_request {ms : List Message} {x : Message} (hx : x ∈ c.completed now ms)
    (htype : x.type = .serverRequest) : x.id = requestId := by
  induction ms generalizing c with
  | nil => cases hx
  | cons m ms ih =>
    rcases List.mem_cons.1 hx with rfl | hx
    · exact (complete_of_request c now m ((complete_type ..).symm.trans htype)).1
    · exact ih (c.send now m) hx

end

/-! ## Numbers -/

theorem numbered_append (ms ms' : List Message) :
    numbered (ms ++ ms') = numbered ms ++ numbered ms' := List.filter_append ..

theorem consecutive_add (first : Int32) (m n : Nat) :
    consecutive first (m + n) =
      consecutive first m ++ consecutive (first + Int32.ofNat m) n := by
  simp [consecutive, List.range_add, Int32.add_assoc, Int32.ofNat_add]

theorem consecutive_one (first : Int32) : consecutive first 1 = [first] := by
  simp [consecutive]

/-- Some messages carry the next ids. -/
structure Numbers (c d : Client) (ms : List Message) : Prop where
  ids : (numbered ms).map (·.id) = consecutive c.nextId (numbered ms).length
  nextId : d.nextId = c.nextId + Int32.ofNat (numbered ms).length

theorem Numbers.refl (c : Client) : Numbers c c [] :=
  ⟨rfl, (Int32.add_zero _).symm⟩

theorem Numbers.trans {c d e : Client} {ms ms' : List Message} (h : Numbers c d ms)
    (h' : Numbers d e ms') : Numbers c e (ms ++ ms') where
  ids := by
    rw [numbered_append, List.map_append, h.ids, h'.ids, h.nextId, List.length_append,
      consecutive_add]
  nextId := by
    rw [h'.nextId, h.nextId, numbered_append, List.length_append, Int32.ofNat_add, Int32.add_assoc]

theorem numbers_send (c : Client) (now : Float) (m : Message) :
    Numbers c (c.send now m) [(c.complete now m).1] := by
  by_cases h : m.type = .serverRequest
  · have hnone : numbered [(c.complete now m).1] = [] :=
      List.filter_eq_nil_iff.2 (by simp [complete_type, h])
    refine ⟨by rw [hnone]; rfl, ?_⟩
    rw [hnone, nextId_send, (complete_of_request c now m h).2]
    exact (Int32.add_zero _).symm
  · have hone : numbered [(c.complete now m).1] = [(c.complete now m).1] :=
      List.filter_eq_self.2 (by simp [complete_type, h])
    obtain ⟨hid, hnext⟩ := complete_of_ne_request c now m h
    refine ⟨?_, ?_⟩
    · rw [hone, List.length_singleton, consecutive_one, List.map_singleton, hid]
    · rw [hone, nextId_send, hnext]
      rfl

theorem numbers_sendAll (c : Client) (now : Float) (ms : List Message) :
    Numbers c (c.sendAll now ms) (c.completed now ms) := by
  induction ms generalizing c with
  | nil => exact .refl c
  | cons m ms ih => exact (numbers_send c now m).trans (ih (c.send now m))

/-! ## Operations -/

/-- Two clients send the same messages in the same way. -/
structure SendsAlike (c d : Client) : Prop where
  config : d.config = c.config
  skew : d.skew = c.skew
  connected : d.connected = c.connected
  nextId : d.nextId = c.nextId
  outbox : d.outbox = c.outbox

/-- What a client has still to send, and its next id. -/
structure Keeps (c d : Client) : Prop where
  nextId : d.nextId = c.nextId
  outbox : ∀ x ∈ d.outbox.messages, x ∈ c.outbox.messages

theorem Keeps.refl (c : Client) : Keeps c c := ⟨rfl, fun _ hx => hx⟩

theorem Keeps.trans {c d e : Client} (h : Keeps c d) (h' : Keeps d e) : Keeps c e :=
  ⟨h'.nextId.trans h.nextId, fun x hx => h.outbox x (h'.outbox x hx)⟩

namespace SendsAlike

variable {c d e : Client}

theorem refl (c : Client) : SendsAlike c c := ⟨rfl, rfl, rfl, rfl, rfl⟩

theorem trans (h : SendsAlike c d) (h' : SendsAlike d e) : SendsAlike c e :=
  ⟨h'.config.trans h.config, h'.skew.trans h.skew, h'.connected.trans h.connected,
    h'.nextId.trans h.nextId, h'.outbox.trans h.outbox⟩

theorem keeps (h : SendsAlike c d) : Keeps c d := ⟨h.nextId, fun _ hx => h.outbox ▸ hx⟩

theorem complete (h : SendsAlike c d) (now : Float) (m : Message) :
    (d.complete now m).1 = (c.complete now m).1 := by
  simp only [Client.complete, time, h.config, h.skew, h.nextId]
  split <;> rfl

theorem send (h : SendsAlike c d) (now : Float) (m : Message) :
    SendsAlike (c.send now m) (d.send now m) where
  config := by rw [config_send, config_send, h.config]
  skew := by
    simp only [Client.send, Client.complete]
    split <;> exact h.skew
  connected := by
    simp only [Client.send, Client.complete]
    split <;> exact h.connected
  nextId := by
    simp only [nextId_send, Client.complete]
    split <;> simp [h.nextId]
  outbox := by rw [outbox_send, outbox_send, h.complete, h.outbox, h.config]

theorem sendAll (h : SendsAlike c d) (now : Float) (ms : List Message) :
    SendsAlike (c.sendAll now ms) (d.sendAll now ms) := by
  induction ms generalizing c d with
  | nil => exact h
  | cons m ms ih => exact ih (h.send now m)

theorem post (h : SendsAlike c d) (now : Float) (m : Message) :
    SendsAlike (c.sendAll now (c.posted m)) (d.post now m).2 := by
  rw [posted, Client.post, h.connected]
  split
  · exact h.send now m
  · exact h

theorem register (h : SendsAlike c d) (key : String) (interval now : Float) :
    SendsAlike (c.sendAll now (c.posted (registerMessage key interval (-1.0))))
      (d.register now key interval) := by
  have hremembered :
      SendsAlike c { d with registrations := d.registrations.insert key interval } := { h with }
  exact hremembered.post now _

theorem unregister (h : SendsAlike c d) (key : String)
    (hcontains : d.registrations.contains key = c.registrations.contains key) (now : Float) :
    SendsAlike (c.sendAll now (posted.unregister c key)) (d.unregister now key).2 := by
  rw [posted.unregister, Client.unregister, hcontains]
  split
  · have herased : SendsAlike c { d with registrations := d.registrations.erase key } := { h with }
    exact herased.post now _
  · exact h

end SendsAlike

section
variable (c : Client) (now : Float)

theorem registrations_post (m : Message) :
    (c.post now m).2.registrations = c.registrations := by
  rw [post]
  split
  · exact registrations_send c now m
  · rfl

/-- To take one registration back makes no difference to another one. -/
theorem contains_unregister {key other : String} (hne : other ≠ key) :
    (c.unregister now key).2.registrations.contains other = c.registrations.contains other := by
  rw [unregister]
  split
  · show (Client.post _ now _).2.registrations.contains other = _
    rw [registrations_post, Table.contains_erase]
    simp [hne]
  · rfl

theorem posted_sendAll (ms : List Message) (m : Message) :
    (c.sendAll now ms).posted m = c.posted m := by
  rw [posted, posted, (sendAll_kept c now ms).1]

theorem posted_unregister_sendAll (ms : List Message) (key : String) :
    posted.unregister (c.sendAll now ms) key = posted.unregister c key := by
  rw [posted.unregister, posted.unregister, posted_sendAll, (sendAll_kept c now ms).2]

theorem alike_startMonitoring :
    SendsAlike (c.sendAll now (Op.startMonitoring.sends c)) (c.startMonitoring now) := by
  obtain ⟨router, heq⟩ : ∃ router, c.startMonitoring now =
      (Client.register { c with router } now Broker.qualityKey 0.0).register now
        Broker.readWriteSummaryKey 0.0 := ⟨_, rfl⟩
  have hrouted : SendsAlike c { c with router } := { SendsAlike.refl c with }
  have h := (hrouted.register Broker.qualityKey 0.0 now).register Broker.readWriteSummaryKey 0.0 now
  rw [posted_sendAll] at h
  rw [heq, Op.sends, sendAll_append]
  exact h

theorem alike_stopMonitoring :
    SendsAlike (c.sendAll now (Op.stopMonitoring.sends c)) (c.stopMonitoring now).2 := by
  have hfirst := (SendsAlike.refl c).unregister Broker.qualityKey rfl now
  have hcontains : (c.unregister now Broker.qualityKey).2.registrations.contains
      Broker.readWriteSummaryKey =
        (c.sendAll now (posted.unregister c Broker.qualityKey)).registrations.contains
          Broker.readWriteSummaryKey := by
    rw [contains_unregister c now (by decide), (sendAll_kept c now _).2]
  have h := hfirst.unregister Broker.readWriteSummaryKey hcontains now
  rw [posted_unregister_sendAll] at h
  rw [Op.sends, sendAll_append, stopMonitoring]
  split
  · exact { h with }
  · exact h

/-- Measuring does not matter to what a client sends. -/
theorem keeps_measure (request remote reply : Float) : Keeps c (c.measure request remote reply) := by
  rw [measure]
  split
  · exact ⟨rfl, fun _ hx => hx⟩
  · exact .refl c

theorem keeps_foldl_measure (echoes : List Message) :
    Keeps c (echoes.foldl (fun c echo => c.measure echo.value echo.time now) c) := by
  induction echoes generalizing c with
  | nil => exact .refl c
  | cons echo echoes ih => exact (keeps_measure c _ _ _).trans (ih _)

theorem keeps_receive (p : Packet) (request? : Option Float) :
    Keeps c (c.receive now p request?).2 := by
  have hcounted (counters : Counters) : Keeps c { c with counters } := ⟨rfl, fun _ hx => hx⟩
  have hdelivered (d : Client) (ms : List Message) : Keeps d (d.deliver ms).2 :=
    ⟨rfl, fun _ hx => hx⟩
  simp only [receive]
  refine Keeps.trans ?_ (hdelivered ..)
  refine Keeps.trans ?_ (keeps_foldl_measure ..)
  split
  · exact (hcounted _).trans (keeps_measure ..)
  · exact hcounted _

/-- What a client does beside sending makes no difference to its ids, and puts nothing into its
outbox. -/
theorem keeps_perform (op : Op) : Keeps (c.sendAll now (op.sends c)) (op.perform now c) := by
  cases op with
  | post m => exact ((SendsAlike.refl c).post now m).keeps
  | register key interval => exact ((SendsAlike.refl c).register key interval now).keeps
  | unregister key => exact ((SendsAlike.refl c).unregister key rfl now).keeps
  | registerFilter f =>
    have h : SendsAlike c
        { c with filters := (c.filters.filter fun g => !g.samePatterns f) ++ [f] } :=
      { SendsAlike.refl c with }
    exact (h.post now _).keeps
  | unregisterFilter sourcePattern keyPattern =>
    let f : Filter := { sourcePattern, keyPattern, period := 0.0 }
    have h : SendsAlike c { c with filters := c.filters.filter fun g => !g.samePatterns f } :=
      { SendsAlike.refl c with }
    rw [Op.sends, Op.perform, unregisterFilter]
    split
    · exact (h.post now _).keeps
    · exact .refl c
  | startMonitoring => exact (alike_startMonitoring c now).keeps
  | stopMonitoring => exact (alike_stopMonitoring c now).keeps
  | send m => exact .refl _
  | takeOutgoing => exact ⟨rfl, fun _ hx => absurd hx List.not_mem_nil⟩
  | receive p request? => exact keeps_receive c now p request?
  | setFrequency _ | expectOverflow _ | fetch | peek _ _ | route _ | runQueues | close | accept _ _
  | recordSent _ | disconnect => exact ⟨rfl, fun _ hx => hx⟩

end

/-! ## Runs -/

theorem numbers_performAll (c : Client) (ops : List (Float × Op)) :
    Numbers c (performAll ops c) (c.enqueued ops) := by
  induction ops generalizing c with
  | nil => exact .refl c
  | cons o ops ih =>
    obtain ⟨now, op⟩ := o
    have hsent := numbers_sendAll c now (op.sends c)
    have hstep : Numbers c (op.perform now c) (c.completed now (op.sends c)) :=
      { hsent with nextId := (keeps_perform c now op).nextId.trans hsent.nextId }
    exact hstep.trans (ih _)

theorem mem_outbox_performAll (c : Client) (ops : List (Float × Op)) {x : Message}
    (hx : x ∈ (performAll ops c).outbox.messages) :
    x ∈ c.outbox.messages ∨ x ∈ c.enqueued ops := by
  induction ops generalizing c with
  | nil => exact .inl hx
  | cons o ops ih =>
    obtain ⟨now, op⟩ := o
    rw [enqueued, List.mem_append]
    rcases ih _ hx with hx | hx
    · have hx := (keeps_perform c now op).outbox x hx
      exact (mem_outbox_sendAll c now hx).imp_right .inl
    · exact .inr (.inr hx)

theorem id_of_mem_enqueued (c : Client) {ops : List (Float × Op)} {x : Message}
    (hx : x ∈ c.enqueued ops) (htype : x.type = .serverRequest) : x.id = requestId := by
  induction ops generalizing c with
  | nil => cases hx
  | cons o ops ih =>
    rcases List.mem_append.1 hx with hx | hx
    · exact id_of_request c o.1 hx htype
    · exact ih _ hx

theorem ofNat_eq_requestId_iff (i : Nat) :
    Int32.ofNat i = requestId ↔ i % 2 ^ 32 = 2 ^ 32 - 2 := by
  rw [← Int32.toBitVec_inj, ← BitVec.toNat_inj]
  show i % 2 ^ 32 = _ ↔ _
  rfl

/-- Numbers wrap around, so they differ if they are close. -/
theorem ofNat_ne_of_lt {i j : Nat} (hlt : i < j) (hclose : j < i + 2 ^ 32) :
    Int32.ofNat i ≠ Int32.ofNat j := by
  intro h
  rw [← Int32.toBitVec_inj, ← BitVec.toNat_inj] at h
  have h : i % 2 ^ 32 = j % 2 ^ 32 := h
  omega

/-- The messages that are no requests have one id after the other. -/
theorem id_of_numbered {config : Config} {ops : List (Float × Op)} {i : Nat} {m : Message}
    (hm : (numbered ((start config).enqueued ops))[i]? = some m) : m.id = Int32.ofNat i := by
  have hids := congrArg (·[i]?) (numbers_performAll (start config) ops).ids
  obtain ⟨hlt, -⟩ := List.getElem?_eq_some_iff.1 hm
  simp only [List.getElem?_map, hm, Option.map_some, consecutive, List.getElem?_range hlt] at hids
  exact (Option.some.inj hids).trans (Int32.zero_add _)

/-- The ids of all that a client puts into its outbox, in any operations after its start. Requests
have the reserved id. The other messages are numbered one after the other, so two of them have
different ids if they are fewer than 2 ^ 32 of them apart; one has the reserved id if and only if its
number is 2 ^ 32 - 2, but for multiples of 2 ^ 32. -/
theorem ids_enqueued (config : Config) (ops : List (Float × Op)) :
    let ms := (start config).enqueued ops
    (∀ m ∈ (performAll ops (start config)).outbox.messages, m ∈ ms) ∧
      (∀ m ∈ ms, m.type = .serverRequest → m.id = requestId) ∧
      (∀ (i : Nat) (m : Message), (numbered ms)[i]? = some m →
        m.id = Int32.ofNat i ∧ (m.id = requestId ↔ i % 2 ^ 32 = 2 ^ 32 - 2)) ∧
      ∀ (i j : Nat) (m m' : Message), (numbered ms)[i]? = some m → (numbered ms)[j]? = some m' →
        i < j → j < i + 2 ^ 32 → m.id ≠ m'.id := by
  refine ⟨fun m hm => ?_, fun m hm => id_of_mem_enqueued _ hm, fun i m hm => ?_,
    fun i j m m' hm hm' hlt hclose => ?_⟩
  · exact (mem_outbox_performAll _ ops hm).resolve_left (List.not_mem_nil)
  · rw [id_of_numbered hm]
    exact ⟨rfl, ofNat_eq_requestId_iff i⟩
  · rw [id_of_numbered hm, id_of_numbered hm']
    exact ofNat_ne_of_lt hlt hclose

/-! ## A long run -/

/-- The client `A` is welcomed and notifies of `X` again and again. -/
def notifications (n : Nat) : List (Float × Op) :=
  (0.0, .accept "" { skew := 0.0, asynchronous := true, hostname := "", community := "#1" }) ::
    List.replicate n (0.0, .post (.double .notify "X" 1.0 0.0))

theorem types_of_posts {c : Client} (h : c.connected = true) (now : Float) (m : Message) (n : Nat) :
    (c.enqueued (List.replicate n (now, .post m))).map (·.type) = List.replicate n m.type := by
  induction n generalizing c with
  | zero => rfl
  | succ n ih =>
    have hsends : (Op.post m).sends c = [m] := by rw [Op.sends, posted, h]; rfl
    have hstep : (Op.post m).perform now c = c.send now m := by rw [Op.perform, post, h]; rfl
    rw [List.replicate_succ, enqueued, hsends, hstep, completed, completed, List.singleton_append,
      List.map_cons, complete_type, ih ((connected_send c now m).trans h), List.replicate_succ]

theorem id_of_notification {n k : Nat} (h : k < n) : ∃ m : Message,
    ((start { serverAddress := "", name := "A" }).enqueued (notifications n))[k]? = some m ∧
      m.type = .notify ∧ m.id = Int32.ofNat k := by
  set ms := (start { serverAddress := "", name := "A" }).enqueued (notifications n)
  have htypes : ms.map (·.type) = List.replicate n .notify := types_of_posts rfl ..
  have hlength : ms.length = n := by
    rw [← List.length_map (·.type), htypes, List.length_replicate]
  have hnotify : ∀ m ∈ ms, m.type = .notify := fun m hm =>
    List.eq_of_mem_replicate (htypes ▸ List.mem_map_of_mem hm)
  have hall : numbered ms = ms := List.filter_eq_self.2 fun m hm => by simp [hnotify m hm]
  have hm : ms[k]? = some ms[k] := List.getElem?_eq_getElem (hlength ▸ h)
  have hnumbered : (numbered ms)[k]? = some ms[k] := by rw [hall, hm]
  exact ⟨ms[k], hm, hnotify _ (List.getElem_mem _), id_of_numbered hnumbered⟩

/-- After 2 ^ 32 - 2 messages one that is no request gets the id of the requests. -/
theorem numbering_reaches_requestId : ∃ m : Message,
    ((start { serverAddress := "", name := "A" }).enqueued (notifications (2 ^ 32 - 1)))[2 ^ 32 - 2]?
      = some m ∧ m.type = .notify ∧ m.id = requestId := by
  obtain ⟨m, hm, htype, hid⟩ := id_of_notification (n := 2 ^ 32 - 1) (k := 2 ^ 32 - 2) (by norm_num)
  exact ⟨m, hm, htype, hid.trans ((ofNat_eq_requestId_iff _).2 (by norm_num))⟩

end PubSub.Client
