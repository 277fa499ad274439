import PubSub.Proofs.Server.Traffic

/-!
# What the broker is told of a client

The broker is told that a client has connected and that it has disconnected: its bookings. They
alternate, and a client that the broker takes to be connected has a session, as long as no session
is reported silent before its connection has been welcomed (`Traffic.bookings_alternate`). A session
that is reported earlier ends before the event that announces it is in the queue. That event names
no generation, so nothing keeps the broker from being told of the client afterwards, and it is never
told of its end then (`Traffic.early_report_inverts_bookings`).

`Traffic.Booked` is the invariant for one client, in four cases: nobody has its name; who has it is
still to be welcomed; the event that announces it is in the queue, ahead of its end; or the broker
has been told. What is ahead in the queue is seen through `Traffic.outlook`, the bookings to come.
-/

namespace PubSub.Server

/-- Whether a call tells that the client is there, or that it has left. -/
def Call.booking? (client : String) : Call → Option Bool
  | .connect c => if c = client then some true else none
  | .disconnect c => if c = client then some false else none
  | .receive _ _ | .collect _ => none

/-- What the broker is told of a client, in order. -/
def Effect.bookings (e : Effect) (client : String) : List Bool :=
  e.calls.filterMap (Call.booking? client)

/-- What the broker will be told of a client for an event, if the given generation has the client's
name then. -/
def Event.booking? (client : String) (holder : Option Nat) : Event → Option Bool
  | .connected c => if c = client then some true else none
  | .packet _ _ _ => none
  | .closed c generation | .silent c generation =>
    if c = client ∧ holder = some generation then some false else none

theorem Effect.bookings_append (e f : Effect) (client : String) :
    (e ++ f).bookings client = e.bookings client ++ f.bookings client :=
  List.filterMap_append

/-- What a single call tells. -/
theorem Effect.bookings_singleton (call : Call) (ended : List Nat) (client : String) :
    Effect.bookings { calls := [call], ended } client = (call.booking? client).toList := by
  rw [Effect.bookings, List.filterMap_cons]
  cases call.booking? client <;> rfl

theorem Effect.Quiet.bookings {e : Effect} (h : e.Quiet) (client : String) :
    e.bookings client = [] :=
  h.filterMap_calls (fun _ _ => rfl) fun _ => rfl

/-- An event of another generation than the one that has the name is not told of. -/
theorem Event.booking?_of_stale {e : Event} {client c : String} {generation : Nat}
    {holder : Option Nat} (he : e.origin? = some (c, generation))
    (h : c = client → holder ≠ some generation) : e.booking? client holder = none := by
  cases e with
  | connected => cases he
  | packet => rfl
  | closed | silent =>
    cases he
    exact if_neg fun hboth => h hboth.1 hboth.2

/-- What is told of a client whose name nobody has is told in any case. -/
theorem Event.booking?_none {e : Event} {client : String} {b : Bool}
    (h : e.booking? client none = some b) (holder : Option Nat) :
    b = true ∧ e.booking? client holder = some true := by
  cases e with
  | connected c =>
    obtain ⟨hc, rfl⟩ := (Option.ite_none_right_eq_some.1 h).imp_right Option.some.inj
    exact ⟨rfl, if_pos hc⟩
  | packet => cases h
  | closed | silent =>
    obtain ⟨⟨-, hholder⟩, -⟩ := Option.ite_none_right_eq_some.1 h
    cases hholder

/-- What is told of a client once a generation has its name, which no event in the queue is of, is
told before too. -/
theorem Event.booking?_of_new {e : Event} {client : String} {generation : Nat}
    (h : e.booking? client none = none) (he : e.origin? ≠ some (client, generation)) :
    e.booking? client (some generation) = none := by
  cases e with
  | connected => exact h
  | packet => rfl
  | closed c k | silent c k =>
    refine if_neg ?_
    rintro ⟨rfl, hk⟩
    cases hk
    exact he rfl

/-- What is told of a client from one state of the broker to the next: nothing, or that it is there
now and was not before, or the other way round. -/
def Effect.Turns (e : Effect) (client : String) (before after : Bool) : Prop :=
  e.bookings client = [] ∧ after = before ∨ e.bookings client = [after] ∧ before ≠ after

/-- Whether the broker takes a client to be connected. -/
def present (s : Server) (client : String) : Bool := s.broker.clients.contains client

/-- What the handling of an event is for one client: the booking that was to come of it, what is
told, and before and after it who has the name and whether the broker takes the client to be
connected. -/
inductive Told (booking : Option Bool) (told : List Bool) (holder holder' : Option Nat)
    (on on' : Bool) : Prop
  | nothing (booking : booking = none) (told : told = []) (holder : holder' = holder)
      (on : on' = on)
  | arrival (booking : booking = some true) (told : told = [true]) (holder : holder' = holder)
      (on : on' = true)
  | departure (booking : booking = some false) (told : told = [false]) (holder : holder' = none)
      (on : on' = false)

theorem present_add {s t : Server} {client c : String}
    (h : t.broker.clients = s.broker.clients.add c) :
    t.present client = if client = c then true else s.present client := by
  rw [present, h, Table.contains, NameSet.add, Table.get?_insert]
  split <;> rfl

theorem present_erase {s t : Server} {client c : String}
    (h : t.broker.clients = s.broker.clients.erase c) :
    t.present client = if client = c then false else s.present client := by
  rw [present, h, Table.contains, Table.get?_erase]
  split <;> rfl

/-- The events behind the one that is handled make no difference. -/
theorem Handled.told {s t : Server} {e : Event} {events : List Event} {effect : Effect}
    (h : Handled { s with events } e effect t) (client : String) :
    Told (e.booking? client (s.holder? client)) (effect.bookings client) (s.holder? client)
      (t.holder? client) (s.present client) (t.present client) := by
  cases h with
  | connected c broker clients =>
    have hbookings : Effect.bookings { calls := [.connect c] } client =
        (if c = client then some true else none).toList := Effect.bookings_singleton ..
    have hpresent : present { s with events, broker } client =
        if client = c then true else s.present client := present_add clients
    by_cases hc : c = client
    · rw [if_pos hc] at hbookings
      exact .arrival (if_pos hc) hbookings rfl (hpresent.trans (if_pos hc.symm))
    · rw [if_neg hc] at hbookings
      exact .nothing (if_neg hc) hbookings rfl (hpresent.trans (if_neg (Ne.symm hc)))
  | stale e c generation origin holder =>
    exact .nothing (Event.booking?_of_stale origin fun hc => hc ▸ holder) rfl rfl rfl
  | packet c generation p effect t holder quiet alike =>
    exact .nothing rfl (quiet.bookings client) (alike.holders client)
      (congrArg (Table.contains · client) alike.clients)
  | ended e c generation t event holder holders _ _ clients =>
    have hbooking : e.booking? client (s.holder? client) =
        if c = client ∧ s.holder? client = some generation then some false else none := by
      obtain rfl | rfl := event <;> rfl
    have hbookings : Effect.bookings { calls := [.disconnect c], ended := [generation] } client =
        (if c = client then some false else none).toList := Effect.bookings_singleton ..
    by_cases hc : c = client
    · subst hc
      rw [if_pos rfl] at hbookings
      exact .departure (hbooking.trans (if_pos ⟨rfl, holder⟩)) hbookings
        ((holders c).trans (if_pos rfl)) ((present_erase clients).trans (if_pos rfl))
    · rw [if_neg hc] at hbookings
      exact .nothing (hbooking.trans (if_neg fun hboth => hc hboth.1)) hbookings
        ((holders client).trans (if_neg (Ne.symm hc)))
        ((present_erase clients).trans (if_neg (Ne.symm hc)))

namespace Traffic

variable {t u : Traffic} {a : Action} {actions : List Action} {effect : Effect} {client : String}
  {on : Bool} {g : Nat}

/-- What the broker will be told of a client for the events in the queue, if no others come. -/
def outlook (t : Traffic) (client : String) : List Bool :=
  t.server.events.filterMap (Event.booking? client (t.server.holder? client))

/-- How the bookings of a client stand: whether the broker takes it to be connected, and what the
broker will be told next. -/
inductive Booked (t : Traffic) (client : String) : Bool → Prop
  | away (free : t.server.holder? client = none) (outlook : t.outlook client = []) :
      Booked t client false
  | awaited (g : Nat) (holder : t.server.holder? client = some g)
      (phase : t.phase? g = some .welcoming) (outlook : t.outlook client = []) :
      Booked t client false
  | announced (g : Nat) (rest : List Bool) (holder : t.server.holder? client = some g)
      (phase : t.phase? g ≠ some .welcoming) (outlook : t.outlook client = true :: rest)
      (once : true ∉ rest) : Booked t client false
  | present (g : Nat) (holder : t.server.holder? client = some g)
      (phase : t.phase? g ≠ some .welcoming) (once : true ∉ t.outlook client) :
      Booked t client true

/-- The invariant for one client. A connection with the client's name that is to be welcomed still
has the session that it has been given. -/
structure Steady (t : Traffic) (client : String) : Prop where
  sound : t.Sound
  welcoming : ∀ g r, t.connections[g]? = some (r, .welcoming) → r.name = client →
    t.server.holder? client = some g
  booked : t.Booked client (t.server.present client)

/-- The search reports a session whose connection has not been welcomed yet. -/
def Hasty (t : Traffic) : Action → Prop
  | .reportSilence => t.noticed.head?.bind (fun n => t.phase? n.2) = some .welcoming
  | _ => False

instance (t : Traffic) : (a : Action) → Decidable (t.Hasty a)
  | .reportSilence => inferInstanceAs (Decidable (_ = _))
  | .request _ | .enroll _ | .welcome _ _ | .packet _ _ | .close _ | .checkSilence | .dispatch
  | .elapse _ => inferInstanceAs (Decidable False)

/-- No session is reported silent before its connection has been welcomed. -/
def Patient (t : Traffic) : List Action → Prop
  | [] => True
  | a :: actions => ¬ t.Hasty a ∧ ∀ v ∈ (t.act? a).map (·.2), v.Patient actions

instance instDecidablePatient :
    (t : Traffic) → (actions : List Action) → Decidable (t.Patient actions)
  | _, [] => inferInstanceAs (Decidable True)
  | t, a :: actions =>
    have (v : Traffic) := instDecidablePatient v actions
    inferInstanceAs (Decidable (¬ t.Hasty a ∧ ∀ v ∈ (t.act? a).map (·.2), v.Patient actions))

theorem steady_start (config : Config) (brokerConfig : Broker.Config) (clock : Clock)
    (client : String) : (start config (.start brokerConfig clock.now) clock).Steady client where
  sound := sound_start ..
  welcoming g r h := by cases h
  booked := .away rfl rfl

/-! ## Steps that call nobody -/

/-- An event is put behind the others. -/
theorem outlook_post (t : Traffic) (e : Event) (client : String) :
    ({ t with server := t.server.post e } : Traffic).outlook client =
      t.outlook client ++ (e.booking? client (t.server.holder? client)).toList := by
  rw [outlook, outlook, post, List.filterMap_append]
  rfl

/-- The holder stays, and so does whether it is to be welcomed, and at most its end comes into the
queue, which is behind its announcement. -/
theorem Booked.of_behind (hb : t.Booked client on) (more : List Bool)
    (hholder : u.server.holder? client = t.server.holder? client)
    (hphase : ∀ g, t.server.holder? client = some g →
      (u.phase? g = some .welcoming ↔ t.phase? g = some .welcoming))
    (houtlook : u.outlook client = t.outlook client ++ more)
    (hmore : more = [] ∨ true ∉ more ∧
      ∃ g, t.server.holder? client = some g ∧ t.phase? g ≠ some .welcoming) :
    u.Booked client on := by
  cases hb with
  | away free outlook =>
    obtain rfl | ⟨-, g, hg, -⟩ := hmore
    · rw [List.append_nil] at houtlook
      exact .away (hholder.trans free) (houtlook.trans outlook)
    · rw [free] at hg
      cases hg
  | awaited g holder phase outlook =>
    obtain rfl | ⟨-, k, hk, hwelcomed⟩ := hmore
    · rw [List.append_nil] at houtlook
      exact .awaited g (hholder.trans holder) ((hphase g holder).2 phase) (houtlook.trans outlook)
    · rw [holder] at hk
      cases hk
      exact absurd phase hwelcomed
  | announced g rest holder phase outlook once =>
    refine .announced g (rest ++ more) (hholder.trans holder) (mt (hphase g holder).1 phase) ?_ ?_
    · rw [houtlook, outlook, List.cons_append]
    · rintro hmem
      obtain hmem | hmem := List.mem_append.1 hmem
      · exact once hmem
      · obtain rfl | ⟨hnone, -⟩ := hmore
        · cases hmem
        · exact hnone hmem
  | present g holder phase once =>
    refine .present g (hholder.trans holder) (mt (hphase g holder).1 phase) ?_
    rw [houtlook]
    rintro hmem
    obtain hmem | hmem := List.mem_append.1 hmem
    · exact once hmem
    · obtain rfl | ⟨hnone, -⟩ := hmore
      · cases hmem
      · exact hnone hmem

/-- The generation that has the client's name is not the one of a connection that has no session or
another name. -/
theorem Sound.holder_ne (hs : t.Sound) (hg : t.server.holder? client = some g) {k : Nat}
    {r : Handshake.Request} {p : Phase} (hk : t.connections[k]? = some (r, p))
    (h : ¬ p.Enrolled ∨ r.name ≠ client) : k ≠ g := by
  rintro rfl
  obtain ⟨r', p', hg', hname, hp⟩ := hs.sessions client k hg
  rw [hk] at hg'
  cases hg'
  exact h.elim (fun hnot => hnot hp) fun hnot => hnot hname

/-- A connection is to be welcomed after a step if it was before, unless it has taken the step, and
then only if its packets are read. -/
theorem Step.welcoming_iff (h : t.Step a effect u) (hg : t.Enrolled client g)
    (htaker : a.generation? = some g → t.phase? g = some .reading) :
    u.phase? g = some .welcoming ↔ t.phase? g = some .welcoming := by
  obtain ⟨r, p, hr, -, -⟩ := hg
  have hp : t.phase? g = some p := phase?_eq_some_iff.2 ⟨r, hr⟩
  obtain ⟨q, hq, rfl | ⟨hgeneration, hlead⟩⟩ := h.phase hr
  · rw [hp, phase?_eq_some_iff.2 ⟨r, hq⟩]
  · rw [htaker hgeneration] at hp
    cases hp
    cases hlead
    rw [htaker hgeneration, phase?_eq_some_iff.2 ⟨r, hq⟩]
    simp

/-- Steps other than the handling of an event call nobody. -/
theorem Step.effect_eq (h : t.Step a effect u) (ha : a ≠ .dispatch) :
    effect = {} ∧ u.server.broker = t.server.broker := by
  cases h with
  | idle | handled => exact absurd rfl ha
  | requested | admitted | refused | welcomed | lost | packet | ended | searched | reported
    | elapsed => exact ⟨rfl, rfl⟩

/-- The bookings stand as before after a step that puts nothing into the queue and gives and takes
no session of the client. -/
theorem Steady.booked_same (hs : t.Steady client) (h : t.Step a effect u)
    (hevents : u.server.events = t.server.events)
    (hholder : u.server.holder? client = t.server.holder? client)
    (htaker : ∀ g, t.server.holder? client = some g → a.generation? = some g →
      t.phase? g = some .reading) : u.Booked client (t.server.present client) := by
  refine hs.booked.of_behind [] hholder (fun g hg => ?_) ?_ (.inl rfl)
  · exact h.welcoming_iff (hs.sound.sessions client g hg) (htaker g hg)
  · rw [outlook, hevents, hholder, List.append_nil, outlook]

/-- The same after one that puts an event of a connection or of the search into the queue. -/
theorem Steady.booked_post (hs : t.Steady client) (h : t.Step a effect u) {e : Event}
    (hserver : u.server = t.server.post e)
    (htaker : ∀ g, t.server.holder? client = some g → a.generation? = some g →
      t.phase? g = some .reading)
    (he : ∀ b, e.booking? client (t.server.holder? client) = some b →
      b = false ∧ ∃ g, t.server.holder? client = some g ∧ t.phase? g ≠ some .welcoming) :
    u.Booked client (t.server.present client) := by
  refine hs.booked.of_behind (e.booking? client (t.server.holder? client)).toList
    (by rw [hserver]; rfl) (fun g hg => ?_) ?_ ?_
  · exact h.welcoming_iff (hs.sound.sessions client g hg) (htaker g hg)
  · rw [← outlook_post, outlook, hserver]
    rfl
  · cases hbooking : e.booking? client (t.server.holder? client) with
    | none => exact .inl rfl
    | some b =>
      obtain ⟨rfl, hwelcomed⟩ := he b hbooking
      exact .inr ⟨by simp, hwelcomed⟩

/-! ## Sessions and welcomes -/

/-- A client whose name is free is not there, and nothing is to come for it. -/
theorem Booked.of_free (hb : t.Booked client on) (h : t.server.holder? client = none) :
    on = false ∧ t.outlook client = [] := by
  cases hb with
  | away _ outlook => exact ⟨rfl, outlook⟩
  | awaited g holder | announced g _ holder | present g holder =>
    rw [h] at holder
    cases holder

/-- Neither is one that is to be welcomed. -/
theorem Booked.of_welcoming (hb : t.Booked client on) (h : t.server.holder? client = some g)
    (hg : t.phase? g = some .welcoming) : on = false ∧ t.outlook client = [] := by
  cases hb with
  | away free =>
    rw [h] at free
    cases free
  | awaited _ _ _ outlook => exact ⟨rfl, outlook⟩
  | announced k _ holder phase | present k holder phase =>
    rw [h] at holder
    cases holder
    exact absurd hg phase

/-- Nothing is to come for a client that has lost its name, if it is not to be announced. -/
theorem outlook_of_free (h : u.server.holder? client = none)
    (hevents : ∀ e ∈ u.server.events, e ∈ t.server.events) (honce : true ∉ t.outlook client) :
    u.outlook client = [] := by
  refine List.filterMap_eq_nil_iff.2 fun e he => ?_
  rw [h]
  cases hbooking : e.booking? client none with
  | none => rfl
  | some b =>
    obtain ⟨-, htrue⟩ := Event.booking?_none hbooking (t.server.holder? client)
    exact absurd (List.mem_filterMap.2 ⟨e, hevents e he, htrue⟩) honce

/-- A connection gets its session: the client is to be welcomed. -/
theorem Steady.booked_admitted (hs : t.Steady client) {k : Nat} {r : Handshake.Request}
    (hk : t.connections[k]? = some (r, .asking)) (hfree : t.server.holder? client = none)
    (hholder : u.server.holder? client = some k) (hevents : u.server.events = t.server.events)
    (hphase : u.phase? k = some .welcoming) : u.Booked client (t.server.present client) := by
  obtain ⟨hon, houtlook⟩ := hs.booked.of_free hfree
  rw [hon]
  refine .awaited k hholder hphase (List.filterMap_eq_nil_iff.2 fun e he => ?_)
  rw [hevents] at he
  rw [hholder]
  refine Event.booking?_of_new ?_ fun horigin => ?_
  · rw [outlook, hfree] at houtlook
    exact List.filterMap_eq_nil_iff.1 houtlook e he
  · exact not_enrolled hk not_false client (hs.sound.events e he client k horigin)

/-- Its connection is welcomed: the client is announced. -/
theorem Steady.booked_welcomed (hs : t.Steady client) {k : Nat} {r : Handshake.Request}
    (hk : t.connections[k]? = some (r, .welcoming)) (hname : r.name = client)
    (hserver : u.server = t.server.post (.connected r.name))
    (hphase : u.phase? k = some .reading) : u.Booked client (t.server.present client) := by
  have hholder := hs.welcoming k r hk hname
  obtain ⟨hon, houtlook⟩ := hs.booked.of_welcoming hholder (phase?_eq_some_iff.2 ⟨r, hk⟩)
  rw [hon]
  refine .announced k [] (by rw [hserver]; exact hholder) (by rw [hphase]; simp) ?_
    List.not_mem_nil
  rw [outlook, hserver]
  refine (outlook_post t (.connected r.name) client).trans ?_
  rw [houtlook, Event.booking?, if_pos hname]
  rfl

/-- Its connection cannot be welcomed, and its session is gone again. -/
theorem Steady.booked_lost (hs : t.Steady client) {k : Nat} {r : Handshake.Request}
    (hk : t.connections[k]? = some (r, .welcoming)) (hname : r.name = client)
    (hfree : u.server.holder? client = none) (hevents : u.server.events = t.server.events) :
    u.Booked client (t.server.present client) := by
  have hholder := hs.welcoming k r hk hname
  obtain ⟨hon, houtlook⟩ := hs.booked.of_welcoming hholder (phase?_eq_some_iff.2 ⟨r, hk⟩)
  rw [hon]
  refine .away hfree (outlook_of_free hfree (t := t) (fun e he => hevents ▸ he) ?_)
  rw [houtlook]
  exact List.not_mem_nil

/-- The bookings stand as they should after a step that calls nobody. -/
theorem Step.booked (h : t.Step a effect u) (hs : t.Steady client) (hp : ¬ t.Hasty a)
    (ha : a ≠ .dispatch) : u.Booked client (t.server.present client) := by
  have hstep := h
  cases h with
  | idle | handled => exact absurd rfl ha
  | requested | searched | elapsed =>
    exact hs.booked_same hstep rfl rfl fun g hg hgeneration => by cases hgeneration
  | refused k r hk =>
    exact hs.booked_same hstep rfl rfl fun g hg hgeneration =>
      absurd (Option.some.inj hgeneration) (hs.sound.holder_ne hg hk (.inl not_false))
  | packet k p r hk =>
    refine hs.booked_post hstep rfl (fun g hg hgeneration => ?_) fun b hb => by cases hb
    cases hgeneration
    exact phase?_eq_some_iff.2 ⟨r, hk⟩
  -- the end of the client comes into the queue only after its welcome: its packets are read, or the
  -- search is patient
  | ended k r hk =>
    have hreading : t.phase? k = some .reading := phase?_eq_some_iff.2 ⟨r, hk⟩
    refine hs.booked_post hstep rfl (fun g hg hgeneration => ?_) fun b hb => ?_
    · cases hgeneration
      exact hreading
    · obtain ⟨⟨-, hholder⟩, rfl⟩ := (Option.ite_none_right_eq_some.1 hb).imp_right Option.some.inj
      exact ⟨rfl, k, hholder, by rw [hreading]; simp⟩
  | reported c k noticed found =>
    refine hs.booked_post hstep rfl (fun g hg hgeneration => by cases hgeneration) fun b hb => ?_
    obtain ⟨⟨-, hholder⟩, rfl⟩ := (Option.ite_none_right_eq_some.1 hb).imp_right Option.some.inj
    refine ⟨rfl, k, hholder, fun hwelcoming => hp ?_⟩
    rw [Hasty, found]
    exact hwelcoming
  | admitted k r sessions hk free holders =>
    by_cases hname : client = r.name
    · exact hs.booked_admitted hk (hname ▸ free) ((holders client).trans (if_pos hname)) rfl
        (phase?_eq_some_iff.2 ⟨r, getElem?_setPhase_self hk _⟩)
    · refine hs.booked_same hstep rfl ?_ fun g hg hgeneration =>
        absurd (Option.some.inj hgeneration) (hs.sound.holder_ne hg hk (.inl not_false))
      exact (holders client).trans (if_neg hname)
  | welcomed k r hk =>
    by_cases hname : r.name = client
    · exact hs.booked_welcomed hk hname rfl
        (phase?_eq_some_iff.2 ⟨r, getElem?_setPhase_self hk _⟩)
    · refine hs.booked_post hstep rfl (fun g hg hgeneration =>
        absurd (Option.some.inj hgeneration) (hs.sound.holder_ne hg hk (.inr hname))) fun b hb => ?_
      exact absurd (Option.ite_none_right_eq_some.1 hb).1 hname
  | lost k r sessions hk holders =>
    by_cases hname : r.name = client
    · have hholder := hs.welcoming k r hk hname
      exact hs.booked_lost hk hname
        ((holders client).trans (if_pos ⟨hname.symm, hname ▸ hholder⟩)) rfl
    · refine hs.booked_same hstep rfl ?_ fun g hg hgeneration =>
        absurd (Option.some.inj hgeneration) (hs.sound.holder_ne hg hk (.inr hname))
      exact (holders client).trans (if_neg fun hboth => hname hboth.1.symm)

/-! ## The handling of events -/

/-- A client is announced only if it is not there. -/
theorem Booked.of_arrival (hb : t.Booked client on) {rest : List Bool}
    (h : t.outlook client = true :: rest) :
    on = false ∧ true ∉ rest ∧
      ∃ g, t.server.holder? client = some g ∧ t.phase? g ≠ some .welcoming := by
  cases hb with
  | away _ outlook | awaited _ _ _ outlook =>
    rw [outlook] at h
    cases h
  | announced g rest' holder phase outlook once =>
    rw [outlook] at h
    cases h
    exact ⟨rfl, once, g, holder, phase⟩
  | present g holder phase once =>
    rw [h] at once
    exact absurd List.mem_cons_self once

/-- The end of a client that is next in the queue is of one that is there. -/
theorem Booked.of_departure (hb : t.Booked client on) {rest : List Bool}
    (h : t.outlook client = false :: rest) : on = true ∧ true ∉ t.outlook client := by
  cases hb with
  | away _ outlook | awaited _ _ _ outlook | announced _ _ _ _ outlook =>
    rw [outlook] at h
    cases h
  | present _ _ _ once => exact ⟨rfl, once⟩

/-- The handling of an event tells of the client what was to come first. -/
theorem Steady.handled (hs : t.Steady client) {e : Event} {events : List Event} {server : Server}
    (hqueue : t.server.events = e :: events)
    (h : Handled { t.server with events } e effect server) :
    ({ t with server } : Traffic).Booked client (server.present client) ∧
      effect.Turns client (t.server.present client) (server.present client) := by
  have hlook : t.outlook client = (e.booking? client (t.server.holder? client)).toList ++
      events.filterMap (Event.booking? client (t.server.holder? client)) := by
    rw [outlook, hqueue, List.filterMap_cons]
    cases e.booking? client (t.server.holder? client) <;> rfl
  have hnext (hholder : server.holder? client = t.server.holder? client) :
      ({ t with server } : Traffic).outlook client =
        events.filterMap (Event.booking? client (t.server.holder? client)) := by
    rw [outlook, h.events, hholder]
  cases h.told client with
  | nothing booking told holder on =>
    refine ⟨?_, .inl ⟨told, on⟩⟩
    rw [on]
    refine hs.booked.of_behind [] holder (fun g _ => Iff.rfl) ?_ (.inl rfl)
    rw [hnext holder, hlook, booking, List.append_nil]
    rfl
  | arrival booking told holder on =>
    rw [booking] at hlook
    obtain ⟨hon, honce, g, hg, hphase⟩ := hs.booked.of_arrival hlook
    rw [on, hon]
    refine ⟨.present g (holder.trans hg) hphase ?_, .inr ⟨told, Bool.false_ne_true⟩⟩
    rw [hnext holder]
    exact honce
  | departure booking told holder on =>
    rw [booking] at hlook
    obtain ⟨hon, honce⟩ := hs.booked.of_departure hlook
    rw [on, hon]
    refine ⟨.away holder (outlook_of_free holder (fun e' he => ?_) honce),
      .inr ⟨told, Bool.false_ne_true.symm⟩⟩
    have hevents : server.events = events := h.events
    rw [hqueue]
    exact List.mem_cons_of_mem e (hevents ▸ he)

/-- The client's name stays with the connection that is to be welcomed, since no end of it is in the
queue. -/
theorem Steady.holder?_handled (hs : t.Steady client) {e : Event} {events : List Event}
    {server : Server} (hqueue : t.server.events = e :: events)
    (h : Handled { t.server with events } e effect server)
    (hholder : t.server.holder? client = some g) (hg : t.phase? g = some .welcoming) :
    server.holder? client = some g := by
  cases h.told client with
  | nothing _ _ holder | arrival _ _ holder => exact holder.trans hholder
  | departure booking =>
    obtain ⟨-, houtlook⟩ := hs.booked.of_welcoming hholder hg
    rw [outlook, hqueue, List.filterMap_cons, booking] at houtlook
    cases houtlook

/-- A connection that is to be welcomed has just got the client's name, or has kept it: only its own
failed welcome or its end could take it away. -/
theorem Step.welcoming (h : t.Step a effect u) (hs : t.Steady client) {r : Handshake.Request}
    (hg : u.connections[g]? = some (r, .welcoming)) (hname : r.name = client) :
    u.server.holder? client = some g := by
  cases h with
  | requested r' =>
    rw [List.getElem?_append] at hg
    split at hg
    · exact hs.welcoming g r hg hname
    · cases List.mem_singleton.1 (List.mem_of_getElem? hg)
  | admitted k r' sessions hk free holders =>
    obtain ⟨rfl, -, p, hr⟩ | ⟨hne, hr⟩ := of_getElem?_setPhase hg
    · rw [hk] at hr
      cases hr
      exact (holders client).trans (if_pos hname.symm)
    · have hholder := hs.welcoming g r hr hname
      refine (holders client).trans ((if_neg fun heq => ?_).trans hholder)
      rw [← heq, hholder] at free
      cases free
  | refused | welcomed | ended =>
    obtain ⟨-, hq, -⟩ | ⟨-, hr⟩ := of_getElem?_setPhase hg
    · cases hq
    · exact hs.welcoming g r hr hname
  | lost k r' sessions hk holders =>
    obtain ⟨-, hq, -⟩ | ⟨hne, hr⟩ := of_getElem?_setPhase hg
    · cases hq
    · have hholder := hs.welcoming g r hr hname
      refine (holders client).trans ((if_neg ?_).trans hholder)
      rintro ⟨rfl, hlost⟩
      rw [hlost] at hholder
      cases hholder
      exact hne rfl
  | handled e events effect server queue hhandled =>
    exact hs.holder?_handled queue hhandled (hs.welcoming g r hg hname)
      (phase?_eq_some_iff.2 ⟨r, hg⟩)
  | packet | searched | reported | idle | elapsed => exact hs.welcoming g r hg hname

/-- A step keeps the invariant, and the broker is told of the client only what is new to it. -/
theorem Steady.step (hs : t.Steady client) (h : t.Step a effect u) (hp : ¬ t.Hasty a) :
    u.Steady client ∧ effect.Turns client (t.server.present client) (u.server.present client) := by
  suffices hbooked : u.Booked client (u.server.present client) ∧
      effect.Turns client (t.server.present client) (u.server.present client) from
    ⟨⟨hs.sound.step h, fun _ _ => h.welcoming hs, hbooked.1⟩, hbooked.2⟩
  by_cases ha : a = .dispatch
  · subst ha
    cases h with
    | idle => exact ⟨hs.booked, .inl ⟨rfl, rfl⟩⟩
    | handled e events effect server queue hhandled => exact hs.handled queue hhandled
  · obtain ⟨rfl, hbroker⟩ := h.effect_eq ha
    have hsame : u.server.present client = t.server.present client := by
      rw [present, hbroker, present]
    rw [hsame]
    exact ⟨h.booked hs hp ha, .inl ⟨rfl, rfl⟩⟩

/-! ## Runs -/

theorem Steady.run (hs : t.Steady client) (h : t.Run actions effect u) (hp : t.Patient actions) :
    u.Steady client ∧
      (t.server.present client :: effect.bookings client).IsChain (· ≠ ·) := by
  induction h with
  | nil => exact ⟨hs, .singleton _⟩
  | cons act rest ih =>
    obtain ⟨hhead, htail⟩ := hp
    obtain ⟨hv, htold⟩ := hs.step (step_of_act? act) hhead
    obtain ⟨hu, hchain⟩ := ih hv (htail _ (by rw [act]; rfl))
    refine ⟨hu, ?_⟩
    rw [Effect.bookings_append]
    obtain ⟨hnone, hsame⟩ | ⟨hone, hne⟩ := htold
    · rw [hnone, List.nil_append, ← hsame]
      exact hchain
    · rw [hone, List.singleton_append]
      exact List.isChain_cons_cons.2 ⟨hne, hchain⟩

/-- If no session is reported silent before its connection has been welcomed, the broker is told of
each client in turn that it is there and that it has left, first that it is there, and a client that
the broker takes to be connected has a session. -/
theorem bookings_alternate (config : Config) (brokerConfig : Broker.Config) (clock : Clock)
    (actions : List Action) (effect : Effect) (t : Traffic)
    (h : (start config (.start brokerConfig clock.now) clock).run? actions = some (effect, t))
    (hp : (start config (.start brokerConfig clock.now) clock).Patient actions) (client : String) :
    (false :: effect.bookings client).IsChain (· ≠ ·) ∧
      (t.server.broker.clients.contains client = true →
        t.server.sessions.contains client = true) := by
  obtain ⟨hs, hchain⟩ := (steady_start config brokerConfig clock client).run (run_of_run? h) hp
  refine ⟨hchain, fun hpresent => ?_⟩
  have hb := hs.booked
  rw [present, hpresent] at hb
  cases hb with
  | present g holder => exact contains_sessions_iff.2 ⟨g, holder⟩

/-- The client `A` is found silent after it has been welcomed, its connection ends as well, and it
connects again. -/
def patientRun : List Action := [
  .request ⟨"A", false, 0.0⟩, .enroll 0, .welcome 0 true,
  .elapse (.ofSeconds 6), .checkSilence, .reportSilence, .close 0,
  .dispatch, .dispatch,
  .request ⟨"A", false, 6.0⟩, .enroll 1, .welcome 1 true,
  .dispatch, .dispatch]

theorem bookings_alternate_patientRun :
    ∃ effect t, startZero.run? patientRun = some (effect, t) ∧ startZero.Patient patientRun ∧
      effect.bookings "A" = [true, false, true] ∧
      (false :: effect.bookings "A").IsChain (· ≠ ·) ∧
      t.server.broker.clients.contains "A" = true ∧ t.server.sessions.contains "A" = true := by
  obtain ⟨effect, t, h, hbookings, hpresent⟩ := exists_run startZero patientRun
    (fun effect t => effect.bookings "A" = [true, false, true] ∧
      t.server.broker.clients.contains "A" = true) (by decide +kernel)
  have hp : startZero.Patient patientRun := by decide +kernel
  obtain ⟨hchain, hsession⟩ := bookings_alternate { address := "", community := "#1" }
    (.ofCommunity "#1") { start := 0.0 } patientRun effect t h hp "A"
  exact ⟨effect, t, h, hp, hbookings, hchain, hpresent, hsession hpresent⟩

/-- The client `A` is found silent before it is welcomed, and is reported before the event that
announces it is in the queue. Later its connection ends. -/
def hastyRun : List Action := [
  .request ⟨"A", false, 0.0⟩, .enroll 0,
  .elapse (.ofSeconds 6), .checkSilence, .reportSilence,
  .welcome 0 true, .dispatch, .dispatch,
  .close 0, .dispatch]

/-- The broker is told that `A` has left and then that it is there, and so `A` stays connected for
it, without a session, a connection or an event that could end it. -/
theorem early_report_inverts_bookings :
    ∃ effect t, startZero.run? hastyRun = some (effect, t) ∧
      effect.bookings "A" = [false, true] ∧
      t.server.broker.clients.contains "A" = true ∧ t.server.sessions.contains "A" = false ∧
      t.server.events = [] ∧ t.phase? 0 = some .closed :=
  exists_run startZero hastyRun (fun effect t => effect.bookings "A" = [false, true] ∧
    t.server.broker.clients.contains "A" = true ∧ t.server.sessions.contains "A" = false ∧
    t.server.events = [] ∧ t.phase? 0 = some .closed) (by decide +kernel)

end Traffic

end PubSub.Server
