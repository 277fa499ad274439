import PubSub.Proofs.Server.Sessions
import PubSub.Server.Traffic

/-!
# What each step of the traffic does

`Traffic.Step` lists the cases of `Traffic.act?`, with what holds before and what changes; the
lemmas on runs follow by cases on it and induction on the run.

A connection only ever moves on along `Phase.Leads` (`Step.phase`). So a generation that has been
given a session, for whatever client (`Traffic.Enrolled`), stays so for ever, and one that has been
rejected stays rejected. `Traffic.Sound` says that all sessions, all events in the queue and all
that the search for silent clients has found are of enrolled generations.
-/

namespace PubSub.Server

/-- The phase of a connection that has been given a session. -/
def Phase.Enrolled : Phase → Prop
  | .asking | .rejected => False
  | .welcoming | .reading | .closed => True

/-- The next phases of a connection. -/
inductive Phase.Leads : Phase → Phase → Prop
  | admitted : Leads .asking .welcoming
  | refused : Leads .asking .rejected
  | welcomed : Leads .welcoming .reading
  | lost : Leads .welcoming .closed
  | ended : Leads .reading .closed

theorem Phase.Leads.enrolled {p q : Phase} (h : p.Leads q) (hp : p.Enrolled) : q.Enrolled := by
  cases h with
  | admitted | refused => exact hp.elim
  | welcomed | lost | ended => trivial

namespace Traffic

variable {t u : Traffic} {a : Action} {actions : List Action} {effect : Effect} {client : String}
  {g : Nat} {r : Handshake.Request} {p : Phase}

/-- A generation has been given a session of a client, which it may have lost since. -/
def Enrolled (t : Traffic) (client : String) (g : Nat) : Prop :=
  ∃ r p, t.connections[g]? = some (r, p) ∧ r.name = client ∧ p.Enrolled

theorem requestIn?_eq_some_iff :
    t.requestIn? g p = some r ↔ t.connections[g]? = some (r, p) := by
  rw [requestIn?, Option.bind_eq_some_iff]
  constructor
  · rintro ⟨⟨r', p'⟩, hg, hr⟩
    obtain ⟨rfl, rfl⟩ := (Option.ite_none_right_eq_some.1 hr).imp_right Option.some.inj
    exact hg
  · intro hg
    exact ⟨(r, p), hg, if_pos rfl⟩

theorem phase?_eq_some_iff : t.phase? g = some p ↔ ∃ r, t.connections[g]? = some (r, p) := by
  rw [phase?, Option.map_eq_some_iff]
  constructor
  · rintro ⟨⟨r, q⟩, hg, rfl⟩
    exact ⟨r, hg⟩
  · rintro ⟨r, hg⟩
    exact ⟨(r, p), hg, rfl⟩

theorem getElem?_setPhase (t : Traffic) (k g : Nat) (q : Phase) :
    (t.setPhase k q).connections[g]? =
      if k = g then (t.connections[g]?).map fun c => (c.1, q) else t.connections[g]? := by
  rw [setPhase, List.getElem?_modify]
  split
  · rfl
  · exact id_map _

theorem getElem?_setPhase_self (hg : t.connections[g]? = some (r, p)) (q : Phase) :
    (t.setPhase g q).connections[g]? = some (r, q) := by
  rw [getElem?_setPhase, if_pos rfl, hg, Option.map_some]

/-- A connection after another phase of one has been set: that one, or one that is as before. -/
theorem of_getElem?_setPhase {k : Nat} {q : Phase}
    (h : (t.setPhase k q).connections[g]? = some (r, p)) :
    (k = g ∧ q = p ∧ ∃ p', t.connections[g]? = some (r, p')) ∨
      k ≠ g ∧ t.connections[g]? = some (r, p) := by
  rw [getElem?_setPhase] at h
  by_cases hk : k = g
  · rw [if_pos hk] at h
    obtain ⟨⟨r', p'⟩, hg, heq⟩ := Option.map_eq_some_iff.1 h
    cases heq
    exact .inl ⟨hk, rfl, p', hg⟩
  · rw [if_neg hk] at h
    exact .inr ⟨hk, h⟩

/-- A generation is given a session of one client only. -/
theorem Enrolled.client_eq {c : String} (h : t.Enrolled client g) (h' : t.Enrolled c g) :
    client = c := by
  obtain ⟨r, p, hg, rfl, -⟩ := h
  obtain ⟨r', p', hg', rfl, -⟩ := h'
  rw [hg] at hg'
  cases hg'
  rfl

theorem Enrolled.of_phase (hg : t.connections[g]? = some (r, p)) (hp : p.Enrolled) :
    t.Enrolled r.name g :=
  ⟨r, p, hg, rfl, hp⟩

/-- A connection that has not been given a session is not enrolled for any client. -/
theorem not_enrolled (hg : t.connections[g]? = some (r, p)) (hp : ¬ p.Enrolled) (client : String) :
    ¬ t.Enrolled client g := by
  rintro ⟨r', p', hg', -, hp'⟩
  rw [hg] at hg'
  cases hg'
  exact hp hp'

/-! ## The cases of a step -/

/-- What the steps do. -/
inductive Step (t : Traffic) : Action → Effect → Traffic → Prop
  | requested (r : Handshake.Request) :
      Step t (.request r) {} { t with
        server := { t.server with generations := t.server.generations + 1 }
        connections := t.connections ++ [(r, .asking)] }
  | admitted (g : Nat) (r : Handshake.Request) (sessions : Table Session)
      (connection : t.connections[g]? = some (r, .asking))
      (free : t.server.holder? r.name = none)
      (holders : ∀ c, holder? { t.server with sessions } c =
        if c = r.name then some g else t.server.holder? c) :
      Step t (.enroll g) {} ({ t with server := { t.server with sessions } }.setPhase g .welcoming)
  | refused (g : Nat) (r : Handshake.Request)
      (connection : t.connections[g]? = some (r, .asking)) :
      Step t (.enroll g) {} (t.setPhase g .rejected)
  | welcomed (g : Nat) (r : Handshake.Request)
      (connection : t.connections[g]? = some (r, .welcoming)) :
      Step t (.welcome g true) {}
        ({ t with server := t.server.post (.connected r.name) }.setPhase g .reading)
  | lost (g : Nat) (r : Handshake.Request) (sessions : Table Session)
      (connection : t.connections[g]? = some (r, .welcoming))
      (holders : ∀ c, holder? { t.server with sessions } c =
        if c = r.name ∧ t.server.holder? r.name = some g then none else t.server.holder? c) :
      Step t (.welcome g false) {}
        ({ t with server := { t.server with sessions } }.setPhase g .closed)
  | packet (g : Nat) (p : Packet) (r : Handshake.Request)
      (connection : t.connections[g]? = some (r, .reading)) :
      Step t (.packet g p) {} { t with server := t.server.post (.packet r.name g p) }
  | ended (g : Nat) (r : Handshake.Request)
      (connection : t.connections[g]? = some (r, .reading)) :
      Step t (.close g) {}
        ({ t with server := t.server.post (.closed r.name g) }.setPhase g .closed)
  | searched (noticed : List (String × Nat))
      (held : ∀ n ∈ noticed, t.server.holder? n.1 = some n.2) :
      Step t .checkSilence {} { t with noticed }
  | reported (client : String) (g : Nat) (noticed : List (String × Nat))
      (found : t.noticed = (client, g) :: noticed) :
      Step t .reportSilence {} { t with server := t.server.post (.silent client g), noticed }
  | idle (queue : t.server.events = []) : Step t .dispatch {} t
  | handled (e : Event) (events : List Event) (effect : Effect) (server : Server)
      (queue : t.server.events = e :: events)
      (handled : Handled { t.server with events } e effect server) :
      Step t .dispatch effect { t with server }
  | elapsed (d : Duration) : Step t (.elapse d) {} { t with clock := t.clock.advance d }

theorem act?_enroll_of_taken (hg : t.connections[g]? = some (r, .asking))
    (h : t.server.sessions.contains r.name = true) :
    t.act? (.enroll g) = some ({}, t.setPhase g .rejected) := by
  rw [act?, requestIn?_eq_some_iff.2 hg, Option.map_some, admit?_eq_none h]

theorem step_enroll (hg : t.connections[g]? = some (r, .asking))
    (h : t.act? (.enroll g) = some (effect, u)) : t.Step (.enroll g) effect u := by
  cases htaken : t.server.sessions.contains r.name with
  | true =>
    rw [act?_enroll_of_taken hg htaken] at h
    cases h
    exact .refused g r hg
  | false =>
    obtain ⟨sessions, hadmit, hholders⟩ := admit?_eq_some htaken
    rw [act?, requestIn?_eq_some_iff.2 hg, Option.map_some, hadmit] at h
    cases h
    have hfree : t.server.holder? r.name = none := by
      rw [Option.eq_none_iff_forall_ne_some]
      intro k hk
      rw [contains_sessions_iff.2 ⟨k, hk⟩] at htaken
      cases htaken
    exact .admitted g r sessions hg hfree hholders

theorem step_welcome {sent : Bool} (hg : t.connections[g]? = some (r, .welcoming))
    (h : t.act? (.welcome g sent) = some (effect, u)) : t.Step (.welcome g sent) effect u := by
  rw [act?, requestIn?_eq_some_iff.2 hg, Option.map_some] at h
  cases sent with
  | true =>
    cases h
    exact .welcomed g r hg
  | false =>
    obtain ⟨sessions, hremove⟩ := remove_eq t.server r.name g
    cases h
    rw [hremove]
    refine .lost g r sessions hg fun c => ?_
    rw [← hremove]
    exact holder?_remove t.server r.name c g

/-- Those that the search finds hold their names. -/
theorem holder?_of_mem_silentSessions {s : Server} {clock : Clock} {x : String × Session}
    (h : x ∈ s.silentSessions clock) : s.holder? x.1 = some x.2.generation :=
  holder?_eq_some_iff.2 ⟨x.2, (List.mem_filter.1 h).1, rfl⟩

theorem step_of_act? (h : t.act? a = some (effect, u)) : t.Step a effect u := by
  cases a with
  | request r =>
    cases h
    exact .requested r
  | enroll g =>
    obtain ⟨r, hr, -⟩ := Option.map_eq_some_iff.1 h
    exact step_enroll (requestIn?_eq_some_iff.1 hr) h
  | welcome g sent =>
    obtain ⟨r, hr, -⟩ := Option.map_eq_some_iff.1 h
    exact step_welcome (requestIn?_eq_some_iff.1 hr) h
  | packet g p =>
    obtain ⟨r, hr, heq⟩ := Option.map_eq_some_iff.1 h
    cases heq
    exact .packet g p r (requestIn?_eq_some_iff.1 hr)
  | close g =>
    obtain ⟨r, hr, heq⟩ := Option.map_eq_some_iff.1 h
    cases heq
    exact .ended g r (requestIn?_eq_some_iff.1 hr)
  | checkSilence =>
    obtain ⟨-, heq⟩ := Option.ite_none_right_eq_some.1 h
    cases heq
    refine .searched _ fun n hn => ?_
    obtain ⟨x, hx, rfl⟩ := List.mem_map.1 hn
    exact holder?_of_mem_silentSessions hx
  | reportSilence =>
    rw [act?] at h
    split at h
    · cases h
    · rename_i client g noticed hnoticed
      cases h
      exact .reported client g noticed hnoticed
  | dispatch =>
    cases hevents : t.server.events with
    | nil =>
      have hidle : t.act? .dispatch = some ({}, t) := by
        rw [act?, dispatch, hevents]
      rw [hidle] at h
      cases h
      exact .idle hevents
    | cons e events =>
      rw [act?, dispatch, hevents] at h
      cases h
      exact .handled e events _ _ hevents (handled _ t.clock e)
  | elapse d =>
    cases h
    exact .elapsed d

/-! ## Phases -/

theorem phase_setPhase {k : Nat} {r' : Handshake.Request} {p' q' : Phase}
    (hk : t.connections[k]? = some (r', p')) (hlead : p'.Leads q')
    (hg : t.connections[g]? = some (r, p)) :
    ∃ q, (t.setPhase k q').connections[g]? = some (r, q) ∧ (q = p ∨ k = g ∧ p.Leads q) := by
  rw [getElem?_setPhase, hg]
  by_cases h : k = g
  · subst h
    rw [hg] at hk
    cases hk
    exact ⟨q', if_pos rfl, .inr ⟨rfl, hlead⟩⟩
  · exact ⟨p, if_neg h, .inl rfl⟩

/-- A step changes the phase of the connection that takes it, if at all, and only to a next one. -/
theorem Step.phase (h : t.Step a effect u) (hg : t.connections[g]? = some (r, p)) :
    ∃ q, u.connections[g]? = some (r, q) ∧ (q = p ∨ a.generation? = some g ∧ p.Leads q) := by
  have hset {k : Nat} {r' : Handshake.Request} {p' q' : Phase} {server : Server}
      (hk : t.connections[k]? = some (r', p')) (hlead : p'.Leads q') :
      ∃ q, ({ t with server }.setPhase k q').connections[g]? = some (r, q) ∧
        (q = p ∨ some k = some g ∧ p.Leads q) := by
    obtain ⟨q, hq, hmove⟩ := phase_setPhase hk hlead hg
    exact ⟨q, hq, hmove.imp_right fun ⟨heq, hl⟩ => ⟨congrArg some heq, hl⟩⟩
  cases h with
  | requested r' =>
    obtain ⟨hlt, -⟩ := List.getElem?_eq_some_iff.1 hg
    exact ⟨p, (List.getElem?_append_left hlt).trans hg, .inl rfl⟩
  | admitted k r' sessions hk => exact hset hk .admitted
  | refused k r' hk => exact hset hk .refused
  | welcomed k r' hk => exact hset hk .welcomed
  | lost k r' sessions hk => exact hset hk .lost
  | ended k r' hk => exact hset hk .ended
  | packet | searched | reported | idle | handled | elapsed => exact ⟨p, hg, .inl rfl⟩

theorem Step.enrolled (h : t.Step a effect u) (hg : t.Enrolled client g) : u.Enrolled client g := by
  obtain ⟨r, p, hr, hname, hp⟩ := hg
  obtain ⟨q, hq, rfl | ⟨-, hlead⟩⟩ := h.phase hr
  · exact ⟨r, q, hq, hname, hp⟩
  · exact ⟨r, q, hq, hname, hlead.enrolled hp⟩

/-- A connection that has not been given a session takes no step but to ask for one. -/
theorem Step.enrolled_taker (h : t.Step a effect u) (hg : a.generation? = some g) :
    a = .enroll g ∨ ∃ client, t.Enrolled client g := by
  cases h with
  | admitted k | refused k =>
    cases hg
    exact .inl rfl
  | welcomed k r hk | lost k r _ hk | packet k _ r hk | ended k r hk =>
    cases hg
    exact .inr ⟨r.name, .of_phase hk trivial⟩
  | requested | searched | reported | idle | handled | elapsed => cases hg

/-! ## Sessions, events and what the search has found -/

/-- A name gets a new holder only when a connection is given its session. -/
theorem Step.holder? (h : t.Step a effect u) (hc : u.server.holder? client = some g) :
    t.server.holder? client = some g ∨ (∀ c, ¬ t.Enrolled c g) ∧ u.Enrolled client g := by
  cases h with
  | admitted k r sessions hk free hholders =>
    have hc := (hholders client).symm.trans hc
    by_cases hname : client = r.name
    · rw [if_pos hname] at hc
      cases hc
      exact .inr ⟨not_enrolled hk not_false, r, .welcoming, getElem?_setPhase_self hk _,
        hname.symm, trivial⟩
    · rw [if_neg hname] at hc
      exact .inl hc
  | lost k r sessions hk hholders =>
    have hc := (hholders client).symm.trans hc
    exact .inl (Option.ite_none_left_eq_some.1 hc).2
  | handled e events effect server queue hhandled => exact .inl (hhandled.holder? hc)
  | requested | refused | welcomed | packet | ended | searched | reported | idle | elapsed =>
    exact .inl hc

/-- A new event comes from an enrolled connection, or from the search. -/
theorem Step.events (h : t.Step a effect u) {e : Event} (he : e ∈ u.server.events) :
    e ∈ t.server.events ∨
      ∀ c k, e.origin? = some (c, k) → t.Enrolled c k ∨ (c, k) ∈ t.noticed := by
  have hpost {e' : Event} (he : e ∈ t.server.events ++ [e'])
      (horigin : ∀ c k, e'.origin? = some (c, k) → t.Enrolled c k ∨ (c, k) ∈ t.noticed) :
      e ∈ t.server.events ∨
        ∀ c k, e.origin? = some (c, k) → t.Enrolled c k ∨ (c, k) ∈ t.noticed := by
    obtain he | he := List.mem_append.1 he
    · exact .inl he
    · rw [List.mem_singleton.1 he]
      exact .inr horigin
  cases h with
  | welcomed k r hk => exact hpost he fun c k ho => by cases ho
  | packet k p r hk | ended k r hk =>
    refine hpost he fun c k' ho => .inl ?_
    cases ho
    exact .of_phase hk trivial
  | reported c k noticed found =>
    refine hpost he fun c' k' ho => .inr ?_
    cases ho
    rw [found]
    exact List.mem_cons_self
  | handled e' events effect server queue hhandled =>
    refine .inl ?_
    rw [queue]
    refine List.mem_cons_of_mem e' ?_
    have hevents : server.events = events := hhandled.events
    rw [← hevents]
    exact he
  | requested | admitted | refused | lost | searched | idle | elapsed => exact .inl he

/-- The search finds sessions. -/
theorem Step.noticed (h : t.Step a effect u) {n : String × Nat} (hn : n ∈ u.noticed) :
    n ∈ t.noticed ∨ t.server.holder? n.1 = some n.2 := by
  cases h with
  | searched noticed held => exact .inr (held n hn)
  | reported c k noticed found =>
    rw [found]
    exact .inl (List.mem_cons_of_mem _ hn)
  | requested | admitted | refused | welcomed | lost | packet | ended | idle | handled | elapsed =>
    exact .inl hn

/-- The generations that the sessions, the events in the queue and the search know have been given a
session of the client that they are known with, and every connection has taken a generation. -/
structure Sound (t : Traffic) : Prop where
  sessions : ∀ client g, t.server.holder? client = some g → t.Enrolled client g
  events : ∀ e ∈ t.server.events, ∀ client g, e.origin? = some (client, g) → t.Enrolled client g
  noticed : ∀ n ∈ t.noticed, t.Enrolled n.1 n.2
  numbered : t.server.generations = t.connections.length

theorem sound_start (config : Config) (broker : Broker) (clock : Clock) :
    (start config broker clock).Sound where
  sessions _ _ h := by cases h
  events _ h := by cases h
  noticed _ h := by cases h
  numbered := rfl

theorem Sound.step (hs : t.Sound) (h : t.Step a effect u) : u.Sound where
  sessions client g hc := by
    obtain hold | ⟨-, hnew⟩ := h.holder? hc
    · exact h.enrolled (hs.sessions client g hold)
    · exact hnew
  events e he client g ho := by
    obtain hold | hnew := h.events he
    · exact h.enrolled (hs.events e hold client g ho)
    · obtain henrolled | hnoticed := hnew client g ho
      · exact h.enrolled henrolled
      · exact h.enrolled (hs.noticed (client, g) hnoticed)
  noticed n hn := by
    obtain hold | hheld := h.noticed hn
    · exact h.enrolled (hs.noticed n hold)
    · exact h.enrolled (hs.sessions n.1 n.2 hheld)
  numbered := by
    have hn := hs.numbered
    cases h with
    | requested r => simp [hn]
    | admitted | refused | welcomed | lost | ended => simpa [setPhase, post] using hn
    | handled e events effect server queue hhandled => exact hhandled.generations.trans hn
    | packet | searched | reported | idle | elapsed => exact hn

/-! ## Runs -/

/-- Steps one after the other. -/
inductive Run : Traffic → List Action → Effect → Traffic → Prop
  | nil (t : Traffic) : Run t [] {} t
  | cons {t v u : Traffic} {a : Action} {actions : List Action} {e more : Effect}
      (act : t.act? a = some (e, v)) (rest : Run v actions more u) :
      Run t (a :: actions) (e ++ more) u

theorem run_of_run? (h : t.run? actions = some (effect, u)) : t.Run actions effect u := by
  induction actions generalizing t effect with
  | nil =>
    cases h
    exact .nil _
  | cons a actions ih =>
    rw [run?] at h
    obtain ⟨⟨e, v⟩, hact, h⟩ := Option.bind_eq_some_iff.1 h
    obtain ⟨⟨more, w⟩, hrun, h⟩ := Option.bind_eq_some_iff.1 h
    cases h
    exact .cons hact (ih hrun)

/-- A server that has started at time zero, for runs of fixed steps. -/
def startZero : Traffic :=
  start { address := "", community := "#1" } (.start (.ofCommunity "#1") 0.0) { start := 0.0 }

/-- A run of fixed steps exists and leads to what it is found to lead to. -/
theorem exists_run (t : Traffic) (actions : List Action) (P : Effect → Traffic → Prop)
    [∀ effect u, Decidable (P effect u)] (h : (t.run? actions).any (fun r => P r.1 r.2) = true) :
    ∃ effect u, t.run? actions = some (effect, u) ∧ P effect u := by
  obtain ⟨⟨effect, u⟩, hrun, hfacts⟩ := (Option.any_eq_true ..).1 h
  exact ⟨effect, u, hrun, of_decide_eq_true hfacts⟩

/-- What every step keeps is kept by a run. -/
theorem Run.keeps {P : Traffic → Prop}
    (hstep : ∀ {t u a effect}, t.Step a effect u → P t → P u) (h : t.Run actions effect u)
    (ht : P t) : P u := by
  induction h with
  | nil => exact ht
  | cons act _ ih => exact ih (hstep (step_of_act? act) ht)

theorem Run.enrolled (h : t.Run actions effect u) (hg : t.Enrolled client g) :
    u.Enrolled client g :=
  h.keeps Step.enrolled hg

theorem Sound.run (hs : t.Sound) (h : t.Run actions effect u) : u.Sound :=
  h.keeps (fun hstep hs => hs.step hstep) hs

/-- A connection that has not been given a session by the end has done nothing but ask for one. -/
theorem Run.eq_enroll (h : t.Run actions effect u) (hu : ∀ client, ¬ u.Enrolled client g)
    (ha : a ∈ actions) (hg : a.generation? = some g) : a = .enroll g := by
  induction h with
  | nil => cases ha
  | cons act rest ih =>
    have step := step_of_act? act
    obtain rfl | ha := List.mem_cons.1 ha
    · obtain hasks | ⟨client, henrolled⟩ := step.enrolled_taker hg
      · exact hasks
      · exact absurd (rest.enrolled (step.enrolled henrolled)) (hu client)
    · exact ih hu ha

end Traffic

end PubSub.Server
