import PubSub.Proofs.Server.Traffic

/-!
# What a generation can do

`Traffic.generations_guarded` says what the generations are for. Whatever happens on the
connections, no two sessions have one name; a connection that finds its name taken never has
anything told to the broker; the broker is told of a departure at most once for each generation; and
once the session of a generation is gone (`Traffic.Gone`), the events of the generation that are
still in the queue, or get there later, have no effect, whoever holds the name by then.

A generation that is gone stays so, since only a connection that has never had a session can be
given one (`Step.holder?`). The departures are of generations that hold their client's name before
the step and are gone after it (`Step.departure`), so none comes twice.
-/

namespace PubSub.Server

/-- The client that a call disconnects. -/
def Call.leaver? : Call → Option String
  | .disconnect client => some client
  | .connect _ | .receive _ _ | .collect _ => none

/-- The clients that are disconnected, in order. -/
def Effect.leavers (e : Effect) : List String := e.calls.filterMap Call.leaver?

theorem Effect.leavers_append (e f : Effect) : (e ++ f).leavers = e.leavers ++ f.leavers :=
  List.filterMap_append

theorem Effect.Quiet.leavers {e : Effect} (h : e.Quiet) : e.leavers = [] :=
  h.filterMap_calls (fun _ _ => rfl) fun _ => rfl

namespace Traffic

variable {t u : Traffic} {a : Action} {actions : List Action} {effect : Effect} {client : String}
  {g : Nat}

/-- A generation that has had a session and has it no more. -/
def Gone (t : Traffic) (g : Nat) : Prop :=
  ∃ client, t.Enrolled client g ∧ t.server.holder? client ≠ some g

/-! ## One step -/

/-- A step without a departure, or with one: of a generation that holds its client's name until
then. -/
theorem Step.departure (h : t.Step a effect u) :
    (effect.leavers = [] ∧ effect.ended = []) ∨
      ∃ client g, effect.leavers = [client] ∧ effect.ended = [g] ∧
        t.server.holder? client = some g ∧ u.server.holder? client = none := by
  cases h with
  | handled e events effect server queue hhandled =>
    cases hhandled with
    | packet _ _ _ _ _ _ quiet => exact .inl ⟨quiet.leavers, quiet.ended⟩
    | ended _ client g _ _ holder holders =>
      exact .inr ⟨client, g, rfl, rfl, holder, (holders client).trans (if_pos rfl)⟩
    | connected | stale => exact .inl ⟨rfl, rfl⟩
  | requested | admitted | refused | welcomed | lost | packet | ended | searched | reported | idle
    | elapsed => exact .inl ⟨rfl, rfl⟩

theorem Gone.step (hg : t.Gone g) (h : t.Step a effect u) : u.Gone g := by
  obtain ⟨client, henrolled, hlost⟩ := hg
  refine ⟨client, h.enrolled henrolled, fun hc => ?_⟩
  obtain hold | ⟨hnew, -⟩ := h.holder? hc
  · exact hlost hold
  · exact hnew client henrolled

/-- A generation that is gone holds no name, not only not its own. -/
theorem Gone.holder? (hg : t.Gone g) (hs : t.Sound) (c : String) : t.server.holder? c ≠ some g := by
  obtain ⟨client, henrolled, hlost⟩ := hg
  intro hc
  rw [henrolled.client_eq (hs.sessions c g hc)] at hlost
  exact hlost hc

theorem Gone.not_mem_ended_step (hg : t.Gone g) (hs : t.Sound) (h : t.Step a effect u) :
    g ∉ effect.ended := by
  obtain ⟨-, hended⟩ | ⟨client, k, -, hended, hholder, -⟩ := h.departure
  · rw [hended]
    exact List.not_mem_nil
  · rw [hended, List.mem_singleton]
    rintro rfl
    exact hg.holder? hs client hholder

theorem Step.gone (h : t.Step a effect u) (hs : t.Sound) (hg : g ∈ effect.ended) : u.Gone g := by
  obtain ⟨-, hended⟩ | ⟨client, k, -, hended, hholder, hfree⟩ := h.departure
  · rw [hended] at hg
    cases hg
  · rw [hended, List.mem_singleton] at hg
    subst hg
    refine ⟨client, h.enrolled (hs.sessions client g hholder), ?_⟩
    rw [hfree]
    exact nofun

theorem Step.leavers (h : t.Step a effect u) (hs : t.Sound) :
    List.Forall₂ u.Enrolled effect.leavers effect.ended := by
  obtain ⟨hleavers, hended⟩ | ⟨client, k, hleavers, hended, hholder, -⟩ := h.departure
  · rw [hleavers, hended]
    exact .nil
  · rw [hleavers, hended]
    exact .cons (h.enrolled (hs.sessions client k hholder)) .nil

theorem Step.rejected (h : t.Step a effect u) (hg : t.phase? g = some .rejected) :
    u.phase? g = some .rejected := by
  obtain ⟨r, hr⟩ := phase?_eq_some_iff.1 hg
  obtain ⟨q, hq, rfl | ⟨-, hlead⟩⟩ := h.phase hr
  · exact phase?_eq_some_iff.2 ⟨r, hq⟩
  · cases hlead

/-- The event of a generation that does not hold its client's name only leaves the queue. -/
theorem act?_dispatch_of_stale {e : Event} {events : List Event}
    (hq : t.server.events = e :: events) (he : e.origin? = some (client, g))
    (h : t.server.holder? client ≠ some g) :
    t.act? .dispatch = some ({}, { t with server := { t.server with events } }) := by
  have hstale : handle { t.server with events } t.clock e = ({}, { t.server with events }) :=
    handle_of_stale he h
  rw [act?, dispatch, hq]
  simp only [hstale]

/-! ## Runs -/

theorem Run.rejected (h : t.Run actions effect u) (hg : t.phase? g = some .rejected) :
    u.phase? g = some .rejected :=
  h.keeps Step.rejected hg

theorem not_enrolled_of_rejected (hg : t.phase? g = some .rejected) (client : String) :
    ¬ t.Enrolled client g := by
  obtain ⟨r, hr⟩ := phase?_eq_some_iff.1 hg
  exact not_enrolled hr not_false client

theorem Gone.run (hg : t.Gone g) (h : t.Run actions effect u) : u.Gone g :=
  h.keeps (P := fun t => t.Gone g) (fun hstep hg => hg.step hstep) hg

theorem Gone.not_mem_ended (hg : t.Gone g) (hs : t.Sound) (h : t.Run actions effect u) :
    g ∉ effect.ended := by
  induction h with
  | nil => exact List.not_mem_nil
  | cons act _ ih =>
    have step := step_of_act? act
    intro hmem
    obtain hmem | hmem := List.mem_append.1 hmem
    · exact hg.not_mem_ended_step hs step hmem
    · exact ih (hg.step step) (hs.step step) hmem

/-- Whatever has ended is gone. -/
theorem Run.gone (h : t.Run actions effect u) (hs : t.Sound) (hg : g ∈ effect.ended) :
    u.Gone g := by
  induction h with
  | nil => cases hg
  | cons act rest ih =>
    have step := step_of_act? act
    obtain hg | hg := List.mem_append.1 hg
    · exact (step.gone hs hg).run rest
    · exact ih (hs.step step) hg

/-- No generation ends twice. -/
theorem Run.nodup_ended (h : t.Run actions effect u) (hs : t.Sound) : effect.ended.Nodup := by
  induction h with
  | nil => exact .nil
  | cons act rest ih =>
    have step := step_of_act? act
    -- what ends in the first step is gone after it, and so does not end in the others
    refine List.nodup_append'.2 ⟨?_, ih (hs.step step), fun k hk => ?_⟩
    · obtain ⟨-, hended⟩ | ⟨_, _, -, hended, -⟩ := step.departure
      · rw [hended]
        exact .nil
      · rw [hended]
        exact List.nodup_singleton _
    · exact (step.gone hs hk).not_mem_ended (hs.step step) rest

/-- The clients that are disconnected are those of the generations that end, one by one. -/
theorem Run.leavers (h : t.Run actions effect u) (hs : t.Sound) :
    List.Forall₂ u.Enrolled effect.leavers effect.ended := by
  induction h with
  | nil => exact .nil
  | cons act rest ih =>
    have step := step_of_act? act
    rw [Effect.leavers_append]
    exact List.rel_append ((step.leavers hs).imp fun _ _ hg => rest.enrolled hg)
      (ih (hs.step step))

/-- What a run has to do with the generations. The next one is of no connection yet, and no two
sessions have one name or one generation. A connection whose name is taken is rejected. A rejected
one has done nothing but ask and never does anything else, no event is ever of its generation, and
nothing of it ever ends. The broker is told of departures for different generations, each of the
client that the generation was given a session of, and they are gone then. A generation that is gone
never ends, and its events only leave the queue. -/
theorem generations_guarded (config : Config) (broker : Broker) (clock : Clock)
    (actions : List Action) (effect : Effect) (t : Traffic)
    (h : (start config broker clock).run? actions = some (effect, t)) :
    (t.server.number.1 = t.connections.length ∧ t.server.sessions.names.Nodup ∧
      ∀ c d g, t.server.holder? c = some g → t.server.holder? d = some g → c = d) ∧
    (∀ g r, t.requestIn? g .asking = some r → t.server.sessions.contains r.name = true →
      t.act? (.enroll g) = some ({}, t.setPhase g .rejected)) ∧
    (∀ g, t.phase? g = some .rejected → ∀ more later u, t.run? more = some (later, u) →
      u.phase? g = some .rejected ∧
      (∀ a ∈ actions ++ more, a.generation? = some g → a = .enroll g) ∧
      (∀ e ∈ u.server.events, ∀ c, e.origin? ≠ some (c, g)) ∧
      g ∉ effect.ended ++ later.ended) ∧
    (List.Forall₂ t.Enrolled effect.leavers effect.ended ∧ effect.ended.Nodup ∧
      ∀ g ∈ effect.ended, t.Gone g) ∧
    ∀ g, t.Gone g → ∀ more later u, t.run? more = some (later, u) →
      u.Gone g ∧ g ∉ later.ended ∧
      ∀ e events c, u.server.events = e :: events → e.origin? = some (c, g) →
        u.act? .dispatch = some ({}, { u with server := { u.server with events } }) := by
  have hrun := run_of_run? h
  have hs0 := sound_start config broker clock
  have hs := hs0.run hrun
  refine ⟨⟨hs.numbered, t.server.sessions.nodup_names, ?_⟩, ?_, ?_,
    ⟨hrun.leavers hs0, hrun.nodup_ended hs0, fun g => hrun.gone hs0⟩, ?_⟩
  · exact fun c d g hc hd => (hs.sessions c g hc).client_eq (hs.sessions d g hd)
  · exact fun g r hr htaken => act?_enroll_of_taken (requestIn?_eq_some_iff.1 hr) htaken
  · intro g hg more later u hmore
    have hmore := run_of_run? hmore
    have hu := not_enrolled_of_rejected (hmore.rejected hg)
    have hended {k : Nat} (hk : u.Gone k) : k ≠ g := by
      rintro rfl
      obtain ⟨client, henrolled, -⟩ := hk
      exact hu client henrolled
    refine ⟨hmore.rejected hg, fun a ha hag => ?_, fun e he c ho => ?_, fun hmem => ?_⟩
    · obtain ha | ha := List.mem_append.1 ha
      · exact hrun.eq_enroll (not_enrolled_of_rejected hg) ha hag
      · exact hmore.eq_enroll hu ha hag
    · exact hu c ((hs.run hmore).events e he c g ho)
    · obtain hmem | hmem := List.mem_append.1 hmem
      · exact hended ((hrun.gone hs0 hmem).run hmore) rfl
      · exact hended (hmore.gone hs hmem) rfl
  · intro g hg more later u hmore
    have hmore := run_of_run? hmore
    have hgone := hg.run hmore
    exact ⟨hgone, hg.not_mem_ended hs hmore, fun e events c hq ho =>
      act?_dispatch_of_stale hq ho (hgone.holder? (hs.run hmore) c)⟩

/-- The client `A` connects, another connection tells the same name, and `A` is found silent while a
packet of it and its end are on their way. Then `A` connects again, before they are handled. -/
def reuseRun : List Action := [
  .request ⟨"A", false, 0.0⟩, .enroll 0, .welcome 0 true, .dispatch,
  .request ⟨"A", true, 0.0⟩, .enroll 1,
  .elapse (.ofSeconds 6), .checkSilence, .reportSilence,
  .packet 0 ⟨[.double .notify "X" 1.0 1.0]⟩, .close 0, .dispatch,
  .request ⟨"A", false, 6.0⟩, .enroll 2, .welcome 2 true, .dispatch]

/-- The first session has ended once, the second connection was rejected, and the end of the first
one has no effect on the third one, which has the name. -/
theorem generations_guarded_reuseRun :
    ∃ effect t, startZero.run? reuseRun = some (effect, t) ∧
      (effect.calls = [.connect "A", .disconnect "A"] ∧ effect.ended = [0] ∧
        t.phase? 1 = some .rejected ∧ t.server.holder? "A" = some 2 ∧
        t.server.events = [.closed "A" 0, .connected "A"]) ∧
      t.Gone 0 ∧
      t.act? .dispatch =
        some ({}, { t with server := { t.server with events := [.connected "A"] } }) := by
  obtain ⟨effect, t, h, hfacts⟩ := exists_run startZero reuseRun
    (fun effect t => effect.calls = [.connect "A", .disconnect "A"] ∧ effect.ended = [0] ∧
      t.phase? 1 = some .rejected ∧ t.server.holder? "A" = some 2 ∧
      t.server.events = [.closed "A" 0, .connected "A"]) (by decide +kernel)
  obtain ⟨-, -, -, ⟨-, -, hended⟩, hgone⟩ := generations_guarded _ _ _ reuseRun effect t h
  have hgone0 := hended 0 (by rw [hfacts.2.1]; exact List.mem_singleton_self 0)
  have hstale := (hgone 0 hgone0 [] {} t rfl).2.2 (.closed "A" 0) [.connected "A"] "A"
  exact ⟨effect, t, h, hfacts, hgone0, hstale hfacts.2.2.2.2 rfl⟩

end Traffic

end PubSub.Server
