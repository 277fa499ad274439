import PubSub.Proofs.Server.Rounds

/-!
# Who ends as silent

A session ends as silent when its verdict is handled, an event that the search for silent sessions
has put into the queue. When the search found the session, no packet of it had been handled for
longer than the timeout (`Traffic.silence_verdicts`).

Nobody looks at the session again when the verdict is handled. A packet that waited in the queue
when the session was found, or came before the verdict was in the queue, is handled first, and the
session ends all the same, however recent that packet is (`Traffic.heard_client_ends_as_silent`).
If each verdict still stands when it is put into the queue, and no packet of the session waits then
(`Traffic.Fair`), no session ends as silent that has been heard within the timeout.

`Traffic.Tracked` is what the past of a run has to do with the sessions, the search and the queue.
-/

namespace PubSub

theorem Duration.le_trans {d e f : Duration} (h : d ≤ e) (h' : e ≤ f) : d ≤ f := Nat.le_trans h h'

theorem Duration.lt_of_lt_of_le {d e f : Duration} (h : d < e) (h' : e ≤ f) : d < f :=
  Nat.lt_of_lt_of_le h h'

/-- What is over is over for anything that began earlier. -/
theorem Duration.add_lt_of_le {d e timeout now : Duration} (hd : d ≤ e) (h : e + timeout < now) :
    d + timeout < now :=
  Nat.lt_of_le_of_lt (Nat.add_le_add_right hd timeout.nanos) h

theorem Duration.le_advance (clock : Clock) (d : Duration) :
    clock.elapsed ≤ (clock.advance d).elapsed :=
  Nat.le_add_right ..

namespace Server

/-- When a packet of a generation is handled, by the monotonic clock. -/
def Turn.heard (g : Nat) (a : Turn) (t : Traffic) : List Duration :=
  ((a.intakes t).filter (·.generation == g)).map fun _ => t.clock.elapsed

/-- Whether a generation has a session of a client that has been silent for too long. -/
def isSilent (s : Server) (clock : Clock) (client : String) (g : Nat) : Bool :=
  (s.silentSessions clock).any fun (c, session) => c == client && session.generation == g

/-- Whether an event is a packet of a generation. -/
def Event.isPacket (client : String) (g : Nat) : Event → Bool
  | .packet c k _ => c == client && k == g
  | .connected _ | .closed _ _ | .silent _ _ => false

section

variable {s : Server} {clock : Clock} {client c : String} {g : Nat} {session : Session}

theorem isSilent_iff :
    s.isSilent clock client g = true ↔
      ∃ session, s.sessions.get? client = some session ∧ session.generation = g ∧
        session.lastActivity + s.config.clientTimeout < clock.elapsed := by
  simp only [isSilent, silentSessions, List.any_eq_true, List.mem_filter, Prod.exists,
    Bool.and_eq_true, beq_iff_eq, decide_eq_true_eq, Table.mem_entries_iff]
  constructor
  · rintro ⟨_, session, ⟨hget, hlate⟩, rfl, hg⟩
    exact ⟨session, hget, hg, hlate⟩
  · rintro ⟨session, hget, hg, hlate⟩
    exact ⟨client, session, ⟨hget, hlate⟩, rfl, hg⟩

/-! ## Sessions, event by event -/

theorem get?_sessions_remove (h : (s.remove client g).sessions.get? c = some session) :
    s.sessions.get? c = some session := by
  rw [remove] at h
  split at h
  · have h : (s.sessions.erase client).get? c = some session := h
    rw [Table.get?_erase] at h
    exact (Option.ite_none_left_eq_some.1 h).2
  · exact h

theorem get?_sessions_disconnect
    (h : (s.disconnect clock client g).2.sessions.get? c = some session) :
    s.sessions.get? c = some session := by
  rw [disconnect] at h
  split at h
  · exact get?_sessions_remove h
  · exact h

/-- A session that there is after an event has been handled was there before and is as it was, or
the event is a packet of it. -/
theorem get?_sessions_handle {e : Event}
    (h : (s.handle clock e).2.sessions.get? c = some session) :
    s.sessions.get? c = some session ∧ (∀ p, e ≠ .packet c session.generation p) ∨
      session.lastActivity = clock.elapsed ∧ s.holder? c = some session.generation ∧
        ∃ p, e = .packet c session.generation p := by
  cases e with
  | connected client => exact .inl ⟨h, nofun⟩
  | closed client k => exact .inl ⟨get?_sessions_disconnect h, nofun⟩
  | silent client k => exact .inl ⟨get?_sessions_disconnect h, nofun⟩
  | packet client k p =>
    rw [handle] at h
    by_cases hcurrent : s.isCurrent client k = true
    · rw [if_pos hcurrent, process_eq, Table.get?_modify] at h
      by_cases hc : c = client
      · rw [if_pos hc] at h
        obtain ⟨old, hold, rfl⟩ := Option.map_eq_some_iff.1 h
        have hholder : s.holder? c = some old.generation := by
          rw [holder?, hold]
          rfl
        have hk := isCurrent_iff.1 hcurrent
        rw [← hc, hholder] at hk
        cases hk
        exact .inr ⟨rfl, hholder, p, by rw [hc]⟩
      · rw [if_neg hc] at h
        refine .inl ⟨h, fun q hq => ?_⟩
        cases hq
        exact hc rfl
    · rw [if_neg hcurrent] at h
      refine .inl ⟨h, fun q hq => ?_⟩
      cases hq
      refine hcurrent (isCurrent_iff.2 ?_)
      rw [holder?, h]
      rfl

theorem config_remove (s : Server) (client : String) (g : Nat) :
    (s.remove client g).config = s.config := by
  obtain ⟨sessions, hremove⟩ := remove_eq s client g
  rw [hremove]

theorem config_handle (s : Server) (clock : Clock) (e : Event) :
    (s.handle clock e).2.config = s.config := by
  have hdisconnect (client : String) (g : Nat) :
      (s.disconnect clock client g).2.config = s.config := by
    rw [disconnect]
    split
    · exact config_remove s client g
    · rfl
  cases e with
  | connected client => rfl
  | closed client g => exact hdisconnect client g
  | silent client g => exact hdisconnect client g
  | packet client g p =>
    rw [handle]
    split
    · rw [process_eq]
    · rfl

end

/-! ## Turns -/

variable {t u : Traffic} {a : Turn} {turns : List Turn} {effect : Effect} {client c : String}
  {g : Nat} {session : Session} {e : Event}

theorem Turn.le_of_mem_heard {τ : Duration} (h : τ ∈ a.heard g t) : τ ≤ t.clock.elapsed := by
  rw [List.eq_of_mem_map_const h]
  exact Nat.le_refl _

/-- No packet of a generation is handled if the next event is none, or finds no session. -/
theorem Turn.heard_eq_nil
    (h : ∀ c p, t.server.events.head? = some (.packet c g p) → t.server.isCurrent c g = false) :
    a.heard g t = [] := by
  rw [heard, List.map_eq_nil_iff, List.filter_eq_nil_iff]
  intro i hi
  cases a with
  | keepHouse => cases hi
  | act b =>
    cases b with
    | dispatch =>
      obtain ⟨e, he, hintake⟩ := Option.bind_eq_some_iff.1 (Option.mem_toList.1 hi)
      cases e with
      | packet client k p =>
        obtain ⟨hholder, rfl⟩ :=
          (Option.ite_none_right_eq_some.1 hintake).imp_right Option.some.inj
        rw [beq_iff_eq]
        rintro rfl
        have hcurrent := isCurrent_iff.2 hholder
        rw [h client p he] at hcurrent
        cases hcurrent
      | connected | closed | silent => cases hintake
    | _ => cases hi

namespace Traffic

theorem elapsed_le_turn (h : t.turn? a = some (effect, u)) : t.clock.elapsed ≤ u.clock.elapsed := by
  have hsame : t.clock.elapsed ≤ t.clock.elapsed := Nat.le_refl _
  cases a with
  | keepHouse =>
    cases h
    exact hsame
  | act b =>
    cases step_of_act? h with
    | elapsed d => exact Duration.le_advance t.clock d
    | requested | admitted | refused | welcomed | lost | packet | ended | searched | reported
      | idle | handled => exact hsame

/-- What a turn does to the queue: nothing, the next event leaves it, or one comes behind the
others. A verdict is what the search reports. -/
theorem events_turn (h : t.turn? a = some (effect, u)) :
    u.server.events = t.server.events ∨
      (∃ e, t.server.events = e :: u.server.events) ∨
      ∃ e, u.server.events = t.server.events ++ [e] ∧
        ∀ c g, e = .silent c g → a = .act .reportSilence ∧ t.noticed.head? = some (c, g) := by
  cases a with
  | keepHouse =>
    cases h
    exact .inl rfl
  | act b =>
    cases step_of_act? h with
    | requested | admitted | refused | lost | searched | idle | elapsed => exact .inl rfl
    | welcomed | packet | ended => exact .inr (.inr ⟨_, rfl, fun c g he => by cases he⟩)
    | reported client k noticed found =>
      refine .inr (.inr ⟨_, rfl, fun c g he => ?_⟩)
      cases he
      exact ⟨rfl, by rw [found]; rfl⟩
    | handled e events effect server queue hhandled =>
      have hevents : server.events = events := hhandled.events
      exact .inr (.inl ⟨e, by rw [queue, ← hevents]⟩)

/-- The next event is handled, and those behind it stay in the queue. -/
theorem server_of_dispatch {events : List Event} (hq : t.server.events = e :: events)
    (h : t.act? .dispatch = some (effect, u)) :
    u.server = (handle { t.server with events } t.clock e).2 := by
  rw [act?, dispatch, hq] at h
  cases h
  rfl

theorem config_turn (h : t.turn? a = some (effect, u)) : u.server.config = t.server.config := by
  cases a with
  | keepHouse =>
    cases h
    rfl
  | act b =>
    have hact : t.act? b = some (effect, u) := h
    cases step_of_act? hact with
    | handled e events effect server queue =>
      rw [server_of_dispatch queue hact, config_handle]
    | requested | admitted | refused | welcomed | lost | packet | ended | searched | reported
      | idle | elapsed => rfl

/-- A session that there is after a turn was there before, unless its connection has just been
given it, and no packet of it has been handled, unless it has just been active. -/
theorem get?_sessions_turn (hs : t.Sound) (h : t.turn? a = some (effect, u))
    (hget : u.server.sessions.get? c = some session) :
    t.server.sessions.get? c = some session ∧ a.heard session.generation t = [] ∨
      session.lastActivity = t.clock.elapsed ∧
        ((∀ d, ¬ t.Enrolled d session.generation) ∨
          t.server.holder? c = some session.generation ∧
            ∃ p, t.server.events = .packet c session.generation p :: u.server.events) := by
  cases a with
  | keepHouse =>
    cases h
    exact .inl ⟨hget, rfl⟩
  | act b =>
    have hact : t.act? b = some (effect, u) := h
    cases step_of_act? hact with
    | requested | refused | welcomed | packet | ended | searched | reported | elapsed =>
      exact .inl ⟨hget, rfl⟩
    | admitted k r sessions hk hfree =>
      have htaken : ¬ t.server.sessions.contains r.name = true := by
        rw [contains_sessions_iff, hfree]
        simp
      rw [act?, requestIn?_eq_some_iff.2 hk, Option.map_some, admit?, if_neg htaken] at hact
      cases hact
      have hget := (Table.get?_insert ..).symm.trans hget
      split at hget
      · cases hget
        exact .inr ⟨rfl, .inl (not_enrolled hk not_false)⟩
      · exact .inl ⟨hget, rfl⟩
    | lost k r sessions hk =>
      rw [act?, requestIn?_eq_some_iff.2 hk, Option.map_some] at hact
      have hserver : t.server.remove r.name k = { t.server with sessions } :=
        congrArg (·.2.server) (Option.some.inj hact)
      have hget : Table.get? ({ t.server with sessions } : Server).sessions c = some session := hget
      rw [← hserver] at hget
      exact .inl ⟨get?_sessions_remove hget, rfl⟩
    | idle queue =>
      exact .inl ⟨hget, Turn.heard_eq_nil fun d p hp => by rw [queue] at hp; cases hp⟩
    | handled e events effect server queue hhandled =>
      have hserver : server = _ := server_of_dispatch queue hact
      rw [hserver] at hget
      obtain ⟨hkept, hother⟩ | ⟨hactive, hholder, p, rfl⟩ := get?_sessions_handle hget
      · refine .inl ⟨hkept, Turn.heard_eq_nil fun d p hp => ?_⟩
        rw [queue] at hp
        cases hp
        -- a packet of the generation that finds a session is of this client, which is excluded
        rw [Bool.eq_false_iff]
        intro hcurrent
        have hc : t.server.holder? c = some session.generation :=
          congrArg (Option.map Session.generation) hkept
        have hsame := (hs.sessions c _ hc).client_eq (hs.sessions d _ (isCurrent_iff.1 hcurrent))
        exact hother p (by rw [hsame])
      · refine .inr ⟨hactive, .inr ⟨hholder, p, ?_⟩⟩
        rw [queue]
        exact congrArg _ hhandled.events.symm

/-- The search finds those that are silent. -/
theorem noticed_turn (h : t.turn? a = some (effect, u)) {n : String × Nat} (hn : n ∈ u.noticed) :
    n ∈ t.noticed ∨ a = .act .checkSilence ∧ t.server.isSilent t.clock n.1 n.2 = true := by
  cases a with
  | keepHouse =>
    cases h
    exact .inl hn
  | act b =>
    have hact : t.act? b = some (effect, u) := h
    cases step_of_act? hact with
    | searched noticed =>
      rw [act?] at hact
      obtain ⟨-, heq⟩ := Option.ite_none_right_eq_some.1 hact
      have hnoticed : _ = noticed := congrArg (·.2.noticed) (Option.some.inj heq)
      rw [← hnoticed] at hn
      obtain ⟨⟨client, session⟩, hmem, rfl⟩ := List.mem_map.1 hn
      exact .inr ⟨rfl, List.any_eq_true.2 ⟨_, hmem, by simp⟩⟩
    | reported client k noticed found =>
      rw [found]
      exact .inl (List.mem_cons_of_mem _ hn)
    | requested | admitted | refused | welcomed | lost | packet | ended | idle | handled
      | elapsed => exact .inl hn

/-! ## Runs -/

/-- The last turn of a run. -/
theorem play?_concat (h : t.play? (turns ++ [a]) = some (effect, u)) :
    ∃ before v last, t.play? turns = some (before, v) ∧ v.turn? a = some (last, u) := by
  induction turns generalizing t effect with
  | nil =>
    obtain ⟨first, v, more, hturn, hrest, -⟩ := play?_cons h
    cases hrest
    exact ⟨{}, t, first, rfl, hturn⟩
  | cons b turns ih =>
    obtain ⟨first, v, more, hturn, hrest, -⟩ := play?_cons h
    obtain ⟨before, w, last, hplay, hlast⟩ := ih hrest
    refine ⟨first ++ before, w, last, ?_, hlast⟩
    rw [play?, hturn]
    simp only [bind, Option.bind, hplay]
    rfl

theorem along_concat {α : Type} (told : Turn → Traffic → List α)
    (h : t.play? turns = some (effect, u)) :
    along told (turns ++ [a]) t = along told turns t ++ told a u := by
  induction turns generalizing t effect with
  | nil =>
    cases h
    rw [List.nil_append, along, along, List.nil_append]
    cases u.turn? a with
    | none => exact List.append_nil _
    | some r => exact List.append_nil _
  | cons b turns ih =>
    obtain ⟨first, v, more, hturn, hrest, -⟩ := play?_cons h
    rw [List.cons_append, along_cons told hturn, along_cons told hturn, ih hrest,
      List.append_assoc]

/-- What holds at the start of a run and after each of its turns holds at its end. -/
theorem play_induction {P : List Turn → Traffic → Prop} (hstart : P [] t)
    (hturn : ∀ turns a before v last u, t.play? turns = some (before, v) → P turns v →
      v.turn? a = some (last, u) → P (turns ++ [a]) u)
    (h : t.play? turns = some (effect, u)) : P turns u := by
  induction turns using List.reverseRecOn generalizing effect u with
  | nil =>
    cases h
    exact hstart
  | append_singleton turns a ih =>
    obtain ⟨before, v, last, hplay, hlast⟩ := play?_concat h
    exact hturn turns a before v last u hplay (ih hplay) hlast

/-- If a verdict is put into the queue, it stands: the session is silent by then, or is gone, and no
packet of it waits. -/
def Stands (t : Traffic) : Turn → Prop
  | .act .reportSilence => ∀ n ∈ t.noticed.head?, t.server.isCurrent n.1 n.2 = true →
    t.server.isSilent t.clock n.1 n.2 = true ∧ ∀ e ∈ t.server.events, e.isPacket n.1 n.2 = false
  | _ => True

instance (t : Traffic) : (a : Turn) → Decidable (t.Stands a)
  | .act .reportSilence => inferInstanceAs (Decidable (∀ n ∈ t.noticed.head?, _ → _))
  | .act (.request _) | .act (.enroll _) | .act (.welcome _ _) | .act (.packet _ _)
  | .act (.close _) | .act .checkSilence | .act .dispatch | .act (.elapse _) | .keepHouse =>
    inferInstanceAs (Decidable True)

/-- All verdicts stand when they are put into the queue. -/
def Fair (t : Traffic) : List Turn → Prop
  | [] => True
  | a :: turns => t.Stands a ∧ ∀ v ∈ (t.turn? a).map (·.2), v.Fair turns

instance instDecidableFair : (t : Traffic) → (turns : List Turn) → Decidable (t.Fair turns)
  | _, [] => inferInstanceAs (Decidable True)
  | t, a :: turns =>
    have (v : Traffic) := instDecidableFair v turns
    inferInstanceAs (Decidable (t.Stands a ∧ ∀ v ∈ (t.turn? a).map (·.2), v.Fair turns))

theorem Fair.concat (hf : t.Fair (turns ++ [a])) (h : t.play? turns = some (effect, u)) :
    t.Fair turns ∧ u.Stands a := by
  induction turns generalizing t effect with
  | nil =>
    cases h
    exact ⟨trivial, hf.1⟩
  | cons b turns ih =>
    obtain ⟨first, v, more, hturn, hrest, -⟩ := play?_cons h
    obtain ⟨hb, htail⟩ := hf
    obtain ⟨hturns, hstands⟩ := ih (htail v (by rw [hturn]; rfl)) hrest
    refine ⟨⟨hb, fun w hw => ?_⟩, hstands⟩
    rw [hturn] at hw
    cases hw
    exact hturns

/-- The search has found a generation at some point of a run, when it was silent. -/
def Found (t : Traffic) (turns : List Turn) (client : String) (g : Nat) : Prop :=
  ∃ before after effect s, turns = before ++ .act .checkSilence :: after ∧
    t.play? before = some (effect, s) ∧ s.server.isSilent s.clock client g = true

theorem Found.concat (h : t.Found turns client g) (a : Turn) : t.Found (turns ++ [a]) client g := by
  obtain ⟨before, after, effect, s, rfl, hplay, hsilent⟩ := h
  exact ⟨before, after ++ [a], effect, s, by simp, hplay, hsilent⟩

/-! ## What the past says -/

/-- Where a verdict in the queue comes from: it was there before the turn, behind at least as many
events, or the search has just reported it. -/
theorem split_turn {earlier later : List Event} (h : t.turn? a = some (effect, u))
    (hq : u.server.events = earlier ++ .silent c g :: later) :
    (∃ front back, t.server.events = front ++ .silent c g :: back ∧ earlier ⊆ front) ∨
      earlier = t.server.events ∧ a = .act .reportSilence ∧ t.noticed.head? = some (c, g) := by
  obtain hsame | ⟨e, hleft⟩ | ⟨e, hcame, hverdict⟩ := events_turn h
  · exact .inl ⟨earlier, later, hsame.symm.trans hq, List.Subset.refl _⟩
  · exact .inl ⟨e :: earlier, later, by rw [hleft, hq, List.cons_append],
      List.subset_cons_self ..⟩
  · rw [hcame] at hq
    obtain rfl | ⟨back, e', rfl⟩ := later.eq_nil_or_concat'
    · obtain ⟨hearlier, hlast⟩ := List.append_inj' hq rfl
      cases hlast
      exact .inr ⟨hearlier.symm, hverdict c g rfl⟩
    · rw [← List.cons_append, ← List.append_assoc] at hq
      exact .inl ⟨earlier, back, (List.append_inj' hq rfl).1, List.Subset.refl _⟩

/-- A verdict in the queue is of a generation that had a session before the turn. -/
theorem Sound.enrolled_of_split {earlier later : List Event} (hs : t.Sound)
    (h : t.turn? a = some (effect, u))
    (hq : u.server.events = earlier ++ .silent c g :: later) : t.Enrolled c g := by
  obtain ⟨front, back, hold, -⟩ | ⟨-, -, hnew⟩ := split_turn h hq
  · refine hs.events (.silent c g) ?_ c g rfl
    rw [hold]
    exact List.mem_append_right _ List.mem_cons_self
  · exact hs.noticed _ (List.mem_of_mem_head? hnew)

/-- The verdicts in the queue stand: their sessions are silent, or gone, and no packet of theirs
waits in front of them. -/
def Standing (t : Traffic) : Prop :=
  ∀ earlier later c g, t.server.events = earlier ++ .silent c g :: later →
    t.server.holder? c = some g →
    t.server.isSilent t.clock c g = true ∧ ∀ e ∈ earlier, e.isPacket c g = false

theorem Standing.turn (ht : t.Standing) (hs : t.Sound) (hstands : t.Stands a)
    (h : t.turn? a = some (effect, u)) : u.Standing := by
  intro earlier later c g hq hholder
  obtain ⟨session, hsession, rfl⟩ := Option.map_eq_some_iff.1 hholder
  have henrolled := hs.enrolled_of_split h hq
  obtain ⟨hkept, -⟩ | ⟨-, hnew | ⟨hbefore, p, hpacket⟩⟩ := get?_sessions_turn hs h hsession
  · have hbefore : t.server.holder? c = some session.generation :=
      congrArg (Option.map Session.generation) hkept
    have hearlier : t.server.isSilent t.clock c session.generation = true ∧
        ∀ e ∈ earlier, e.isPacket c session.generation = false := by
      obtain ⟨front, back, hold, hsub⟩ | ⟨rfl, rfl, hfound⟩ := split_turn h hq
      · obtain ⟨hsilent, hfront⟩ := ht front back c _ hold hbefore
        exact ⟨hsilent, fun e he => hfront e (hsub he)⟩
      · exact hstands (c, session.generation) hfound (isCurrent_iff.2 hbefore)
    obtain ⟨hsilent, hwaits⟩ := hearlier
    obtain ⟨_, hget, -, hlate⟩ := isSilent_iff.1 hsilent
    rw [hkept] at hget
    cases hget
    refine ⟨isSilent_iff.2 ⟨session, hsession, rfl, ?_⟩, hwaits⟩
    rw [config_turn h]
    exact Duration.lt_of_lt_of_le hlate (elapsed_le_turn h)
  · exact absurd henrolled (hnew c)
  · -- the packet was in front of the verdict, which did not stand
    rw [hq, ← List.cons_append] at hpacket
    have hwaits := (ht _ later c _ hpacket hbefore).2 _ List.mem_cons_self
    simp [Event.isPacket] at hwaits

/-- What the past of a run has to do with the state that it leads to. -/
structure Tracked (t₀ : Traffic) (turns : List Turn) (t : Traffic) : Prop where
  sound : t.Sound
  config : t.server.config = t₀.server.config
  past : ∀ g, ∀ τ ∈ along (Turn.heard g) turns t₀, τ ≤ t.clock.elapsed
  /-- A session has been active when its last packet was handled, and may have been so since. -/
  active : ∀ c session, t.server.sessions.get? c = some session →
    ∀ τ ∈ along (Turn.heard session.generation) turns t₀, τ ≤ session.lastActivity
  noticed : ∀ n ∈ t.noticed, t₀.Found turns n.1 n.2
  verdicts : ∀ c g, .silent c g ∈ t.server.events → t₀.Found turns c g
  standing : t₀.Fair turns → t.Standing

theorem tracked_start (config : Config) (broker : Broker) (clock : Clock) :
    (start config broker clock).Tracked [] (start config broker clock) where
  sound := sound_start config broker clock
  config := rfl
  past _ := List.forall_mem_nil _
  active _ _ h := by cases h
  noticed := List.forall_mem_nil _
  verdicts _ _ h := by cases h
  standing _ earlier later c g _ hholder := by cases hholder

variable {t₀ : Traffic}

theorem Tracked.turn (ht : t₀.Tracked turns t) {before last : Effect}
    (hplay : t₀.play? turns = some (before, t)) (h : t.turn? a = some (last, u)) :
    t₀.Tracked (turns ++ [a]) u where
  sound := ht.sound.turn h
  config := (config_turn h).trans ht.config
  past g τ hτ := by
    rw [along_concat _ hplay] at hτ
    refine Duration.le_trans ?_ (elapsed_le_turn h)
    obtain hτ | hτ := List.mem_append.1 hτ
    · exact ht.past g τ hτ
    · exact Turn.le_of_mem_heard hτ
  active c session hsession τ hτ := by
    rw [along_concat _ hplay] at hτ
    obtain ⟨hkept, hnone⟩ | ⟨hactive, -⟩ := get?_sessions_turn ht.sound h hsession
    · rw [hnone, List.append_nil] at hτ
      exact ht.active c session hkept τ hτ
    · rw [hactive]
      obtain hτ | hτ := List.mem_append.1 hτ
      · exact ht.past _ τ hτ
      · exact Turn.le_of_mem_heard hτ
  noticed n hn := by
    obtain hold | ⟨rfl, hsilent⟩ := noticed_turn h hn
    · exact (ht.noticed n hold).concat a
    · exact ⟨turns, [], before, t, rfl, hplay, hsilent⟩
  verdicts c g hverdict := by
    obtain ⟨earlier, later, hq⟩ := List.append_of_mem hverdict
    obtain ⟨front, back, hold, -⟩ | ⟨-, -, hfound⟩ := split_turn h hq
    · refine (ht.verdicts c g ?_).concat a
      rw [hold]
      exact List.mem_append_right _ List.mem_cons_self
    · exact (ht.noticed (c, g) (List.mem_of_mem_head? hfound)).concat a
  standing hfair := by
    obtain ⟨hturns, hstands⟩ := hfair.concat hplay
    exact (ht.standing hturns).turn ht.sound hstands h

theorem tracked_play {config : Config} {broker : Broker} {clock : Clock}
    (h : (start config broker clock).play? turns = some (effect, t)) :
    (start config broker clock).Tracked turns t :=
  play_induction (tracked_start config broker clock)
    (fun _ _ _ _ _ _ hplay ht hturn => ht.turn hplay hturn) h

/-- A session that is silent has not been heard within the timeout. -/
theorem Tracked.unheard (ht : t₀.Tracked turns t)
    (hsilent : t.server.isSilent t.clock client g = true) :
    ∀ τ ∈ along (Turn.heard g) turns t₀, τ + t₀.server.config.clientTimeout < t.clock.elapsed := by
  obtain ⟨session, hget, rfl, hlate⟩ := isSilent_iff.1 hsilent
  rw [ht.config] at hlate
  intro τ hτ
  exact Duration.add_lt_of_le (ht.active client session hget τ hτ) hlate

/-- The handling of a verdict ends the session, if it is still there. -/
theorem act?_dispatch_silent {events : List Event}
    (hq : t.server.events = .silent client g :: events)
    (hcurrent : t.server.isCurrent client g = true) :
    ∃ u, t.act? .dispatch = some ({ calls := [.disconnect client], ended := [g] }, u) := by
  have hcurrent : isCurrent { t.server with events } client g = true := hcurrent
  rw [act?, dispatch, hq]
  simp only [handle, disconnect, if_pos hcurrent]
  exact ⟨_, rfl⟩

/-- A session that ends as silent. It was silent when the search found it: by then no packet of it
had been handled within the timeout. And if the verdicts stand when they are put into the queue, no
packet of it has been handled within the timeout when it ends. -/
theorem silence_verdicts (config : Config) (broker : Broker) (clock : Clock) (turns : List Turn)
    (effect : Effect) (t : Traffic)
    (h : (start config broker clock).play? turns = some (effect, t))
    (client : String) (g : Nat) (events : List Event)
    (hq : t.server.events = .silent client g :: events)
    (hcurrent : t.server.isCurrent client g = true) :
    let t₀ := start config broker clock
    (∃ u, t.act? .dispatch = some ({ calls := [.disconnect client], ended := [g] }, u)) ∧
      (∃ before after e s, turns = before ++ .act .checkSilence :: after ∧
        t₀.play? before = some (e, s) ∧ s.server.isSilent s.clock client g = true ∧
        ∀ τ ∈ along (Turn.heard g) before t₀, τ + config.clientTimeout < s.clock.elapsed) ∧
      (t₀.Fair turns →
        ∀ τ ∈ along (Turn.heard g) turns t₀, τ + config.clientTimeout < t.clock.elapsed) := by
  intro t₀
  have htracked := tracked_play h
  refine ⟨act?_dispatch_silent hq hcurrent, ?_, fun hfair => ?_⟩
  · obtain ⟨before, after, e, s, hturns, hplay, hsilent⟩ :=
      htracked.verdicts client g (by rw [hq]; exact List.mem_cons_self)
    exact ⟨before, after, e, s, hturns, hplay, hsilent, (tracked_play hplay).unheard hsilent⟩
  · exact htracked.unheard
      (htracked.standing hfair [] events client g hq (isCurrent_iff.1 hcurrent)).1

/-- The client `A` is heard after a second and never again. -/
def quietTurns : List Turn := [
  .act (.request ⟨"A", false, 0.0⟩), .act (.enroll 0), .act (.welcome 0 true), .act .dispatch,
  .act (.elapse (.ofSeconds 1)), .act (.packet 0 ⟨[]⟩), .act .dispatch,
  .act (.elapse (.ofSeconds 6)), .act .checkSilence, .act .reportSilence]

theorem silence_verdicts_quietTurns :
    ∃ effect t, startZero.play? quietTurns = some (effect, t) ∧
      t.server.events = [.silent "A" 0] ∧ t.server.isCurrent "A" 0 = true ∧
      startZero.Fair quietTurns ∧ along (Turn.heard 0) quietTurns startZero = [.ofSeconds 1] ∧
      ∀ τ ∈ along (Turn.heard 0) quietTurns startZero,
        τ + startZero.server.config.clientTimeout < t.clock.elapsed := by
  have hrun : (startZero.play? quietTurns).any (fun r =>
      r.2.server.events = [.silent "A" 0] ∧ r.2.server.isCurrent "A" 0 = true) = true := by
    decide +kernel
  have hfair : startZero.Fair quietTurns := by decide +kernel
  obtain ⟨⟨effect, t⟩, h, hfacts⟩ := (Option.any_eq_true ..).1 hrun
  obtain ⟨hq, hcurrent⟩ := of_decide_eq_true hfacts
  exact ⟨effect, t, h, hq, hcurrent, hfair, by decide +kernel,
    (silence_verdicts _ _ _ quietTurns effect t h "A" 0 [] hq hcurrent).2.2 hfair⟩

/-- A packet of the client `A` that came after a second waits while the search finds `A` silent, and
is handled when the verdict is already in the queue. -/
def waitingTurns : List Turn := [
  .act (.request ⟨"A", false, 0.0⟩), .act (.enroll 0), .act (.welcome 0 true), .act .dispatch,
  .act (.elapse (.ofSeconds 1)), .act (.packet 0 ⟨[]⟩), .act (.elapse (.ofSeconds 5)),
  .act .checkSilence, .act .reportSilence, .act .dispatch]

/-- A session ends as silent at the same time at which a packet of it is handled. -/
theorem heard_client_ends_as_silent :
    ∃ effect t, startZero.play? waitingTurns = some (effect, t) ∧
      along (Turn.heard 0) waitingTurns startZero = [t.clock.elapsed] ∧
      ((t.act? .dispatch).any fun r => r.1.calls = [.disconnect "A"] ∧ r.1.ended = [0]) = true := by
  have hrun : (startZero.play? waitingTurns).any (fun r =>
      along (Turn.heard 0) waitingTurns startZero = [r.2.clock.elapsed] ∧
      ((r.2.act? .dispatch).any fun r => r.1.calls = [.disconnect "A"] ∧ r.1.ended = [0]) = true) =
        true := by decide +kernel
  obtain ⟨⟨effect, t⟩, h, hfacts⟩ := (Option.any_eq_true ..).1 hrun
  obtain ⟨hheard, hends⟩ := of_decide_eq_true hfacts
  exact ⟨effect, t, h, hheard, hends⟩

end Traffic

end Server

end PubSub
