import PubSub.Proofs.Broker.DataType
import PubSub.Proofs.Broker.Matching

/-!
# Subscriptions with an interval

A subscriber that is not to be told of every write gets new mail of a variable only if at least the
period of its subscription has passed since it got the last one; a write in between at most takes
the place of the mail of the variable that it has not collected yet (`Broker.throttled_mail`).

The invariant of each step is `Broker.Throttled`: the variable stays written and the client
subscribed with its period. A write that is due makes the client's mail longer and notes its own
time as that of the last mail; nothing else changes that time, so the times of such writes are a
chain that begins with it (`Broker.Throttled.isChain_growth`).
-/

namespace PubSub.Broker

variable {b : Broker} {client key : String} {x : Subscription}

/-! ## Mail that is replaced -/

/-- The last message of a variable has been replaced by a new one and all other messages have
stayed, or there was no message of the variable and all have stayed. -/
def ReplacesLast (key : String) (m : Message) (mail mail' : List Message) : Prop :=
  (∀ n ∈ mail, n.key ≠ key) ∧ mail' = mail ∨
    ∃ older last newer, mail = older ++ last :: newer ∧ last.key = key ∧
      (∀ n ∈ newer, n.key ≠ key) ∧ mail' = older ++ m :: newer

/-- A message comes after the mail, or the mail gets no longer and the message at most replaces the
last one of its variable. -/
def AddsOrReplaces (key : String) (m : Message) (mail mail' : List Message) : Prop :=
  if mail.length < mail'.length then mail' = mail ++ [m] else ReplacesLast key m mail mail'

theorem ReplacesLast.length_eq {m : Message} {mail mail' : List Message}
    (h : ReplacesLast key m mail mail') : mail'.length = mail.length := by
  obtain ⟨-, rfl⟩ | ⟨older, last, newer, rfl, -, -, rfl⟩ := h
  · rfl
  · simp

/-- If all mail is notifications, a message replaces the last one of its variable. -/
theorem replacesLast {m : Message} {mail : List Message} (h : ∀ n ∈ mail, n.type = .notify) :
    ReplacesLast m.key m mail (replaceLast m mail) := by
  induction mail using List.reverseRecOn with
  | nil => exact .inl ⟨List.forall_mem_nil _, rfl⟩
  | append_singleton mail n ih =>
    rw [replaceLast_concat]
    by_cases hkey : n.key = m.key
    · rw [if_pos ⟨h n (by simp), hkey⟩]
      exact .inr ⟨mail, n, [], rfl, hkey, List.forall_mem_nil _, rfl⟩
    · rw [if_neg fun hold => hkey hold.2]
      obtain ⟨hnone, hsame⟩ | ⟨older, last, newer, hmail, hlast, hnewer, hreplaced⟩ :=
        ih fun n hn => h n (List.mem_append_left _ hn)
      · refine .inl ⟨List.forall_mem_append.2 ⟨hnone, List.forall_mem_singleton.2 hkey⟩, ?_⟩
        rw [hsame]
      · refine .inr ⟨older, last, newer ++ [n], ?_, hlast,
          List.forall_mem_append.2 ⟨hnewer, List.forall_mem_singleton.2 hkey⟩, ?_⟩
        · rw [hmail, List.append_assoc, List.cons_append]
        · rw [hreplaced, List.append_assoc, List.cons_append]

/-- All held mail is notifications. -/
def Notifying (b : Broker) : Prop := ∀ client, ∀ w ∈ b.heldFor client, w.type = .notify

theorem notifying_start (config : Config) (now : Float) : (start config now).Notifying := by
  intro client w hw
  cases hw

theorem Notifying.apply (h : b.Notifying) (s : Step) : (s.apply b).Notifying := by
  intro c w hw
  cases s with
  | write now m hm =>
    by_cases haccepts : b.Accepts now m
    · rw [Step.apply_write_of_accepts hm haccepts, heldFor_fanOut] at hw
      have hmem : w ∈ b.heldFor c ∨ w = m.stamped b.config.community := by
        split at hw
        · exact .inl hw
        · split at hw
          · exact (List.mem_append.1 hw).imp_right List.mem_singleton.1
          · exact (mem_replaceLast hw).symm
      obtain hw | rfl := hmem
      · exact h c w hw
      · rw [Message.stamped_type, hm]
    · rw [Step.apply_write_of_not_accepts hm haccepts] at hw
      exact h c w hw
  | subscribe client k period now =>
    rw [Step.apply, heldFor_subscribe] at hw
    split at hw
    · obtain hw | hw := List.mem_append.1 hw
      · exact h c w hw
      · obtain ⟨v, -, rfl⟩ := eq_of_mem_snapshot hw
        rfl
    · exact h c w hw
  | clear now =>
    rw [Step.apply, Step.heldFor_clear] at hw
    cases hw
  | collect client =>
    rw [Step.apply, heldFor_collect] at hw
    split at hw
    · cases hw
    · exact h c w hw
  | forget client =>
    rw [Step.heldFor_forget] at hw
    split at hw
    · cases hw
    · exact h c w hw
  | withdraw | keep | drop | note => exact h c w hw

theorem Notifying.run (h : b.Notifying) (steps : List Step) : (Step.run steps b).Notifying :=
  List.foldlRecOn steps _ h fun _ hb s _ => hb.apply s

theorem Notifying.performActs (h : b.Notifying) (acts : List (Float × Act)) :
    (performActs acts b).Notifying := by
  rw [← run_scriptActs]
  exact h.run _

/-! ## One step -/

/-- The time of a write of a variable that makes a client's mail longer. -/
def Step.growth (client key : String) : Step → Broker → List Float
  | .write now m hm, b =>
    if m.key = key ∧
        (b.heldFor client).length < (((Step.write now m hm).apply b).heldFor client).length
    then [now] else []
  | _, _ => []

/-- A variable has been written, and a client has this subscription to it. -/
structure Throttled (client key : String) (x : Subscription) (b : Broker) : Prop where
  named : b.Named
  notifying : b.Notifying
  written : ¬ b.Unwritten key
  subscribed : b.subscription? client key = some x

/-- An accepted write comes after the client's mail if the client is due, and otherwise replaces the
last mail of the variable. -/
theorem Throttled.heldFor_write (h : b.Throttled client key x) {now : Float} {m : Message}
    (hm : m.type = .notify) (hkey : m.key = key) (haccepts : b.Accepts now m) :
    ((Step.write now m hm).apply b).heldFor client =
      if x.isDue now then b.heldFor client ++ [m.stamped b.config.community]
      else replaceLast (m.stamped b.config.community) (b.heldFor client) := by
  subst hkey
  have htarget : (b.target now m).subscriptions.get? client = some x := by
    rw [get?_subscriptions_target, if_neg h.written, h.subscribed]
  rw [Step.apply_write_of_accepts hm haccepts, heldFor_fanOut, Variable.write_subscriptions,
    htarget]

/-- An accepted write that makes the client's mail longer comes after it, and another one at most
replaces the last mail of the variable. -/
theorem Throttled.heldFor_notify (h : b.Throttled client key x) {now : Float} {m : Message}
    (hm : m.type = .notify) (hkey : m.key = key) {b' : Broker} (hb' : b.notify now m = .ok b') :
    AddsOrReplaces key (m.stamped b.config.community) (b.heldFor client) (b'.heldFor client) := by
  have happly : (Step.write now m hm).apply b = b' := by rw [Step.apply, hb']
  rw [AddsOrReplaces, ← happly, h.heldFor_write hm hkey (accepts_of_notify hb')]
  by_cases hdue : x.isDue now = true
  · rw [if_pos hdue, if_pos (by simp)]
  · have hreplaces := replacesLast (m := m.stamped b.config.community) (h.notifying client)
    rw [if_neg hdue, if_neg (by rw [hreplaces.length_eq]; exact Nat.lt_irrefl _)]
    rwa [Message.stamped_key, hkey] at hreplaces

/-- An accepted write makes the client's mail longer if the client is due, and only then. -/
theorem Throttled.growth_eq (h : b.Throttled client key x) {now : Float} {m : Message}
    (hm : m.type = .notify) (hkey : m.key = key) (haccepts : b.Accepts now m) :
    (Step.write now m hm).growth client key b = if x.isDue now then [now] else [] := by
  rw [Step.growth, h.heldFor_write hm hkey haccepts]
  split
  · rw [if_pos ⟨hkey, by simp⟩]
  · rw [if_neg fun hlonger => ?_]
    have hlength := (replacesLast (m := m.stamped b.config.community)
      (h.notifying client)).length_eq
    exact absurd hlonger.2 (by omega)

theorem written_apply (hn : b.Named) (h : ¬ b.Unwritten key) {s : Step} (hs : s.NoClear) :
    ¬ (s.apply b).Unwritten key := by
  obtain ⟨v, hv, hw⟩ := (b.written_or_unwritten key).resolve_right h
  have htyped : b.Typed key v.dataType := ⟨v, hv, hw, rfl⟩
  obtain ⟨u, hu, hwritten, -⟩ := htyped.apply hn hs
  exact fun hunwritten => hwritten (hunwritten u hu)

/-- A step that is no accepted write of the variable, and does not change the client's
registrations, leaves the subscription as it is. -/
theorem Throttled.subscription?_apply (h : b.Throttled client key x) {s : Step}
    (hs : s.Leaves client)
    (hother : ∀ now m hm, s = .write now m hm → m.key = key → ¬ b.Accepts now m) :
    (s.apply b).subscription? client key = some x := by
  rw [← h.subscribed]
  cases s with
  | write now m hm =>
    by_cases hkey : m.key = key
    · rw [Step.apply_write_of_not_accepts hm (hother now m hm rfl hkey)]
    · exact subscription?_write_of_ne h.named hm client hkey
  | subscribe c k period now => exact subscription?_subscribe_of_ne b hs k key period now
  | withdraw c ends =>
    rw [subscription?_withdraw, Step.renewed, Step.changes, if_neg fun hmine => hs hmine.1]
    rfl
  | clear now =>
    rw [subscription?, Step.get?_store_clear, subscription?]
    cases b.store.get? key <;> rfl
  | collect c => rw [subscription?, Step.apply, store_collect, subscription?]
  | keep | drop | forget | note => rfl

/-- A step either makes the client's mail longer by a write at a time when the client is due, and
notes that time, or it does not and changes nothing of the subscription. -/
theorem Throttled.apply (h : b.Throttled client key x) {s : Step} (hclear : s.NoClear)
    (hleaves : s.Leaves client) :
    (∃ now, s.growth client key b = [now] ∧ x.isDue now = true ∧
      (s.apply b).Throttled client key { x with lastSent := now }) ∨
    s.growth client key b = [] ∧ (s.apply b).Throttled client key x := by
  have hnext {y : Subscription} (hy : (s.apply b).subscription? client key = some y) :
      (s.apply b).Throttled client key y :=
    ⟨h.named.apply s, h.notifying.apply s, written_apply h.named h.written hclear, hy⟩
  by_cases hwrite : ∃ now m hm, s = .write now m hm ∧ m.key = key ∧ b.Accepts now m
  · obtain ⟨now, m, hm, rfl, rfl, haccepts⟩ := hwrite
    have hserved : ((Step.write now m hm).apply b).subscription? client m.key =
        some (if x.isDue now then { x with lastSent := now } else x) := by
      rw [subscription?_write_of_accepts h.named hm haccepts, get?_subscriptions_target,
        if_neg h.written, h.subscribed, Option.map_some]
    rw [h.growth_eq hm rfl haccepts]
    by_cases hdue : x.isDue now = true
    · rw [if_pos hdue] at hserved
      exact .inl ⟨now, if_pos hdue, hdue, hnext hserved⟩
    · rw [if_neg hdue] at hserved
      exact .inr ⟨if_neg hdue, hnext hserved⟩
  · have hother (now : Float) (m : Message) (hm : m.type = .notify) (hs : s = .write now m hm)
        (hkey : m.key = key) : ¬ b.Accepts now m :=
      fun haccepts => hwrite ⟨now, m, hm, hs, hkey, haccepts⟩
    refine .inr ⟨?_, hnext (h.subscription?_apply hleaves hother)⟩
    cases s with
    | write now m hm =>
      refine if_neg fun hlonger => ?_
      rw [Step.apply_write_of_not_accepts hm (hother now m hm rfl hlonger.1)] at hlonger
      exact absurd hlonger.2 (Nat.lt_irrefl _)
    | subscribe | withdraw | keep | drop | clear | collect | forget | note => rfl

/-! ## Runs -/

/-- Steps that neither clear the broker nor change the client's registrations. -/
def Undisturbed (client : String) (steps : List Step) : Prop :=
  ∀ s ∈ steps, s.NoClear ∧ s.Leaves client

/-- The subscription stays, and the times of writes that make the client's mail longer are a chain
that begins with the time of the last mail. -/
theorem Throttled.run (h : b.Throttled client key x) {steps : List Step}
    (hsteps : Undisturbed client steps) :
    (∃ y, (Step.run steps b).Throttled client key y) ∧
      (x.lastSent :: Step.along (Step.growth client key) steps b).IsChain
        fun t t' => x.period ≤ t' - t := by
  induction steps generalizing b x with
  | nil => exact ⟨⟨x, h⟩, .singleton _⟩
  | cons s steps ih =>
    obtain ⟨hs, hsteps⟩ := List.forall_mem_cons.1 hsteps
    rw [Step.along_cons, Step.run_cons]
    obtain ⟨now, hgrowth, hdue, hnext⟩ | ⟨hgrowth, hnext⟩ := h.apply hs.1 hs.2
    · obtain ⟨hlast, hchain⟩ := ih hnext hsteps
      rw [hgrowth, List.singleton_append]
      exact ⟨hlast, .cons_cons (of_decide_eq_true hdue) hchain⟩
    · rw [hgrowth, List.nil_append]
      exact ih hnext hsteps

/-- An operation that does not clear the broker, does not disconnect the client, and is no packet of
the client with a registration or the end of one. -/
def Op.LeavesAlone (client : String) : Op → Prop
  | .receive c ms => (∀ m ∈ ms, m.type = .serverRequest → ¬ Clears m) ∧
      (c = client → ∀ m ∈ ms, ¬ IsRegistration m)
  | .disconnect c => c ≠ client
  | _ => True

instance (client : String) : (op : Op) → Decidable (op.LeavesAlone client)
  | .receive _ ms => inferInstanceAs
      (Decidable ((∀ m ∈ ms, m.type = .serverRequest → ¬ Clears m) ∧ (_ → _)))
  | .disconnect _ => inferInstanceAs (Decidable (_ ≠ _))
  | .fetch _ | .connect _ | .keepHouse | .keepHouseIfDue => inferInstanceAs (Decidable True)

theorem undisturbed_message {now : Float} {c : String} {m : Message}
    (hclears : m.type = .serverRequest → ¬ Clears m) (hm : c = client → ¬ IsRegistration m)
    (b : Broker) : Undisturbed client (Script.message now c m b) := by
  intro s hs
  refine ⟨?_, ?_⟩
  · exact Script.forall_mem_message (fun _ => trivial) (fun _ => trivial)
      (fun _ _ _ => ⟨trivial, fun _ => trivial⟩) (fun _ => trivial) (fun _ => trivial) hclears b
      s hs
  · by_cases hc : c = client
    · subst hc
      exact leaves_message (hm rfl) s hs
    · exact leaves_message_of_ne hc m b s hs

theorem undisturbed_script {now : Float} {op : Op} (hop : op.LeavesAlone client) (b : Broker) :
    Undisturbed client (op.script now b) := by
  refine Op.forall_mem_script (fun _ _ => ⟨trivial, trivial⟩) (fun _ _ _ => ⟨trivial, trivial⟩)
    (fun _ => ⟨trivial, trivial⟩) ?_ ?_ b
  · rintro c ms rfl m hm
    exact undisturbed_message (hop.1 m hm) fun hc => hop.2 hc m hm
  · rintro c rfl
    exact ⟨⟨trivial, hop⟩, trivial, trivial⟩

theorem undisturbed_scriptAll {ops : List (Float × Op)} (hops : ∀ o ∈ ops, o.2.LeavesAlone client)
    (b : Broker) : Undisturbed client (scriptAll ops b) := by
  refine Script.forall_mem_inTurn ?_ b
  intro s hs b
  obtain ⟨o, ho, rfl⟩ := List.mem_map.1 hs
  exact undisturbed_script (hops o ho) b

/-- A run from any state that a broker reaches, in which a client is subscribed to a variable that
has been written, that does not change the client's registrations, does not disconnect it and does
not clear the broker. Two successive times at which a write of the variable makes the client's mail
longer are at least the period of the subscription apart. Whatever write of the variable is accepted
on the way either comes after the client's mail, or does not make it longer and at most replaces the
last message of the variable in it. The times need not be in order. -/
theorem throttled_mail (config : Config) (startTime : Float) (before : List (Float × Act))
    (ops : List (Float × Op)) (client key : String) (x : Subscription) {b : Broker}
    (hb : b = performActs before (start config startTime)) (hwritten : ¬ b.Unwritten key)
    (hx : b.subscription? client key = some x) (hops : ∀ o ∈ ops, o.2.LeavesAlone client) :
    (Step.along (Step.growth client key) (scriptAll ops b) b).IsChain
        (fun t t' => x.period ≤ t' - t) ∧
      ∀ earlier now m hm later, scriptAll ops b = earlier ++ .write now m hm :: later →
        m.key = key →
          let c := Step.run earlier b
          ∀ c', c.notify now m = .ok c' →
            AddsOrReplaces key (m.stamped c.config.community) (c.heldFor client)
              (c'.heldFor client) := by
  have hthrottled : b.Throttled client key x := {
    named := hb ▸ (named_start config startTime).performActs before
    notifying := hb ▸ (notifying_start config startTime).performActs before
    written := hwritten
    subscribed := hx }
  have hsteps := undisturbed_scriptAll hops b
  refine ⟨(hthrottled.run hsteps).2.tail, ?_⟩
  intro earlier now m hm later hscript hkey c c' hnotify
  rw [hscript] at hsteps
  obtain ⟨y, hy⟩ := (hthrottled.run (List.forall_mem_append.1 hsteps).1).1
  exact hy.heldFor_notify hm hkey hnotify

/-- `X` is written, and `C` subscribes to one write in half a second. -/
def subscribedRun : List (Float × Act) := [
  (0.25, .process "A" (writeX 1.0)),
  (0.5, .process "C" (registerX 0.5))]

/-- `X` is written every quarter of a second, and the mail of `C` is fetched once. -/
def spacedRun : List (Float × Op) := [
  (0.75, .receive "A" [writeX 2.0]),
  (1.0, .receive "A" [writeX 3.0]),
  (1.0, .fetch "C"),
  (1.25, .receive "A" [writeX 4.0]),
  (1.5, .receive "A" [writeX 5.0]),
  (1.75, .receive "A" [writeX 6.0])]

theorem throttled_mail_spacedRun :
    let b := performActs subscribedRun (start (.ofCommunity "#1") 0.0)
    let x : Subscription := { period := 0.5, lastSent := 0.5 }
    (¬ b.Unwritten "X" ∧ b.subscription? "C" "X" = some x ∧
      ∀ o ∈ spacedRun, o.2.LeavesAlone "C") ∧
    Step.along (Step.growth "C" "X") (scriptAll spacedRun b) b = [1.0, 1.5] ∧
    (Step.along (Step.growth "C" "X") (scriptAll spacedRun b) b).IsChain
        (fun t t' => x.period ≤ t' - t) ∧
      ∀ earlier now m hm later, scriptAll spacedRun b = earlier ++ .write now m hm :: later →
        m.key = "X" →
          let c := Step.run earlier b
          ∀ c', c.notify now m = .ok c' →
            AddsOrReplaces "X" (m.stamped c.config.community) (c.heldFor "C") (c'.heldFor "C") := by
  intro b x
  have hwritten : ¬ b.Unwritten "X" := by decide +kernel
  have hx : b.subscription? "C" "X" = some x := by decide +kernel
  have hops : ∀ o ∈ spacedRun, o.2.LeavesAlone "C" := by decide +kernel
  exact ⟨⟨hwritten, hx, hops⟩, by decide +kernel,
    throttled_mail _ 0.0 subscribedRun spacedRun "C" "X" x rfl hwritten hx hops⟩

end PubSub.Broker
