import PubSub.Proofs.Broker.Acts
import PubSub.Proofs.Broker.Departure
import PubSub.Proofs.Broker.Periods
import PubSub.Proofs.Broker.Subscriptions
import PubSub.Proofs.Broker.Unthrottled

/-!
# Filters that have matched

A filter is matched against a variable and its writer on two occasions: when the client registers
it, and when the variable is written for the first time, ever or since all were cleared. If a filter
of interval 0 has matched then, the client gets every later write of the variable, whoever writes it
(`Broker.heldFor_of_matched`); if it has not, the client may get none, also of those writes that the
filter does match (`Broker.unmatched_filter_gets_nothing`).

The invariant of each step is `Broker.Due`: the client has a subscription to every write of the
variable, which is due at all times still to come. A step keeps it if the last change that it makes
to the subscription, if any, is to that (`Broker.EndsOpen`).
-/

namespace PubSub.Broker

variable {b : Broker} {client key : String} {now : Float} {times : List Float}

/-! ## A subscription that stays due -/

/-- A client is subscribed to every write of a variable, and due at all of the times. -/
def Due (client key : String) (times : List Float) (b : Broker) : Prop :=
  ∃ x, b.subscription? client key = some x ∧ x.period = 0.0 ∧ ∀ t ∈ times, x.isDue t = true

theorem Due.of_subset {rest : List Float} (h : b.Due client key times) (hsub : rest ⊆ times) :
    b.Due client key rest := by
  obtain ⟨x, hx, hperiod, hdue⟩ := h
  exact ⟨x, hx, hperiod, fun t ht => hdue t (hsub ht)⟩

/-- A step that serves a subscription does so now. -/
def Step.At (now : Float) (s : Step) : Prop := ∀ t, s.time? = some t → t = now

/-- A client is due after a step if the last change is to subscribe it to every write, or if nothing
changes and it is due before. -/
theorem due_apply (hn : b.Named) (htimes : From now times) {s : Step} (hat : s.At now)
    (h : (s.changes client key b).getLast? = some (some 0.0) ∨
      s.changes client key b = [] ∧ b.Due client key times) :
    (s.apply b).Due client key times := by
  obtain ⟨served, hserved, happly⟩ := subscription?_apply hn s client key
  have hrenewed : ∃ x, s.renewed client key b = some x ∧ x.period = 0.0 ∧
      ∀ t ∈ times, x.isDue t = true := by
    rw [Step.renewed]
    obtain hlast | ⟨hnone, hdue⟩ := h
    · rw [hlast]
      exact ⟨{ period := 0.0 }, rfl, rfl, fun t ht =>
        Subscription.isDue_fresh (htimes.nonneg t ht)⟩
    · rw [hnone]
      exact hdue
  obtain ⟨x, hx, hperiod, hdue⟩ := hrenewed
  refine ⟨served x, by rw [happly, hx, Option.map_some], ?_⟩
  obtain heq | ⟨t, ht, heq⟩ := hserved x
  · rw [heq]
    exact ⟨hperiod, hdue⟩
  · rw [heq, hat t ht]
    exact ⟨hperiod, fun t ht => Subscription.isDue_served hperiod (htimes.nonneg _ htimes.mem)
      (htimes.le t ht) (htimes.finite t ht)⟩

theorem due_run (hn : b.Named) (htimes : From now times) {steps : List Step}
    (hat : ∀ s ∈ steps, s.At now)
    (h : (Step.along (Step.changes client key) steps b).getLast? = some (some 0.0) ∨
      Step.along (Step.changes client key) steps b = [] ∧ b.Due client key times) :
    (Step.run steps b).Due client key times := by
  induction steps generalizing b with
  | nil =>
    obtain hlast | ⟨-, hdue⟩ := h
    · cases hlast
    · exact hdue
  | cons s steps ih =>
    obtain ⟨hs, hsteps⟩ := List.forall_mem_cons.1 hat
    refine ih (hn.apply s) hsteps ?_
    -- What comes last comes in the steps behind, or else nothing changes there.
    by_cases hrest : Step.along (Step.changes client key) steps (s.apply b) = []
    · rw [Step.along_cons, hrest, List.append_nil] at h
      exact .inr ⟨hrest, due_apply hn htimes hs h⟩
    · rw [Step.along_cons, List.getLast?_append_of_ne_nil _ hrest] at h
      exact .inl (h.resolve_right fun hnone => hrest (List.append_eq_nil_iff.1 hnone.1).2)

/-! ## Acts on a subscription -/

/-- Whether a filter matches a variable and its last writer. -/
def isCovered (b : Broker) (f : Filter) (key : String) : Bool :=
  (b.store.get? key).any fun v => f.covers v.writer key

/-- The filters of a client that a step matches against the first write of a variable. -/
def Step.consulted (client key : String) : Step → Broker → List Filter
  | .write _ m _, b => if m.key = key ∧ b.Unwritten key then b.covering client m else []
  | _, _ => []

/-- The filter that a client registers, if it matches a variable and its last writer. -/
def Act.registered (client key : String) : Act → Broker → List Filter
  | .process c m, b =>
    if c = client ∧ m.type = .wildcardRegister then
      (Filter.parse m.textValue).toOption.toList.filter fun f => b.isCovered f key
    else []
  | _, _ => []

/-- The filters of a client that an act matches against a variable and finds to match: those that
cover a first write, or the one that the client registers. -/
def Act.matched (now : Float) (client key : String) (act : Act) (b : Broker) : List Filter :=
  Step.along (Step.consulted client key) (act.script now b) b ++ act.registered client key b

/-- An act does not end a client's subscription to a variable, and if it subscribes the client, it
does so with the interval 0 in the end. -/
def Act.Spares (now : Float) (client key : String) (act : Act) (b : Broker) : Prop :=
  (∀ f ∈ (act.matched now client key b).getLast?, f.period = 0.0) ∧
    match act with
    | .process c m => c = client →
      (m.type = .register → m.key = key → ¬ 0.0 < m.value) ∧
        (m.type = .unregister → m.key ≠ key) ∧
        (m.type = .wildcardUnregister →
          ∀ f ∈ (Filter.parse m.textValue).toOption, b.isCovered f key = false)
    | .release c => c ≠ client
    | _ => True

instance (now : Float) (client key : String) (act : Act) (b : Broker) :
    Decidable (act.Spares now client key b) :=
  match act with
  | .process _ _ => inferInstanceAs (Decidable (_ ∧ (_ → _)))
  | .release _ => inferInstanceAs (Decidable (_ ∧ _ ≠ _))
  | .arrive _ _ | .fetch _ | .publishNumber _ _ | .publishText _ _ | .enlist _ | .beginSummary =>
    inferInstanceAs (Decidable (_ ∧ True))

theorem raised_zero : Bounds.raised 0.0 = 0.0 := by decide

/-! ## What matches changes the subscription -/

/-- Each filter that is consulted at a first write subscribes the client. -/
theorem mem_changes_of_consulted {f : Filter} {steps : List Step}
    (h : f ∈ Step.along (Step.consulted client key) steps b) :
    some (Bounds.raised f.period) ∈ Step.along (Step.changes client key) steps b := by
  induction steps generalizing b with
  | nil => cases h
  | cons s steps ih =>
    refine List.mem_append.2 ((List.mem_append.1 h).imp (fun h => ?_) ih)
    cases s with
    | write t m hm =>
      rw [Step.consulted] at h
      rw [Step.changes]
      split at h
      · rename_i hfirst
        rw [if_pos hfirst]
        exact List.mem_map.2 ⟨f, h, rfl⟩
      · cases h
    | subscribe | withdraw | keep | drop | clear | collect | forget | note => cases h

/-- Subscribing a client to several variables. -/
theorem mem_changes_subscribe {vs : List Variable} {period : Float} {change : Option Float} :
    change ∈ Step.along (Step.changes client key)
        (vs.map fun v => .subscribe client v.name period now) b ↔
      change = some (Bounds.raised period) ∧ ∃ v ∈ vs, v.name = key := by
  induction vs generalizing b with
  | nil => simp
  | cons v vs ih =>
    rw [List.map_cons, Step.along_cons, List.mem_append, ih, Step.changes]
    by_cases hkey : v.name = key
    · rw [if_pos ⟨rfl, hkey⟩, List.mem_singleton]
      exact ⟨fun h => ⟨h.elim id And.left, v, .head _, hkey⟩, fun h => .inl h.1⟩
    · rw [if_neg fun h => hkey h.2]
      simp [hkey]

theorem isCovered_eq (hn : b.Named) {f : Filter} :
    b.isCovered f key = (b.store.get? key).any fun v => f.covers v.writer v.name := by
  rw [isCovered]
  cases hv : b.store.get? key with
  | none => rfl
  | some v => rw [Option.any_some, Option.any_some, hn key v hv]

theorem isCovered_iff (hn : b.Named) {f : Filter} :
    b.isCovered f key = true ↔
      ∃ v ∈ b.store.values.filter fun v => f.covers v.writer v.name, v.name = key := by
  rw [isCovered, Option.any_eq_true]
  constructor
  · rintro ⟨v, hv, hcovers⟩
    have hname := hn key v hv
    have hmem : v ∈ b.store.values := List.mem_map.2 ⟨(key, v), Table.mem_entries_iff.2 hv, rfl⟩
    exact ⟨v, List.mem_filter.2 ⟨hmem, by rwa [hname]⟩, hname⟩
  · rintro ⟨v, hv, rfl⟩
    obtain ⟨hmem, hcovers⟩ := List.mem_filter.1 hv
    obtain ⟨⟨k, u⟩, hentry, rfl⟩ := List.mem_map.1 hmem
    have hu := Table.mem_entries_iff.1 hentry
    exact ⟨u, by rwa [hn k u hu], hcovers⟩

/-- A registration by a filter changes the subscription if the filter matches. -/
theorem mem_changes_register (hn : b.Named) {m : Message} (htype : m.type = .wildcardRegister)
    {change : Option Float} :
    change ∈ Step.along (Step.changes client key) (Script.message now client m b) b ↔
      ∃ f, Filter.parse m.textValue = .ok f ∧ b.isCovered f key = true ∧
        change = some (Bounds.raised f.period) := by
  rw [Script.message_of_wildcardRegister b htype]
  cases Filter.parse m.textValue with
  | error e => simp
  | ok f =>
    refine (mem_changes_subscribe (b := (Step.keep client f).apply b)).trans ?_
    rw [← isCovered_iff hn]
    constructor
    · rintro ⟨hchange, hcovered⟩
      exact ⟨f, rfl, hcovered, hchange⟩
    · rintro ⟨g, hg, hcovered, hchange⟩
      cases hg
      exact ⟨hchange, hcovered⟩

/-- Each filter that matches subscribes the client. -/
theorem mem_changes_of_matched (hn : b.Named) {act : Act} {f : Filter}
    (h : f ∈ act.matched now client key b) :
    some (Bounds.raised f.period) ∈ Step.along (Step.changes client key) (act.script now b) b := by
  obtain hconsulted | hregistered := List.mem_append.1 h
  · exact mem_changes_of_consulted hconsulted
  · cases act with
    | process c m =>
      rw [Act.registered] at hregistered
      split at hregistered
      case isTrue hmine =>
        obtain ⟨rfl, htype⟩ := hmine
        obtain ⟨hf, hcovered⟩ := List.mem_filter.1 hregistered
        refine (mem_changes_register hn htype).2 ⟨f, ?_, hcovered, rfl⟩
        cases hparse : Filter.parse m.textValue with
        | error e =>
          rw [hparse] at hf
          cases hf
        | ok g =>
          rw [hparse] at hf
          rw [List.mem_singleton.1 hf]
      case isFalse => cases hregistered
    | arrive | fetch | publishNumber | publishText | enlist | release | beginSummary =>
      cases hregistered

/-! ## What spares a subscription keeps it open -/

/-- Steps that are no registrations of the client and take none back change only what first writes
do. -/
theorem changes_of_leaves {steps : List Step} (h : ∀ s ∈ steps, s.Leaves client) (b : Broker) :
    Step.along (Step.changes client key) steps b =
      (Step.along (Step.consulted client key) steps b).map
        fun f => some (Bounds.raised f.period) := by
  induction steps generalizing b with
  | nil => rfl
  | cons s steps ih =>
    obtain ⟨hs, hsteps⟩ := List.forall_mem_cons.1 h
    rw [Step.along_cons, Step.along_cons, List.map_append, ih hsteps]
    congr 1
    cases s with
    | write t m hm =>
      rw [Step.changes, Step.consulted]
      split <;> rfl
    | subscribe c k period t => exact if_neg fun hmine => hs hmine.1
    | withdraw c ends => exact if_neg fun hmine => hs hmine.1
    | keep | drop | clear | collect | forget | note => rfl

/-- The last change that steps make to a client's subscription, if they make any, is to subscribe it
to every write. -/
def EndsOpen (client key : String) (steps : List Step) (b : Broker) : Prop :=
  ∀ change ∈ (Step.along (Step.changes client key) steps b).getLast?, change = some 0.0

/-- An act that is no registration of the client and takes none back. -/
theorem endsOpen_of_leaves {act : Act} (hspares : act.Spares now client key b)
    (hregistered : act.registered client key b = [])
    (h : ∀ s ∈ act.script now b, s.Leaves client) :
    EndsOpen client key (act.script now b) b := by
  intro change hchange
  rw [changes_of_leaves h, List.getLast?_map] at hchange
  obtain ⟨f, hf, rfl⟩ := Option.map_eq_some_iff.1 hchange
  have hmatched : (act.matched now client key b).getLast? = some f := by
    rw [Act.matched, hregistered, List.append_nil, hf]
  rw [hspares.1 f hmatched, raised_zero]

/-- A message that registers for something or takes a registration back. -/
def IsRegistration (m : Message) : Prop :=
  m.type = .register ∨ m.type = .wildcardRegister ∨ m.type = .unregister ∨
    m.type = .wildcardUnregister

instance (m : Message) : Decidable (IsRegistration m) := inferInstanceAs (Decidable (_ ∨ _))

theorem leaves_message {m : Message} (h : ¬ IsRegistration m) :
    ∀ s ∈ Script.message now client m b, s.Leaves client := by
  simp only [IsRegistration, not_or] at h
  obtain ⟨hregister, hfilter, hunregister, hremove⟩ := h
  rw [Script.message]
  split
  case h_1 => exact List.forall_mem_singleton.2 trivial
  case h_2 htype => exact absurd htype hregister
  case h_3 htype => exact absurd htype hfilter
  case h_4 htype => exact absurd htype hunregister
  case h_5 htype => exact absurd htype hremove
  case h_6 =>
    split
    · exact List.forall_mem_singleton.2 trivial
    · exact List.forall_mem_nil _
  case h_7 => exact List.forall_mem_nil _

/-- A registration by a filter. -/
theorem endsOpen_register (hn : b.Named) {m : Message} (htype : m.type = .wildcardRegister)
    (hspares : (Act.process client m).Spares now client key b) :
    EndsOpen client key (Script.message now client m b) b := by
  intro change hchange
  obtain ⟨f, hf, hcovered, rfl⟩ := (mem_changes_register hn htype).1 (List.mem_of_getLast? hchange)
  have hregistered : (Act.process client m).registered client key b = [f] := by
    rw [Act.registered, if_pos ⟨rfl, htype⟩, hf]
    exact List.filter_cons_of_pos hcovered
  have hmatched : ((Act.process client m).matched now client key b).getLast? = some f := by
    rw [Act.matched, hregistered, List.getLast?_concat]
  rw [hspares.1 f hmatched, raised_zero]

/-- A message of the client itself. -/
theorem endsOpen_process (hn : b.Named) {m : Message}
    (hspares : (Act.process client m).Spares now client key b) :
    EndsOpen client key (Script.message now client m b) b := by
  obtain ⟨hregister, hunregister, hremove⟩ := hspares.2 rfl
  have hnone {steps : List Step} (h : Step.along (Step.changes client key) steps b = []) :
      EndsOpen client key steps b := by
    intro change hchange
    rw [h] at hchange
    cases hchange
  cases htype : m.type with
  | register =>
    rw [Script.message_of_register b htype]
    by_cases hkey : m.key = key
    · intro change hchange
      have hopen : Bounds.raised m.value = 0.0 := if_neg (hregister htype hkey)
      rw [Step.along_cons, Step.changes, if_pos ⟨rfl, hkey⟩, hopen] at hchange
      exact (Option.some.inj hchange).symm
    · exact hnone ((List.append_nil _).trans (if_neg fun h => hkey h.2))
  | wildcardRegister => exact endsOpen_register hn htype hspares
  | unregister =>
    rw [Script.message_of_unregister b htype]
    refine hnone ((List.append_nil _).trans (if_neg ?_))
    rintro ⟨-, hany⟩
    obtain ⟨v, -, hkey⟩ := (Option.any_eq_true _ _).1 hany
    exact hunregister htype (of_decide_eq_true hkey).symm
  | wildcardUnregister =>
    rw [Script.message_of_wildcardUnregister b htype]
    cases hf : Filter.parse m.textValue with
    | error e => exact hnone rfl
    | ok f =>
      have huncovered : ((b.store.get? key).any fun v => f.covers v.writer v.name) = false := by
        rw [← isCovered_eq hn]
        exact hremove htype f (by rw [hf]; rfl)
      exact hnone ((List.append_nil _).trans
        (if_neg fun h => Bool.eq_false_iff.1 huncovered h.2))
  | _ =>
    refine endsOpen_of_leaves hspares (if_neg ?_) (leaves_message ?_)
    all_goals simp [htype, IsRegistration]

/-- An act that spares the subscription. -/
theorem endsOpen_of_spares (hn : b.Named) {act : Act} (hspares : act.Spares now client key b) :
    EndsOpen client key (act.script now b) b := by
  by_cases hprocess : ∃ m, act = .process client m
  · obtain ⟨m, rfl⟩ := hprocess
    exact endsOpen_process hn hspares
  · have hother (c : String) (m : Message) (h : act = .process c m) : c ≠ client := by
      rintro rfl
      exact hprocess ⟨m, h⟩
    refine endsOpen_of_leaves hspares ?_ (Act.forall_mem_script b (fun _ _ => trivial)
      (fun _ _ _ => trivial) (fun _ => trivial) ?_ ?_)
    · cases act with
      | process c m => exact if_neg fun hmine => hother c m rfl hmine.1
      | arrive | fetch | publishNumber | publishText | enlist | release | beginSummary => rfl
    · intro c m h
      exact leaves_message_of_ne (hother c m h) m b
    · rintro c rfl
      exact ⟨hspares.2, trivial⟩

theorem at_script (now : Float) (act : Act) (b : Broker) :
    ∀ s ∈ act.script now b, s.At now := by
  have hsome (t : Float) (h : some now = some t) : t = now := (Option.some.inj h).symm
  have hnone (t : Float) (h : none = some t) : t = now := by cases h
  refine Act.forall_mem_script b (fun _ _ => hsome) (fun _ _ _ => hnone) (fun _ => hnone) ?_
    fun _ _ => ⟨hnone, hnone⟩
  rintro c m -
  exact Script.forall_mem_message (fun _ => hsome) (fun _ => hsome)
    (fun _ _ _ => ⟨hnone, fun _ => hsome⟩) (fun _ => hnone) (fun _ => hnone) (fun _ _ => hnone) b

theorem due_perform (hn : b.Named) (htimes : From now times) {act : Act}
    (hspares : act.Spares now client key b)
    (h : act.matched now client key b ≠ [] ∨ b.Due client key times) :
    (act.perform now b).Due client key times := by
  rw [← Act.run_script]
  refine due_run hn htimes (at_script now act b) ?_
  have hopen := endsOpen_of_spares hn hspares
  rw [EndsOpen] at hopen
  cases hlast : (Step.along (Step.changes client key) (act.script now b) b).getLast? with
  | some change => exact .inl (congrArg some (hopen change hlast))
  | none =>
    have hnone := List.getLast?_eq_none_iff.1 hlast
    refine .inr ⟨hnone, h.resolve_left (not_not_intro ?_)⟩
    refine List.eq_nil_iff_forall_not_mem.2 fun f hf => ?_
    have hchange := mem_changes_of_matched hn hf
    rw [hnone] at hchange
    cases hchange

/-! ## Runs -/

/-- Finite times that do not decrease. -/
structure Advancing (times : List Float) : Prop where
  nonneg : ∀ t ∈ times, 0.0 ≤ t
  finite : ∀ t ∈ times, t.isFinite = true
  sorted : times.Pairwise (· ≤ ·)

theorem Advancing.tail (h : Advancing (now :: times)) : Advancing times where
  nonneg := (List.forall_mem_cons.1 h.nonneg).2
  finite := (List.forall_mem_cons.1 h.finite).2
  sorted := (List.pairwise_cons.1 h.sorted).2

theorem Advancing.from (h : Advancing (now :: times)) : From now (now :: times) where
  mem := .head _
  nonneg := h.nonneg
  finite := h.finite
  le := List.forall_mem_cons.2
    ⟨Double.le_self (h.nonneg now (.head _)), (List.pairwise_cons.1 h.sorted).1⟩

/-- All of these acts spare the client's subscription to the variable. -/
def SparesAll (client key : String) : List (Float × Act) → Broker → Prop
  | [], _ => True
  | (now, act) :: acts, b =>
    act.Spares now client key b ∧ SparesAll client key acts (act.perform now b)

instance decidableSparesAll (client key : String) : (acts : List (Float × Act)) → (b : Broker) →
    Decidable (SparesAll client key acts b)
  | [], _ => inferInstanceAs (Decidable True)
  | (now, act) :: acts, b =>
    have := decidableSparesAll client key acts (act.perform now b)
    inferInstanceAs (Decidable (_ ∧ _))

/-- A client that is due stays due until the last one of the times. -/
theorem Due.performActs {acts : List (Float × Act)} {last : Float} (hn : b.Named)
    (htimes : Advancing (acts.map Prod.fst ++ [last])) (hspares : SparesAll client key acts b)
    (h : b.Due client key (acts.map Prod.fst ++ [last])) :
    (performActs acts b).Due client key [last] := by
  induction acts generalizing b with
  | nil => exact h
  | cons a acts ih =>
    obtain ⟨now, act⟩ := a
    obtain ⟨hact, hacts⟩ := hspares
    have hnext := due_perform hn htimes.from hact (.inr h)
    exact ih (hn.performActs [(now, act)]) htimes.tail hacts
      (hnext.of_subset (List.subset_cons_self ..))

/-- An accepted write comes after all mail of a client that is due. -/
theorem Due.heldFor_notify {t : Float} {m : Message} {b' : Broker} (h : b.Due client m.key [t])
    (hwritten : ¬ b.Unwritten m.key) (haccepted : b.notify t m = .ok b') :
    b'.heldFor client = b.heldFor client ++ [m.stamped b.config.community] := by
  obtain ⟨x, hx, -, hdue⟩ := h
  have haccepts : b.Accepts t m := accepts_of_notify haccepted
  have htarget : (b.target t m).subscriptions.get? client = some x := by
    rw [get?_subscriptions_target, if_neg hwritten, hx]
  rw [notify_of_accepts haccepts] at haccepted
  rw [← Except.ok.inj haccepted, heldFor_fanOut, Variable.write_subscriptions, htarget]
  exact if_pos (hdue t (.head _))

/-- Once a filter of interval 0 has matched a variable, the last one of the client's filters that do
on this occasion, and as long as the client's subscription to the variable is spared, the client
gets each accepted write of the variable, whoever has written it before: at finite times that do not
decrease, the message comes after all its held mail. -/
theorem heldFor_of_matched (config : Config) (startTime : Float)
    (before after : List (Float × Act)) (now t : Float) (act : Act) (client key : String)
    (f : Filter) (m : Message) {b b' b'' : Broker}
    (hb : b = performActs before (start config startTime))
    (hb' : b' = performActs ((now, act) :: after) b)
    (htimes : Advancing (now :: (after.map Prod.fst ++ [t])))
    (hmatched : (act.matched now client key b).getLast? = some f)
    (hspares : SparesAll client key ((now, act) :: after) b) (hwritten : ¬ b'.Unwritten key)
    (hkey : m.key = key) (haccepted : b'.notify t m = .ok b'') :
    b''.heldFor client = b'.heldFor client ++ [m.stamped b'.config.community] := by
  obtain ⟨hact, hafter⟩ := hspares
  have hn : b.Named := hb ▸ (named_start config startTime).performActs before
  have hsome := List.ne_nil_of_mem (List.mem_of_getLast? hmatched)
  have hfirst := due_perform hn htimes.from hact (.inl hsome)
  have hlast : b'.Due client key [t] := by
    rw [hb', performActs_cons]
    exact Due.performActs (hn.performActs [(now, act)]) htimes.tail hafter
      (hfirst.of_subset (List.subset_cons_self ..))
  subst hkey
  exact hlast.heldFor_notify hwritten haccepted

/-- A registration for all that the application `P` writes to `X`. -/
def registerPX : Message := .text .wildcardRegister "" "AppPattern=P,VarPattern=X" 1.0

/-- The filter of that registration. -/
def filterPX : Filter := { sourcePattern := "P", keyPattern := "X", period := 0.0 }

/-- After `P` has written `X`, another application writes it, mail is fetched, and the client
registers for something else and takes that back. -/
def sparingRun : List (Float × Act) := [
  (3.0, .process "Q" (writeBy "Q" "X")),
  (3.0, .fetch "C"),
  (4.0, .process "C" (.double .register "Y" 5.0 4.0)),
  (4.0, .process "C" (.double .unregister "Y" 0.0 4.0)),
  (4.5, .process "Q" (writeBy "Q" "X"))]

theorem heldFor_of_matched_sparingRun :
    let b := performActs [(1.0, .process "C" registerPX)] (start (.ofCommunity "#1") 0.0)
    let act := Act.process "P" (writeBy "P" "X")
    let b' := performActs ((2.0, act) :: sparingRun) b
    let m := writeBy "P" "X"
    Advancing (2.0 :: (sparingRun.map Prod.fst ++ [5.0])) ∧
      ((act.matched 2.0 "C" "X" b).getLast? = some filterPX ∧
        SparesAll "C" "X" ((2.0, act) :: sparingRun) b ∧ ¬ b'.Unwritten "X" ∧ m.key = "X") ∧
      ∃ b'', b'.notify 5.0 m = .ok b'' ∧
        b''.heldFor "C" = b'.heldFor "C" ++ [m.stamped b'.config.community] := by
  intro b act b' m
  have htimes : Advancing (2.0 :: (sparingRun.map Prod.fst ++ [5.0])) :=
    ⟨by decide +kernel, by decide +kernel, by decide +kernel⟩
  have hmatched : (act.matched 2.0 "C" "X" b).getLast? = some filterPX := by decide +kernel
  have hspares : SparesAll "C" "X" ((2.0, act) :: sparingRun) b := by decide +kernel
  have hwritten : ¬ b'.Unwritten "X" := by decide +kernel
  have haccepts : b'.Accepts 5.0 m := by decide +kernel
  have haccepted := notify_of_accepts haccepts
  exact ⟨htimes, ⟨hmatched, hspares, hwritten, rfl⟩, _, haccepted,
    heldFor_of_matched _ 0.0 _ sparingRun 2.0 5.0 act "C" "X" filterPX m rfl rfl htimes hmatched
      hspares hwritten rfl haccepted⟩

/-- A registration for one write in five seconds of variables with short names. -/
def registerSlow : Message :=
  .text .wildcardRegister "" "AppPattern=?,VarPattern=?,Interval=5" 3.0

/-- The filter stands, `X` has been written, and a write of `X` that the filter covers is accepted,
but not added to the mail of the client. -/
def Misses (acts : List (Float × Act)) (t : Float) : Prop :=
  let b := performActs acts (start (.ofCommunity "#1") 0.0)
  let m := writeBy "P" "X"
  filterPX ∈ b.filtersOf "C" ∧ ¬ b.Unwritten "X" ∧
    ∃ b' ∈ (b.notify t m).toOption,
      b'.heldFor "C" ≠ b.heldFor "C" ++ [m.stamped b.config.community]

instance (acts : List (Float × Act)) (t : Float) : Decidable (Misses acts t) :=
  inferInstanceAs (Decidable (_ ∧ _))

/-- A filter that covers a write need not bring it to the client: if it did not match the first
write, if another registration of the client has taken the place of its subscription, by name or by
a filter, or if the time is infinite. -/
theorem unmatched_filter_gets_nothing :
    (filterPX.period = 0.0 ∧ filterPX.covers "P" "X" = true) ∧
      Misses [(1.0, .process "C" registerPX), (2.0, .process "Q" (writeBy "Q" "X"))] 3.0 ∧
      Misses [(1.0, .process "C" registerPX), (2.0, .process "P" (writeBy "P" "X")),
        (3.0, .process "C" (.double .register "X" 5.0 3.0))] 4.0 ∧
      Misses [(1.0, .process "C" registerPX), (2.0, .process "P" (writeBy "P" "X")),
        (3.0, .process "C" registerSlow)] 4.0 ∧
      Misses [(never, .process "C" registerPX), (never, .process "P" (writeBy "P" "X"))] never := by
  decide +kernel

end PubSub.Broker
