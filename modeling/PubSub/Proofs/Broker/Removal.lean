import PubSub.Proofs.Broker.Matching

/-!
# Filters that are taken back

A client that only registered by filters with one pair of patterns takes them back, and its mail is
fetched. From then on it gets mail of no variable but those left over: it was subscribed to them,
and their last writer just then did not match (`Broker.mem_heldFor_after_removal`).

The end of a filter only ends subscriptions to variables whose last writer matches, also when it was
another writer that they began with; so there may be such variables
(`Broker.removal_leaves_subscription`).

Up to that point the invariant of each step is `Broker.FilteredBy`: the client has filters with
these patterns only and subscriptions to matching names only. Afterwards it is `Broker.Confined`: no
filters, and no subscriptions but those left over.
-/

namespace PubSub.Broker

variable {b : Broker} {client : String} {f : Filter} {keys : String → Prop}

/-! ## A client with one pair of patterns -/

/-- All that a client is subscribed to comes from filters with the patterns of `f`. -/
structure FilteredBy (client : String) (f : Filter) (b : Broker) : Prop where
  named : b.Named
  filters : ∀ g ∈ b.filtersOf client, g.samePatterns f = true
  subscriptions : ∀ key x, b.subscription? client key = some x →
    matchesPattern f.keyPattern key = true

/-- A step that is no registration of the client but by a filter with the patterns of `f`. -/
def Step.RegistersBy (client : String) (f : Filter) : Step → Prop
  | .subscribe c key _ _ => c = client → matchesPattern f.keyPattern key = true
  | .keep c g => c = client → g.samePatterns f = true
  | _ => True

/-- An act that is no registration of the client but by a filter with the patterns of `f`. -/
def Act.RegistersBy (client : String) (f : Filter) : Act → Prop
  | .process c m => c = client → m.type ≠ .register ∧ (m.type = .wildcardRegister →
      ∀ g ∈ (Filter.parse m.textValue).toOption, g.samePatterns f = true)
  | _ => True

instance (client : String) (f : Filter) : (act : Act) → Decidable (act.RegistersBy client f)
  | .process _ _ => inferInstanceAs (Decidable (_ → _))
  | .arrive _ _ | .fetch _ | .publishNumber _ _ | .publishText _ _ | .enlist _ | .release _
  | .beginSummary => inferInstanceAs (Decidable True)

/-- Filters with the same patterns match the same names. -/
theorem matchesPattern_of_samePatterns {g : Filter} (h : g.samePatterns f = true)
    {source key : String} (hcovers : g.covers source key = true) :
    matchesPattern f.keyPattern key = true := by
  have hpatterns := (Bool.and_eq_true_iff.1 h).2
  rw [← beq_iff_eq.1 hpatterns]
  exact (Bool.and_eq_true_iff.1 hcovers).2

theorem filteredBy_start (config : Config) (startTime : Float) :
    (start config startTime).FilteredBy client f where
  named := named_start config startTime
  filters _ hg := by cases hg
  subscriptions key x hx := by
    obtain ⟨v, hv, hx⟩ := Option.bind_eq_some_iff.1 hx
    obtain ⟨value, rfl⟩ := eq_initialVariable hv
    cases hx

theorem FilteredBy.apply (h : b.FilteredBy client f) {s : Step} (hs : s.RegistersBy client f) :
    (s.apply b).FilteredBy client f where
  named := h.named.apply s
  filters g hg := by
    obtain hg | rfl := mem_filtersOf_apply hg
    · exact h.filters g hg
    · exact hs rfl
  subscriptions key x hx := by
    obtain ⟨y, hy⟩ | ⟨period, hperiod⟩ := subscription?_of_apply h.named hx
    · exact h.subscriptions key y hy
    · cases s with
      | write now m hm =>
        rw [Step.changes] at hperiod
        split at hperiod
        · rename_i hfirst
          obtain ⟨g, hg, -⟩ := List.mem_map.1 hperiod
          obtain ⟨hg, hcovers⟩ := List.mem_filter.1 hg
          rw [← hfirst.1]
          exact matchesPattern_of_samePatterns (h.filters g hg) hcovers
        · cases hperiod
      | subscribe c k period now =>
        rw [Step.changes] at hperiod
        split at hperiod
        · rename_i hmine
          rw [← hmine.2]
          exact hs hmine.1
        · cases hperiod
      | withdraw c ends =>
        rw [Step.changes] at hperiod
        split at hperiod
        · cases List.mem_singleton.1 hperiod
        · cases hperiod
      | keep | drop | clear | collect | forget | note => cases hperiod

theorem registersBy_script {now : Float} {act : Act} (hact : act.RegistersBy client f)
    (b : Broker) : ∀ s ∈ act.script now b, s.RegistersBy client f := by
  refine Act.forall_mem_script b (fun _ _ => trivial) (fun _ _ _ => trivial) (fun _ => trivial) ?_
    fun _ _ => ⟨trivial, trivial⟩
  rintro c m rfl
  refine Script.forall_mem_message_of_covers b (fun _ => trivial) ?_ ?_ (fun _ => trivial)
    (fun _ => trivial) fun _ _ => trivial
  · exact fun htype hc => absurd htype (hact hc).1
  · intro htype g hg
    have hsame (hc : c = client) : g.samePatterns f = true :=
      (hact hc).2 htype g (by rw [hg]; rfl)
    exact ⟨hsame, fun v _ hcovers hc => matchesPattern_of_samePatterns (hsame hc) hcovers⟩

/-! ## A client without filters -/

/-- A client has no filters, and is subscribed to none but these variables. -/
structure Confined (client : String) (keys : String → Prop) (b : Broker) : Prop where
  named : b.Named
  filters : b.filtersOf client = []
  subscriptions : ∀ key x, b.subscription? client key = some x → keys key

/-- An act that is no registration of the client. -/
def Act.NoReturn (client : String) : Act → Prop
  | .process c m => c = client → m.type ≠ .register ∧ m.type ≠ .wildcardRegister
  | _ => True

instance (client : String) : (act : Act) → Decidable (act.NoReturn client)
  | .process _ _ => inferInstanceAs (Decidable (_ → _))
  | .arrive _ _ | .fetch _ | .publishNumber _ _ | .publishText _ _ | .enlist _ | .release _
  | .beginSummary => inferInstanceAs (Decidable True)

theorem Confined.apply (h : b.Confined client keys) {s : Step} (hs : s.NoReturn client) :
    (s.apply b).Confined client keys where
  named := h.named.apply s
  filters := by
    refine List.eq_nil_iff_forall_not_mem.2 fun g hg => ?_
    obtain hg | rfl := mem_filtersOf_apply hg
    · rw [h.filters] at hg
      cases hg
    · exact hs rfl
  subscriptions key x hx := by
    obtain ⟨y, hy⟩ | ⟨period, hperiod⟩ := subscription?_of_apply h.named hx
    · exact h.subscriptions key y hy
    · cases s with
      | write now m hm =>
        rw [Step.changes, covering, h.filters] at hperiod
        split at hperiod <;> cases hperiod
      | subscribe c k period now =>
        rw [Step.changes, if_neg fun hmine => hs hmine.1] at hperiod
        cases hperiod
      | withdraw c ends =>
        rw [Step.changes] at hperiod
        split at hperiod
        · cases List.mem_singleton.1 hperiod
        · cases hperiod
      | keep | drop | clear | collect | forget | note => cases hperiod

/-- All mail held for a client is of these variables. -/
def HeldOf (client : String) (keys : String → Prop) (b : Broker) : Prop :=
  ∀ w ∈ b.heldFor client, keys w.key

theorem HeldOf.apply (h : b.HeldOf client keys) (hb : b.Confined client keys) {s : Step}
    (hs : s.NoReturn client) : (s.apply b).HeldOf client keys := by
  intro w hw
  obtain hw | ⟨x, hx⟩ := mem_heldFor_apply hb.named hw
  · exact h w hw
  · exact (hb.apply hs).subscriptions w.key x hx

theorem Act.noReturn_script {now : Float} {act : Act} (hact : act.NoReturn client) (b : Broker) :
    ∀ s ∈ act.script now b, s.NoReturn client := by
  refine Act.forall_mem_script b (fun _ _ => trivial) (fun _ _ _ => trivial) (fun _ => trivial) ?_
    fun _ _ => ⟨trivial, trivial⟩
  rintro c m rfl
  refine Script.forall_mem_message (fun _ => trivial) ?_ ?_ (fun _ => trivial) (fun _ => trivial)
    (fun _ _ => trivial) b
  · exact fun htype hc => (hact hc).1 htype
  · intro htype g _
    have hc : c ≠ client := fun hc => (hact hc).2 htype
    exact ⟨hc, fun _ => hc⟩

theorem Confined.performActs (h : b.Confined client keys) {acts : List (Float × Act)}
    (hacts : ∀ a ∈ acts, a.2.NoReturn client) : (performActs acts b).Confined client keys :=
  performActs_induction h (fun _ _ b hact => Act.noReturn_script hact b)
    (fun _ _ hs h => h.apply hs) hacts

theorem HeldOf.performActs (h : b.HeldOf client keys) (hb : b.Confined client keys)
    {acts : List (Float × Act)} (hacts : ∀ a ∈ acts, a.2.NoReturn client) :
    (performActs acts b).HeldOf client keys :=
  have hboth := performActs_induction (P := fun c => Confined client keys c ∧ HeldOf client keys c)
    ⟨hb, h⟩ (fun _ _ b hact => Act.noReturn_script hact b)
    (fun _ _ hs h => ⟨h.1.apply hs, h.2.apply h.1 hs⟩) hacts
  hboth.2

/-! ## Taking the filter back -/

/-- A variable that a client stays subscribed to when it takes a filter back, because its last
writer does not match. -/
def LeftOver (client : String) (f : Filter) (b : Broker) (key : String) : Prop :=
  ∃ v, b.store.get? key = some v ∧ v.isSubscribed client = true ∧
    matchesPattern f.sourcePattern v.writer = false

/-- A client that takes back the patterns of all its filters keeps no filter, and no subscription
but to variables that are left over. -/
theorem FilteredBy.confined (h : b.FilteredBy client f) {u : Message}
    (htype : u.type = .wildcardUnregister) (hf : Filter.parse u.textValue = .ok f) (now : Float) :
    (b.processed now client u).Confined client (LeftOver client f b) := by
  rw [← run_message, Script.message_of_wildcardUnregister b htype, hf, Step.run_cons, Step.run_cons,
    Step.run_nil]
  refine ⟨(h.named.apply _).apply _, ?_, fun key x hx => ?_⟩
  · show ((Step.drop client f).apply b).filtersOf client = []
    rw [Step.filtersOf_drop, if_pos rfl]
    exact List.filter_eq_nil_iff.2 fun g hg => by simp [h.filters g hg]
  · rw [subscription?_withdraw, Step.renewed, Step.changes] at hx
    split at hx
    case h_1 change hchange =>
      split at hchange
      · cases Option.some.inj hchange
        cases hx
      · cases hchange
    case h_2 hnone =>
      have hold : b.subscription? client key = some x := hx
      obtain ⟨v, hv, hx⟩ := Option.bind_eq_some_iff.1 hold
      have hstays : f.covers v.writer v.name = false := by
        have hstore : ((Step.drop client f).apply b).store.get? key = some v := hv
        simpa [hstore] using hnone
      refine ⟨v, hv, Variable.isSubscribed_eq_true_iff.2 ⟨x, hx⟩, ?_⟩
      rw [Filter.covers, h.named key v hv, h.subscriptions key x hold, Bool.and_true] at hstays
      exact hstays

/-- A client whose only registrations are by filters with one pair of patterns takes them back, and
later its mail is fetched. After that, as long as the client does not register again, all its mail
is of variables that were left over; if none was, it gets no mail at all. -/
theorem mem_heldFor_after_removal (config : Config) (startTime : Float)
    (before meanwhile after : List (Float × Act)) (now fetchTime : Float) (client : String)
    (u : Message) (f : Filter) (htype : u.type = .wildcardUnregister)
    (hf : Filter.parse u.textValue = .ok f) (hbefore : ∀ a ∈ before, a.2.RegistersBy client f)
    (hmeanwhile : ∀ a ∈ meanwhile, a.2.NoReturn client)
    (hafter : ∀ a ∈ after, a.2.NoReturn client) :
    let b := performActs before (start config startTime)
    let c := performActs (meanwhile ++ (fetchTime, .fetch client) :: after)
      (b.processed now client u)
    c.filtersOf client = [] ∧ ∀ w ∈ c.heldFor client, ∃ v, b.store.get? w.key = some v ∧
      v.isSubscribed client = true ∧ matchesPattern f.sourcePattern v.writer = false := by
  intro b c
  have hfiltered : b.FilteredBy client f :=
    performActs_induction (filteredBy_start config startTime)
      (fun _ _ b hact => registersBy_script hact b) (fun _ _ hs h => h.apply hs) hbefore
  have hremoved := (hfiltered.confined htype hf now).performActs hmeanwhile
  have hfetched := hremoved.performActs (List.forall_mem_singleton.2 trivial :
    ∀ a ∈ [(fetchTime, Act.fetch client)], a.2.NoReturn client)
  have hempty : HeldOf client (LeftOver client f b) (performActs [(fetchTime, .fetch client)]
      (performActs meanwhile (b.processed now client u))) := by
    intro w hw
    rw [performActs_cons, performActs_nil, Act.perform, heldFor_collect, if_pos rfl] at hw
    cases hw
  have hc : c = performActs after (performActs [(fetchTime, .fetch client)]
      (performActs meanwhile (b.processed now client u))) := performActs_append ..
  rw [hc]
  exact ⟨(hfetched.performActs hafter).filters, hempty.performActs hfetched hafter⟩

/-- The end of a registration for what the application `P` writes to `X`. -/
def unregisterPX : Message := .text .wildcardUnregister "" "AppPattern=P,VarPattern=X" 1.0

/-- The client `C` registers for what `P` writes to `X`, and `P` writes it. -/
def filteredRun : List (Float × Act) := [
  (1.0, .process "C" registerPX),
  (2.0, .process "P" (writeBy "P" "X"))]

/-- `P` writes `X` before the mail of `C` is fetched. -/
def pendingRun : List (Float × Act) := [(4.0, .process "P" (writeBy "P" "X"))]

/-- `X` is written by both applications, and also after all variables have been cleared. -/
def silentRun : List (Float × Act) := [
  (6.0, .process "P" (writeBy "P" "X")),
  (7.0, .process "Q" (writeBy "Q" "X")),
  (8.0, .process "Q" (.text .serverRequest requestClear "" 8.0)),
  (9.0, .process "P" (writeBy "P" "X"))]

theorem mem_heldFor_after_removal_silentRun :
    let b := performActs filteredRun (start (.ofCommunity "#1") 0.0)
    let c := performActs (pendingRun ++ (5.0, .fetch "C") :: silentRun)
      (b.processed 3.0 "C" unregisterPX)
    (unregisterPX.type = .wildcardUnregister ∧
      Filter.parse unregisterPX.textValue = .ok filterPX ∧
      (∀ a ∈ filteredRun, a.2.RegistersBy "C" filterPX) ∧
      (∀ a ∈ pendingRun, a.2.NoReturn "C") ∧ ∀ a ∈ silentRun, a.2.NoReturn "C") ∧
    b.heldFor "C" ≠ [] ∧ c.filtersOf "C" = [] ∧
      ∀ w ∈ c.heldFor "C", ∃ v, b.store.get? w.key = some v ∧ v.isSubscribed "C" = true ∧
        matchesPattern filterPX.sourcePattern v.writer = false := by
  have htype : unregisterPX.type = .wildcardUnregister := rfl
  have hf : Filter.parse unregisterPX.textValue = .ok filterPX := by decide +kernel
  have hbefore : ∀ a ∈ filteredRun, a.2.RegistersBy "C" filterPX := by decide +kernel
  have hmeanwhile : ∀ a ∈ pendingRun, a.2.NoReturn "C" := by decide
  have hafter : ∀ a ∈ silentRun, a.2.NoReturn "C" := by decide
  exact ⟨⟨htype, hf, hbefore, hmeanwhile, hafter⟩, by decide +kernel,
    mem_heldFor_after_removal _ 0.0 filteredRun pendingRun silentRun 3.0 5.0 "C" unregisterPX
      filterPX htype hf hbefore hmeanwhile hafter⟩

/-- The same, but `Q` is the last to write `X` before `C` takes its filter back. -/
def overwrittenRun : List (Float × Act) := filteredRun ++ [(2.5, .process "Q" (writeBy "Q" "X"))]

/-- The client has taken its only filter back and its mail has been fetched, and yet it gets mail
when `P` writes `X`: the subscription was not ended, since the last writer was `Q` then. -/
theorem removal_leaves_subscription :
    let b := (performActs overwrittenRun (start (.ofCommunity "#1") 0.0)).processed 3.0 "C"
      unregisterPX
    let fetched := performActs [(5.0, .fetch "C")] b
    let written := performActs [(6.0, .process "P" (writeBy "P" "X"))] fetched
    Filter.parse unregisterPX.textValue = .ok filterPX ∧
      (∀ a ∈ overwrittenRun, a.2.RegistersBy "C" filterPX) ∧ fetched.filtersOf "C" = [] ∧
      fetched.heldFor "C" = [] ∧ written.heldFor "C" = [(writeBy "P" "X").stamped "#1"] := by
  decide +kernel

end PubSub.Broker
